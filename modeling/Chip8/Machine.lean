import Chip8.Bytes
import Chip8.Framebuffer
import Chip8.Keypad
import Chip8.Outcome
import Chip8.Variant

/-!
# The machine

The state of a machine with a screen of `w` by `h` pixels, and what happens to it from outside:
programs are loaded, keys are pressed, the timers run down. The machine is built with 4096 bytes of
memory and sixteen registers. Nothing in the state confines the program counter, the address
register and the timers, which may be put to any number from outside.
-/

namespace Chip8

abbrev memorySize : Nat := 4096

abbrev registerCount : Nat := 16

structure Machine (w h : Nat) where
  variant : Variant
  memory : Bytes
  registers : Bytes
  /-- The address register. -/
  index : Int
  counter : Int
  /-- The return addresses, the latest first. -/
  stack : List Int
  delay : Int
  sound : Int
  keys : Keypad
  screen : Framebuffer w h
  /-- Whether the screen has changed since it was last shown. -/
  redraw : Bool
  deriving DecidableEq

namespace Machine

variable {w h : Nat}

abbrev programStart : Nat := 512

def digitRows : List UInt8 :=
  [0xf0, 0x90, 0x90, 0x90, 0xf0, 0x20, 0x60, 0x20, 0x20, 0x70,
   0xf0, 0x10, 0xf0, 0x80, 0xf0, 0xf0, 0x10, 0xf0, 0x10, 0xf0,
   0x90, 0x90, 0xf0, 0x10, 0x10, 0xf0, 0x80, 0xf0, 0x10, 0xf0,
   0xf0, 0x80, 0xf0, 0x90, 0xf0, 0xf0, 0x10, 0x20, 0x40, 0x40,
   0xf0, 0x90, 0xf0, 0x90, 0xf0, 0xf0, 0x90, 0xf0, 0x10, 0xf0,
   0xf0, 0x90, 0xf0, 0x90, 0x90, 0xe0, 0x90, 0xe0, 0x90, 0xe0,
   0xf0, 0x80, 0x80, 0x80, 0xf0, 0xe0, 0x90, 0x90, 0x90, 0xe0,
   0xf0, 0x80, 0xf0, 0x80, 0xf0, 0xf0, 0x80, 0xf0, 0x80, 0x80]

abbrev digitSize : Nat := 5

def loadDigits (m : Machine w h) : Machine w h :=
  { m with memory := m.memory.replace 0 digitRows.length digitRows }

def fresh (w h : Nat) (v : Variant) : Machine w h :=
  loadDigits
    { variant := v
      memory := .blank memorySize
      registers := .blank registerCount
      index := 0
      counter := programStart
      stack := []
      delay := 0
      sound := 0
      keys := .blank
      screen := .blank w h
      redraw := false }

def load (m : Machine w h) (program : List UInt8) : Outcome (Machine w h) :=
  if programCapacity < program.length then .failed (.programTooLarge program.length) m
  else .done { m with memory := m.memory.replace programStart program.length program }

def create (w h : Nat) (v : Variant) (program : List UInt8) : Except Failure (Machine w h) :=
  match (fresh w h v).load program with
  | .done m => .ok m
  | .failed why _ => .error why

/-- Everything but the variant and the size of the screen set back, and a program loaded. A program
that is too large leaves the machine alone. -/
def reset (m : Machine w h) (program : List UInt8) : Outcome (Machine w h) :=
  if programCapacity < program.length then .failed (.programTooLarge program.length) m
  else
    { m with
      memory := .blank memorySize
      registers := .blank registerCount
      index := 0
      counter := programStart
      stack := []
      delay := 0
      sound := 0
      keys := .blank
      screen := .blank w h
      redraw := true }.loadDigits.load program

def latch (m : Machine w h) (k : Key) (held : Bool) : Machine w h :=
  { m with keys := m.keys.latch k held }

def press (m : Machine w h) (k : Int) (held : Bool) : Outcome (Machine w h) :=
  match Key.ofInt k with
  | .ok key => .done (m.latch key held)
  | .error why => .failed why m

def darken (m : Machine w h) : Machine w h :=
  { m with screen := .blank w h, redraw := true }

/-- A timer one tick later. It stands still unless it is above zero. -/
def countDown (t : Int) : Int := if 0 < t then t - 1 else t

def decay (m : Machine w h) : Machine w h :=
  { m with delay := countDown m.delay, sound := countDown m.sound }

def sounding (m : Machine w h) : Bool := m.sound != 0

theorem countDown_of_nonneg {t : Int} (h : 0 ≤ t) : countDown t = max 0 (t - 1) := by
  unfold countDown
  split <;> omega

end Machine

end Chip8
