import Chip8.Noise
import Chip8.Trace

/-!
# The console

A machine together with its source of random bytes and the choice whether large sprites are drawn.
Each operation leaves a console behind, and a trace for those who want it.
-/

namespace Chip8

structure Console (w h : Nat) where
  machine : Machine w h
  noise : Noise
  tall : Bool

namespace Console

variable {w h : Nat}

def noiseAfter (c : Console w h) (i : Instruction) : Noise :=
  if i.isRandom then c.noise.advance else c.noise

def execute (c : Console w h) (word : Opcode) : Outcome (Console w h) :=
  (c.machine.execute c.tall c.noise.next word).map fun m =>
    { c with machine := m, noise := c.noiseAfter (.ofOpcode word) }

/-- The word under the program counter executed. -/
def step (c : Console w h) : Outcome (Console w h) :=
  match c.machine.fetch with
  | .ok word => c.execute word
  | .error why => .failed why c

def executeTrace (c : Console w h) (word : Opcode) : List String :=
  match c.execute word with
  | .done after => Trace.executed c.tall c.noise.next word c.machine after.machine
  | .failed _ _ => []

def stepTrace (c : Console w h) : List String :=
  match c.machine.fetch with
  | .ok word => c.executeTrace word
  | .error _ => []

def onMachine (c : Console w h) (f : Machine w h → Outcome (Machine w h)) :
    Outcome (Console w h) :=
  (f c.machine).map fun m => { c with machine := m }

end Console
end Chip8
