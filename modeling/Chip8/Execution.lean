import Chip8.Instruction
import Chip8.Machine
import Chip8.Sprite

/-!
# Execution

`Machine.perform` is the effect of one instruction, after the program counter has been moved past
it. An instruction that reaches behind the end of memory or finds the stack full or empty checks
that first and changes nothing. A machine with all its registers never lacks one; where some were
lost, an instruction goes as far as the first that is missing.
-/

namespace Chip8
namespace Machine

variable {w h : Nat}

/-- The program counter moved to the next instruction, within sixteen bits. -/
def advance (m : Machine w h) : Machine w h := { m with counter := (m.counter + 2) % 65536 }

/-- The address of the instruction that the program counter has been moved past. -/
def origin (m : Machine w h) : Int := m.counter - 2

/-- Goes on if `size` bytes from the address register on end within memory. -/
def access (m : Machine w h) (i : Instruction) (size : Nat) (next : Outcome (Machine w h)) :
    Outcome (Machine w h) :=
  if m.index + size ≤ m.memory.size then next
  else .failed (.fault (.accessOutside size m.index m.origin i.toOpcode)) m

/-- Goes on if some registers are there. -/
def need (m : Machine w h) (rs : List Register) (next : Outcome (Machine w h)) :
    Outcome (Machine w h) :=
  if ∀ r ∈ rs, r < m.registers.size then next else .failed .byteMissing m

def register (m : Machine w h) (r : Register) : UInt8 := m.registers.get r

def setRegister (m : Machine w h) (r : Register) (b : UInt8) : Machine w h :=
  { m with registers := m.registers.set r b }

def setFlag (m : Machine w h) (flag : UInt8) : Outcome (Machine w h) :=
  m.need [Register.flag] (.done (m.setRegister Register.flag flag))

theorem need_of_size {m : Machine w h} (hm : m.registers.size = registerCount)
    (rs : List Register) (next : Outcome (Machine w h)) : m.need rs next = next := by
  refine if_pos fun r _ => ?_
  rw [hm]
  exact r.isLt

theorem setFlag_of_size {m : Machine w h} (hm : m.registers.size = registerCount) (flag : UInt8) :
    m.setFlag flag = .done (m.setRegister Register.flag flag) :=
  need_of_size hm _ _

theorem register_setRegister {m : Machine w h} (hm : m.registers.size = registerCount)
    (r : Register) (b : UInt8) (s : Register) :
    (m.setRegister r b).register s = if r = s then b else m.register s := by
  have hs : (s : Nat) < m.registers.size := by rw [hm]; exact s.isLt
  simp only [register, setRegister, Bytes.get_set, hs, and_true, Fin.ext_iff]

def meets (m : Machine w h) : Condition → Bool
  | .equal x b => m.register x == b
  | .different x b => m.register x != b
  | .same x y => m.register x == m.register y
  | .distinct x y => m.register x != m.register y
  | .pressed x => m.keys.latched (Fin.ofNat 16 (m.register x).toNat)
  | .released x => !m.keys.latched (Fin.ofNat 16 (m.register x).toNat)

/-- A register and then the flag set; where both are the same register, the flag stays. -/
def setWithFlag (m : Machine w h) (r : Register) (b flag : UInt8) : Outcome (Machine w h) :=
  (m.setRegister r b).setFlag flag

def flagOf (b : Bool) : UInt8 := if b then 1 else 0

/-- The difference of two numbers within a byte, and whether it needs no borrow. -/
def byteDifference (a b : Int) : Nat × Nat :=
  (((a - b) % 256).toNat, if 0 ≤ a - b then 1 else 0)

def shiftSource (m : Machine w h) (x y : Register) : Register :=
  if m.variant = .chip8 then y else x

/-- The rows of a sprite and the bytes in each. A sprite of no rows is a large one on a machine that
has them. -/
def spriteShape (m : Machine w h) (tall : Bool) (rows : Fin 16) : Nat × Nat :=
  if rows = 0 ∧ tall = true ∧ m.variant = .xochip then (16, 2) else (rows, 1)

def spriteOrigin (m : Machine w h) (x y : Register) : Nat × Nat :=
  ((m.register x).toNat % w, (m.register y).toNat % h)

def drawn (m : Machine w h) (tall : Bool) (x y : Register) (rows : Fin 16) :
    Framebuffer w h × Bool :=
  let shape := m.spriteShape tall rows
  let origin := m.spriteOrigin x y
  let sprite := Sprite.ofMemory m.memory m.index shape.1 shape.2
  m.screen.flipAll (sprite.cells w h origin.1 origin.2)

def drawSprite (m : Machine w h) (tall : Bool) (x y : Register) (rows : Fin 16) :
    Outcome (Machine w h) :=
  let result := m.drawn tall x y rows
  ({ m with screen := result.1 }.setFlag (flagOf result.2)).andThen fun m =>
    .done { m with redraw := true }

/-- The address register after a block of registers up to `x` was moved: the first variant leaves it
behind the block. -/
def indexAfterBlock (m : Machine w h) (x : Register) : Int :=
  if m.variant = .chip8 then m.index + x + 1 else m.index

def decimalDigits (b : UInt8) : List UInt8 :=
  [UInt8.ofNat (b.toNat / 100 % 10), UInt8.ofNat (b.toNat / 10 % 10), UInt8.ofNat (b.toNat % 10)]

def withRegisters (m : Machine w h) : Except Failure Bytes → Outcome (Machine w h)
  | .ok registers => .done { m with registers := registers }
  | .error why => .failed why m

def withMemory (m : Machine w h) : Except Failure Bytes → Outcome (Machine w h)
  | .ok memory => .done { m with memory := memory }
  | .error why => .failed why m

/-- The effect of an instruction. A random instruction combines its mask with `random`. -/
def perform (m : Machine w h) (tall : Bool) (random : UInt8) (i : Instruction) :
    Outcome (Machine w h) :=
  match i with
  | .clear => .done m.darken
  | .leave =>
    match m.stack with
    | [] => .failed (.fault (.stackEmpty m.origin i.toOpcode)) m
    | a :: rest => .done { m with counter := a, stack := rest }
  | .jump a => .done { m with counter := a }
  | .call a =>
    if m.stack.length < maxStackDepth then
      .done { m with counter := a, stack := m.counter :: m.stack }
    else .failed (.fault (.stackFull m.origin i.toOpcode)) m
  | .skip condition =>
    m.need condition.registers <|
      .done (if m.meets condition then { m with counter := m.counter + 2 } else m)
  | .set x b => m.need [x] <| .done (m.setRegister x b)
  | .add x b => m.need [x] <| .done (m.setRegister x (m.register x + b))
  | .copy x y => m.need [x, y] <| .done (m.setRegister x (m.register y))
  | .logic op x y =>
    m.need [x, y] <|
      let result := m.setRegister x (op.eval (m.register x) (m.register y))
      if m.variant = .chip8 then result.setFlag 0 else .done result
  | .sum x y =>
    m.need [x, y] <|
      let a := m.register x
      let b := m.register y
      m.setWithFlag x (a + b) (flagOf (255 < a.toNat + b.toNat))
  | .subtract x y =>
    m.need [x, y] <|
      let difference := byteDifference (m.register x).toNat (m.register y).toNat
      m.setWithFlag x (.ofNat difference.1) (.ofNat difference.2)
  | .shift op x y =>
    m.need [x, m.shiftSource x y] <|
      let source := m.register (m.shiftSource x y)
      m.setWithFlag x (op.eval source) (op.lost source)
  | .subtractFrom x y =>
    m.need [x, y] <|
      let difference := byteDifference (m.register y).toNat (m.register x).toNat
      m.setWithFlag y (.ofNat difference.1) (.ofNat difference.2)
  | .setIndex a => .done { m with index := a }
  | .jumpPlus a => m.need [0] <| .done { m with counter := (a + (m.register 0).toNat : Nat) }
  | .random x mask => m.need [x] <| .done (m.setRegister x (mask &&& random))
  | .draw x y rows =>
    let shape := m.spriteShape tall rows
    m.access i (shape.1 * shape.2) <|
      m.need [x] <|
        if w = 0 then .failed .emptyScreen m
        else
          m.need [y] <|
            if h = 0 then .failed .emptyScreen m else m.drawSprite tall x y rows
  | .readDelay x => m.withRegisters (m.registers.store x m.delay)
  | .awaitKey x =>
    match m.keys.first? with
    | some k => m.need [x] <| .done (m.setRegister x (UInt8.ofNat k))
    | none => .done { m with counter := m.counter - 2 }
  | .setDelay x => m.need [x] <| .done { m with delay := (m.register x).toNat }
  | .setSound x => m.need [x] <| .done { m with sound := (m.register x).toNat }
  | .addIndex x =>
    m.need [x] <| .done { m with index := (m.index + (m.register x).toNat) % 65536 }
  | .pointDigit x =>
    m.need [x] <| .done { m with index := ((m.register x).toNat * digitSize : Nat) }
  | .storeDecimal x =>
    m.access i 3 <|
      m.need [x] <| m.withMemory (m.memory.storeAll m.index (decimalDigits (m.register x)))
  | .dump x =>
    m.access i (x + 1) <|
      .done { m with
        memory := m.memory.replace m.index (x + 1) (m.registers.block 0 (x + 1))
        index := m.indexAfterBlock x }
  | .restore x =>
    m.access i (x + 1) <|
      .done { m with
        registers := m.registers.replace 0 (x + 1) (m.memory.block m.index (x + 1))
        index := m.indexAfterBlock x }
  | .ignored _ => .done m

def execute (m : Machine w h) (tall : Bool) (random : UInt8) (c : Opcode) :
    Outcome (Machine w h) :=
  m.advance.perform tall random (.ofOpcode c)

/-- The word that the program counter points to, the high byte first. A program counter below zero
counts from the end of memory. -/
def fetch (m : Machine w h) : Except Failure Opcode :=
  if m.memory.size ≤ m.counter + 1 then .error (.fault (.fetchOutside m.counter))
  else
    match m.memory.block m.counter 2 with
    | [high, low] => .ok (.ofBytes high low)
    | _ => .error .byteMissing

theorem fetch_of_lt {m : Machine w h} {a : Nat} (ha : m.counter = a) (h : a + 1 < m.memory.size) :
    m.fetch = .ok (.ofBytes (m.memory.get a) (m.memory.get (a + 1))) := by
  have hlt : ¬(m.memory.size : Int) ≤ m.counter + 1 := by omega
  have hblock : m.memory.block a 2 = [m.memory.get a, m.memory.get (a + 1)] := by
    rw [Bytes.block_eq m.memory (show a + 2 ≤ m.memory.size by omega)]
    rfl
  unfold fetch
  rw [if_neg hlt, ha, hblock]

end Machine
end Chip8
