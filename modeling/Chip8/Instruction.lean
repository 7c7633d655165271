import Chip8.Opcode

/-!
# The instruction set

Thirty-four patterns of opcodes have a meaning; every other word is ignored. `ofOpcode` reads a word
and `toOpcode` writes it back.
-/

namespace Chip8

inductive Logic
  | or | and | xor
  deriving DecidableEq

def Logic.eval : Logic → UInt8 → UInt8 → UInt8
  | .or, a, b => a ||| b
  | .and, a, b => a &&& b
  | .xor, a, b => a ^^^ b

/-- Shifts by one place. -/
inductive Shift
  | right | left
  deriving DecidableEq

def Shift.eval : Shift → UInt8 → UInt8
  | .right, a => a >>> 1
  | .left, a => a <<< 1

/-- The bit that a shift moves out of the byte. -/
def Shift.lost : Shift → UInt8 → UInt8
  | .right, a => a &&& 1
  | .left, a => a >>> 7

inductive Condition
  | equal (x : Register) (b : UInt8)
  | different (x : Register) (b : UInt8)
  | same (x y : Register)
  | distinct (x y : Register)
  | pressed (x : Register)
  | released (x : Register)
  deriving DecidableEq

def Condition.registers : Condition → List Register
  | .equal x _ | .different x _ | .pressed x | .released x => [x]
  | .same x y | .distinct x y => [x, y]

inductive Instruction
  | clear
  | leave
  | jump (target : Fin 4096)
  | call (target : Fin 4096)
  | skip (condition : Condition)
  | set (x : Register) (b : UInt8)
  | add (x : Register) (b : UInt8)
  | copy (x y : Register)
  | logic (op : Logic) (x y : Register)
  | sum (x y : Register)
  /-- The first register receives itself minus the second. -/
  | subtract (x y : Register)
  | shift (op : Shift) (x y : Register)
  /-- The second register receives itself minus the first. -/
  | subtractFrom (x y : Register)
  | setIndex (address : Fin 4096)
  | jumpPlus (base : Fin 4096)
  | random (x : Register) (mask : UInt8)
  | draw (x y : Register) (rows : Fin 16)
  | readDelay (x : Register)
  | awaitKey (x : Register)
  | setDelay (x : Register)
  | setSound (x : Register)
  | addIndex (x : Register)
  | pointDigit (x : Register)
  | storeDecimal (x : Register)
  | dump (x : Register)
  | restore (x : Register)
  | ignored (code : Opcode)
  deriving DecidableEq

namespace Instruction

/-- The members of the `8XYN` family, by their last digit. -/
def arithmetic (c : Opcode) : Instruction :=
  match c.n.val with
  | 0x0 => .copy c.x c.y
  | 0x1 => .logic .or c.x c.y
  | 0x2 => .logic .and c.x c.y
  | 0x3 => .logic .xor c.x c.y
  | 0x4 => .sum c.x c.y
  | 0x5 => .subtract c.x c.y
  | 0x6 => .shift .right c.x c.y
  | 0x7 => .subtractFrom c.x c.y
  | 0xe => .shift .left c.x c.y
  | _ => .ignored c

/-- The members of the `FXNN` family, by their last byte. -/
def miscellaneous (c : Opcode) : Instruction :=
  match c.nn.toNat with
  | 0x07 => .readDelay c.x
  | 0x0a => .awaitKey c.x
  | 0x15 => .setDelay c.x
  | 0x18 => .setSound c.x
  | 0x1e => .addIndex c.x
  | 0x29 => .pointDigit c.x
  | 0x33 => .storeDecimal c.x
  | 0x55 => .dump c.x
  | 0x65 => .restore c.x
  | _ => .ignored c

def ofOpcode (c : Opcode) : Instruction :=
  match c.family with
  | 0x0 =>
    if c.word = 0x00e0 then .clear else if c.word = 0x00ee then .leave else .ignored c
  | 0x1 => .jump c.nnn
  | 0x2 => .call c.nnn
  | 0x3 => .skip (.equal c.x c.nn)
  | 0x4 => .skip (.different c.x c.nn)
  | 0x5 => if c.n = 0 then .skip (.same c.x c.y) else .ignored c
  | 0x6 => .set c.x c.nn
  | 0x7 => .add c.x c.nn
  | 0x8 => arithmetic c
  | 0x9 => if c.n = 0 then .skip (.distinct c.x c.y) else .ignored c
  | 0xa => .setIndex c.nnn
  | 0xb => .jumpPlus c.nnn
  | 0xc => .random c.x c.nn
  | 0xd => .draw c.x c.y c.n
  | 0xe =>
    if c.nn = 0x9e then .skip (.pressed c.x)
    else if c.nn = 0xa1 then .skip (.released c.x)
    else .ignored c
  | _ => miscellaneous c

def wordXB (family : Nat) (x : Register) (b : Nat) : Nat := 4096 * family + 256 * x + b

def wordXY (family : Nat) (x y : Register) (n : Nat) : Nat :=
  4096 * family + 256 * x + 16 * y + n

def code : Instruction → Nat
  | .clear => 0x00e0
  | .leave => 0x00ee
  | .jump a => 0x1000 + a
  | .call a => 0x2000 + a
  | .skip (.equal x b) => wordXB 0x3 x b.toNat
  | .skip (.different x b) => wordXB 0x4 x b.toNat
  | .skip (.same x y) => wordXY 0x5 x y 0
  | .set x b => wordXB 0x6 x b.toNat
  | .add x b => wordXB 0x7 x b.toNat
  | .copy x y => wordXY 0x8 x y 0x0
  | .logic .or x y => wordXY 0x8 x y 0x1
  | .logic .and x y => wordXY 0x8 x y 0x2
  | .logic .xor x y => wordXY 0x8 x y 0x3
  | .sum x y => wordXY 0x8 x y 0x4
  | .subtract x y => wordXY 0x8 x y 0x5
  | .shift .right x y => wordXY 0x8 x y 0x6
  | .subtractFrom x y => wordXY 0x8 x y 0x7
  | .shift .left x y => wordXY 0x8 x y 0xe
  | .skip (.distinct x y) => wordXY 0x9 x y 0
  | .setIndex a => 0xa000 + a
  | .jumpPlus a => 0xb000 + a
  | .random x b => wordXB 0xc x b.toNat
  | .draw x y n => wordXY 0xd x y n
  | .skip (.pressed x) => wordXB 0xe x 0x9e
  | .skip (.released x) => wordXB 0xe x 0xa1
  | .readDelay x => wordXB 0xf x 0x07
  | .awaitKey x => wordXB 0xf x 0x0a
  | .setDelay x => wordXB 0xf x 0x15
  | .setSound x => wordXB 0xf x 0x18
  | .addIndex x => wordXB 0xf x 0x1e
  | .pointDigit x => wordXB 0xf x 0x29
  | .storeDecimal x => wordXB 0xf x 0x33
  | .dump x => wordXB 0xf x 0x55
  | .restore x => wordXB 0xf x 0x65
  | .ignored c => c.toNat

def toOpcode (i : Instruction) : Opcode := ⟨UInt16.ofNat i.code⟩

def isRandom : Instruction → Bool
  | .random _ _ => true
  | _ => false

theorem code_arithmetic {c : Opcode} (h : c.family = 8) : (arithmetic c).code = c.toNat := by
  have hf : c.toNat / 4096 = 8 := h
  have hn : c.n.val = c.toNat % 16 := rfl
  unfold arithmetic
  split <;> simp only [code, wordXY, Opcode.x, Opcode.y, Fin.ofNat] <;> omega

theorem code_miscellaneous {c : Opcode} (h : c.family = 15) :
    (miscellaneous c).code = c.toNat := by
  have hf : c.toNat / 4096 = 15 := h
  have hnn : c.nn.toNat = c.toNat % 256 := UInt8.toNat_ofNat'
  unfold miscellaneous
  split <;> simp only [code, wordXB, Opcode.x, Fin.ofNat] <;> omega

/-- An instruction spells the word that it was read from. -/
theorem code_ofOpcode (c : Opcode) : (ofOpcode c).code = c.toNat := by
  have hlt := c.toNat_lt
  have hnn : c.nn.toNat = c.toNat % 256 := UInt8.toNat_ofNat'
  have hn (h : c.n = 0) : c.toNat % 16 = 0 := congrArg Fin.val h
  have hb {b : UInt8} (h : c.nn = b) : c.toNat % 256 = b.toNat := by rw [← hnn, h]
  unfold ofOpcode
  split
  case h_1 =>
    split
    · rename_i h; simp [code, Opcode.toNat, h]
    · split
      · rename_i h; simp [code, Opcode.toNat, h]
      · rfl
  case h_6 hf =>
    simp only [Opcode.family] at hf
    split
    · rename_i h
      have := hn h
      simp only [code, wordXY, Opcode.x, Opcode.y, Fin.ofNat]
      omega
    · rfl
  case h_9 hf => exact code_arithmetic hf
  case h_10 hf =>
    simp only [Opcode.family] at hf
    split
    · rename_i h
      have := hn h
      simp only [code, wordXY, Opcode.x, Opcode.y, Fin.ofNat]
      omega
    · rfl
  case h_15 hf =>
    simp only [Opcode.family] at hf
    split
    · rename_i h
      have : c.toNat % 256 = 0x9e := hb h
      simp only [code, wordXB, Opcode.x, Fin.ofNat]
      omega
    · split
      · rename_i h
        have : c.toNat % 256 = 0xa1 := hb h
        simp only [code, wordXB, Opcode.x, Fin.ofNat]
        omega
      · rfl
  case h_16 =>
    refine code_miscellaneous ?_
    have := c.family_lt
    simp only [imp_false] at *
    omega
  all_goals
    rename_i hf
    simp only [Opcode.family] at hf
    simp only [code, wordXB, wordXY, hnn, Opcode.x, Opcode.y, Opcode.n, Opcode.nnn, Fin.ofNat]
    omega

@[simp] theorem toOpcode_ofOpcode (c : Opcode) : (ofOpcode c).toOpcode = c := by
  obtain ⟨word⟩ := c
  simp [toOpcode, code_ofOpcode, Opcode.toNat]

end Instruction
end Chip8
