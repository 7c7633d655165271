import Chip8.Hexadecimal

/-!
# Opcodes

An opcode is a word of two bytes, the high one first. Its fields are cut out of its four hexadecimal
digits.
-/

namespace Chip8

/-- The number of a general register; the last one doubles as the flag. -/
abbrev Register := Fin 16

instance Register.first : @NeZero Nat Zero.ofOfNat0 16 := ⟨by decide⟩

/-- The register that receives carries, borrows, shifted-out bits and collisions. -/
abbrev Register.flag : Register := 15

structure Opcode where
  word : UInt16
  deriving DecidableEq

namespace Opcode

def ofBytes (high low : UInt8) : Opcode := ⟨UInt16.ofNat (256 * high.toNat + low.toNat)⟩

def toNat (c : Opcode) : Nat := c.word.toNat

def family (c : Opcode) : Nat := c.toNat / 4096

def x (c : Opcode) : Register := Fin.ofNat 16 (c.toNat / 256)

def y (c : Opcode) : Register := Fin.ofNat 16 (c.toNat / 16)

def n (c : Opcode) : Fin 16 := Fin.ofNat 16 c.toNat

def nn (c : Opcode) : UInt8 := UInt8.ofNat c.toNat

def nnn (c : Opcode) : Fin 4096 := Fin.ofNat 4096 c.toNat

theorem toNat_lt (c : Opcode) : c.toNat < 65536 := c.word.toNat_lt

theorem family_lt (c : Opcode) : c.family < 16 := by
  have := c.toNat_lt
  unfold family
  omega

def text (c : Opcode) : String := Hexadecimal.fill 4 (Hexadecimal.digits c.toNat)

end Opcode
end Chip8
