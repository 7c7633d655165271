/-!
# Variants

Three dialects of the machine, which differ in the bitwise, shift and register block instructions
and in tall sprites.
-/

namespace Chip8

inductive Variant
  | chip8 | superchip | xochip
  deriving DecidableEq

namespace Variant

def all : List Variant := [.chip8, .superchip, .xochip]

def name : Variant → String
  | .chip8 => "chip8"
  | .superchip => "superchip"
  | .xochip => "xochip"

def ofName? (name : String) : Option Variant := all.find? (·.name == name)

@[simp] theorem ofName?_name (v : Variant) : ofName? v.name = some v := by
  cases v <;> rfl

end Variant
end Chip8
