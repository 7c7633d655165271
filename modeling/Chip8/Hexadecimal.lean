/-!
# Hexadecimal text

Digits are lower-case. The sign and the mark of a number stand before the zeros that fill a field,
and both count towards its width.
-/

namespace Chip8
namespace Hexadecimal

def digits (n : Nat) : String := String.ofList (Nat.toDigits 16 n)

def fill (width : Nat) (text : String) : String :=
  String.ofList (List.replicate (width - text.length) '0') ++ text

/-- A number in a field of at least `width` characters, with `mark` after its sign. -/
def field (mark : String) (width : Nat) (n : Int) : String :=
  let lead := (if n < 0 then "-" else "") ++ mark
  lead ++ fill (width - lead.length) (digits n.natAbs)

def marked (n : Int) : String := field "0x" 0 n

end Hexadecimal
end Chip8
