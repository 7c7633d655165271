import Chip8.Color
import Chip8.Numeral.Decimal
import Chip8.Text.Quoted

/-!
# Values on the command line

Numbers that have to be positive, and colors. A text that is no number at all is told apart from a
value that is out of range.
-/

namespace Chip8
namespace CommandLine

inductive ValueError
  | notInteger (text : String) (why : Numeral.IntegerError)
  | notPositive (text : String)
  | notColor (text : String)
  deriving DecidableEq

namespace ValueError

/-- The most characters of a quoted text that are shown of a malformed numeral. -/
abbrev shownLength : Nat := 200

def message : ValueError → String
  | notInteger text .malformed =>
    "invalid literal for int() with base 10: " ++
      String.ofList ((Text.quoted text).toList.take shownLength)
  | notInteger _ (.tooManyDigits count) =>
    s!"Exceeds the limit ({Numeral.maxDigits} digits) for integer string conversion: " ++
      s!"value has {count} digits; use sys.set_int_max_str_digits() to increase the limit"
  | notPositive text => "'" ++ text ++ "' must be greater than 0."
  | notColor text => "'" ++ text ++ "' is not an RRGGBB or RRGGBBAA color."

end ValueError

def readInteger (text : String) : Except ValueError Int :=
  (Numeral.readInteger text).mapError (.notInteger text)

def readPositive (text : String) : Except ValueError Int :=
  match readInteger text with
  | .ok n => if 0 < n then .ok n else .error (.notPositive text)
  | .error why => .error why

def readColor (text : String) : Except ValueError Int :=
  match Color.read? text with
  | some color => .ok color
  | none => .error (.notColor text)

end CommandLine
end Chip8
