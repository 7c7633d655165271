import Chip8.Numeral.Integer

/-!
# Decimal fractions

A fraction has digits, a point among or around them, and a power of ten after `e`; signed infinities
and not-a-number are written by name. Blanks, signs, underscores and the digits of every script are
taken as in integers.
-/

namespace Chip8
namespace Numeral

open Text

/-- The number that a text writes, before it is rounded to a double. -/
inductive Decimal
  | finite (negative : Bool) (digits : Nat) (exponent : Int)
  | infinite (negative : Bool)
  | notANumber
  deriving DecidableEq

namespace Decimal

/-- The double nearest to a decimal, ties to even. -/
def toFloat : Decimal → Float
  | finite negative digits exponent =>
    let magnitude := Float.ofScientific digits (exponent < 0) exponent.natAbs
    if negative then -magnitude else magnitude
  | infinite negative => if negative then -1.0 / 0.0 else 1.0 / 0.0
  | notANumber => 0.0 / 0.0

end Decimal

/-- Whether every underscore of a text, read after a digit or not, stands between two digits. -/
def separatesDigits : Bool → List Char → Bool
  | _, [] => true
  | afterDigit, '_' :: rest =>
    afterDigit && rest.head?.any isAsciiDigit && separatesDigits false rest
  | _, c :: rest => separatesDigits (isAsciiDigit c) rest

def readExponent : List Char → Option Int
  | [] => some 0
  | c :: s =>
    let (negative, ds) := takeSign s
    if (c == 'e' || c == 'E') && !ds.isEmpty && ds.all isAsciiDigit then
      some (if negative then -(ofDigits ds : Int) else ofDigits ds)
    else none

def takeFraction : List Char → List Char × List Char
  | '.' :: s => (s.takeWhile isAsciiDigit, s.dropWhile isAsciiDigit)
  | s => ([], s)

def readDigits (negative : Bool) (s : List Char) : Option Decimal :=
  let whole := s.takeWhile isAsciiDigit
  let (fraction, rest) := takeFraction (s.dropWhile isAsciiDigit)
  if whole.isEmpty && fraction.isEmpty then none
  else (readExponent rest).map fun e =>
    .finite negative (ofDigits (whole ++ fraction)) (e - fraction.length)

def readMagnitude (negative : Bool) (s : List Char) : Option Decimal :=
  let name := String.ofList (s.map Char.toLower)
  if name == "inf" || name == "infinity" then some (.infinite negative)
  else if name == "nan" then some .notANumber
  else readDigits negative s

def readDecimal (text : String) : Option Decimal :=
  let s := toAscii text.toList
  if separatesDigits false s then
    let (negative, rest) := takeSign (strip isAsciiBlank (s.filter (· != '_')))
    readMagnitude negative rest
  else none

end Numeral
end Chip8
