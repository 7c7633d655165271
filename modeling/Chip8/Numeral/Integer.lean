import Chip8.Text.Blank
import Chip8.Text.Digit

/-!
# Integers written in decimal

Blanks may surround a numeral, a sign may stand in front of it, and a single underscore may stand
between two digits. Digits of every script count. A numeral of more than 4300 digits is refused.
-/

namespace Chip8
namespace Numeral

open Text

inductive IntegerError
  | malformed
  | tooManyDigits (count : Nat)
  deriving DecidableEq

/-- The most digits that are read. -/
def maxDigits : Nat := 4300

/-- The ASCII form of a numeral: blanks become spaces, digits their ASCII twins and any other
foreign character a question mark, which no numeral holds. A text in ASCII stays as it is, so its
blanks are only those of `isAsciiBlank`. -/
def toAscii (s : List Char) : List Char :=
  if s.all (·.toNat < 128) then s else
    s.map fun c =>
      if c.toNat < 127 then c
      else if isBlank c then ' '
      else match digitValue? c with
        | some d => Nat.digitChar d
        | none => '?'

theorem toAscii_of_ascii {s : List Char} (h : ∀ c ∈ s, c.toNat < 128) : toAscii s = s := by
  simp only [toAscii, List.all_eq_true, decide_eq_true_eq]
  exact if_pos h

def takeSign : List Char → Bool × List Char
  | '-' :: rest => (true, rest)
  | '+' :: rest => (false, rest)
  | s => (false, s)

def isDigitOrSeparator (c : Char) : Bool := isAsciiDigit c || c == '_'

/-- Whether a block of digits and underscores, read after a digit or not, ends in a digit and has a
digit before each underscore. -/
def endsOnDigit : Bool → List Char → Bool
  | afterDigit, [] => afterDigit
  | afterDigit, '_' :: rest => afterDigit && endsOnDigit false rest
  | _, _ :: rest => endsOnDigit true rest

def ofDigits (ds : List Char) : Nat :=
  ds.foldl (fun n d => 10 * n + asciiDigitValue d) 0

def readInteger (text : String) : Except IntegerError Int :=
  let (negative, s) := takeSign ((toAscii text.toList).dropWhile isAsciiBlank)
  let block := s.takeWhile isDigitOrSeparator
  let digits := block.filter isAsciiDigit
  if !endsOnDigit false block then .error .malformed
  else if maxDigits < digits.length then .error (.tooManyDigits digits.length)
  else if !(s.dropWhile isDigitOrSeparator).all isAsciiBlank then .error .malformed
  else .ok (if negative then -(ofDigits digits : Int) else ofDigits digits)

end Numeral
end Chip8
