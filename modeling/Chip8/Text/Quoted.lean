import Chip8.Hexadecimal
import Chip8.Text.Printable

/-!
# Quoted text

A text is shown between quotation marks, with escapes for what cannot be printed. Apostrophes are
the marks unless the text holds one and no double quote; the mark in use and the backslash are
escaped inside the text.
-/

namespace Chip8
namespace Text

def quoteMark (s : List Char) : Char :=
  if s.contains '\'' && !s.contains '"' then '"' else '\''

/-- The escape of a character by its code point, in two, four or eight digits. -/
def escapeCode (n : Nat) : String :=
  if n < 0x100 then "\\x" ++ Hexadecimal.fill 2 (Hexadecimal.digits n)
  else if n < 0x10000 then "\\u" ++ Hexadecimal.fill 4 (Hexadecimal.digits n)
  else "\\U" ++ Hexadecimal.fill 8 (Hexadecimal.digits n)

def escape (mark c : Char) : String :=
  if c == mark || c == '\\' then String.ofList ['\\', c]
  else if c == '\n' then "\\n"
  else if c == '\r' then "\\r"
  else if c == '\t' then "\\t"
  else if isPrintable c then String.singleton c
  else escapeCode c.toNat

def quoted (s : String) : String :=
  let mark := quoteMark s.toList
  String.singleton mark ++ String.join (s.toList.map (escape mark)) ++ String.singleton mark

end Text
end Chip8
