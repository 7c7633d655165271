import Chip8.Fault
import Chip8.Text.Quoted

/-!
# Failures

Besides the faults of the running program there are the failures of a caller: a key or a screen that
does not exist, a program that cannot be had. `Failure.message` words each of them.
-/

namespace Chip8

abbrev programCapacity : Nat := 3584

/-- The least number that sixty-four bits with a sign do not hold: no cell and no key is looked for
from there on. -/
abbrev wideLimit : Int := 0x8000000000000000

inductive FileError
  | missing | directory | notDirectory | nameTooLong
  | other (text : String)
  deriving DecidableEq

def FileError.text : FileError → String
  | missing => "No such file or directory"
  | directory => "Is a directory"
  | notDirectory => "Not a directory"
  | nameTooLong => "File name too long"
  | other text => text

inductive Blank
  | variant | volume | fadeRate | speed | frequency | sampleRate
  /-- Both the sample rate and the frequency. -/
  | tone
  | color
  deriving DecidableEq

def Blank.message : Blank → String
  | variant => "[] is not a valid QuirksMode"
  | volume => "'>' not supported between instances of 'list' and 'int'"
  | fadeRate => "'>' not supported between instances of 'list' and 'float'"
  | speed | sampleRate =>
    "unsupported operand type(s) for //: 'list' and 'int'"
  | frequency => "unsupported operand type(s) for //: 'int' and 'list'"
  | tone => "unsupported operand type(s) for //: 'list' and 'list'"
  | color => "unsupported operand type(s) for >>: 'list' and 'int'"

inductive Failure
  | fault (f : Fault)
  | shortOpcode
  /-- A byte of memory, or a register, was asked for that is not there. -/
  | byteMissing
  | notByte
  | keyOutside
  /-- A cell or a key was asked for by a number of more than 64 bits. -/
  | indexTooWide
  /-- A sprite was to be drawn on a screen without pixels. -/
  | emptyScreen
  | silentFrequency
  | negativeScreen
  | unknownVariant (name : String)
  | programTooLarge (size : Nat)
  | programUnreadable (path : String) (why : FileError)
  | nulInPath
  | blank (b : Blank)
  deriving DecidableEq

namespace Failure

def message : Failure → String
  | fault f => f.report.text
  | shortOpcode => "index out of range"
  | byteMissing => "bytearray index out of range"
  | notByte => "byte must be in range(0, 256)"
  | keyOutside => "list assignment index out of range"
  | indexTooWide => "cannot fit 'int' into an index-sized integer"
  | emptyScreen => "integer modulo by zero"
  | silentFrequency => "integer division or modulo by zero"
  | negativeScreen => "negative dimensions are not allowed"
  | unknownVariant name => Text.quoted name ++ " is not a valid QuirksMode"
  | programTooLarge size =>
    s!"Game is too big to fit in memory.  Size: {size} bytes, maximum: {programCapacity} bytes."
  | programUnreadable path why => "Game could not be read from " ++ path ++ ": " ++ why.text ++ "."
  | nulInPath => "embedded null byte"
  | blank b => b.message

end Failure

inductive ErrorKind
  | error | program | tooLarge | unreadable | fault | stackFull | stackEmpty | outside
  deriving DecidableEq

def Failure.kind? : Failure → Option ErrorKind
  | fault (.fetchOutside _) | fault (.accessOutside _ _ _ _) => some .outside
  | fault (.stackFull _ _) => some .stackFull
  | fault (.stackEmpty _ _) => some .stackEmpty
  | programTooLarge _ => some .tooLarge
  | programUnreadable _ _ => some .unreadable
  | _ => none

end Chip8
