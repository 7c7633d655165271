/-!
# The log

Lines have one of three levels. A log that keeps the debug lines keeps all of them.
-/

namespace Chip8

namespace Log

inductive Level
  | debug | info | error
  deriving DecidableEq

def Level.name : Level → String
  | .debug => "DEBUG"
  | .info => "INFO"
  | .error => "ERROR"

structure Line where
  level : Level
  message : String
  deriving DecidableEq

def Line.text (l : Line) : String := "[" ++ l.level.name ++ "]:  " ++ l.message

/-- Whether a log takes a line: debug lines only when it is a detailed one. -/
def Line.isKept (detailed : Bool) (l : Line) : Bool := detailed || l.level != .debug

end Log
end Chip8
