import Chip8.CommandLine
import Chip8.Launch

/-!
# The program

Plays a program without a window: the log goes to standard output, notices go to standard error, and
each line of standard input names the keys that are held during one tick. Where the arguments name
no program, the first line is its path.
-/

namespace Chip8
namespace Main

partial def readLines (input : IO.FS.Stream) : IO (List String) := do
  let line ← input.getLine
  if line.isEmpty then return []
  return String.ofList (line.toList.filter (· != '\n')) :: (← readLines input)

def fileError : IO.Error → FileError
  | .noFileOrDirectory _ _ _ => .missing
  | .inappropriateType _ 21 _ => .directory
  | .inappropriateType _ 20 _ => .notDirectory
  | e => .other e.toString

/-- A desk at which only the file at one path can be read. -/
def deskFor (path : Option Path) (picks : List (Option String)) : IO Desk := do
  match path with
  | none => return ⟨fun _ => .error .missing, picks⟩
  | some p =>
    let result : Except FileError (List UInt8) ←
      try
        let bytes ← IO.FS.readBinFile p.toString
        pure (.ok bytes.toList)
      catch e => pure (.error (fileError e))
    return ⟨fun q => if q = p then result else .error .missing, picks⟩

def perform (detailed : Bool) : Effect → IO Unit
  | .log l => if l.isKept detailed then IO.println l.text else pure ()
  | .request (.notify text title) => IO.eprintln (title ++ ": " ++ text)
  | .request _ => pure ()

def play (c : Config) : IO UInt32 := do
  let lines ← readLines (← IO.getStdin)
  let pick := c.program.isNone
  let path := if pick then lines.head?.filter (· ≠ "") else c.program
  let desk ← deskFor (path.map .ofString) (if pick then [path] else [])
  let noise := Noise.ofSeed (UInt64.ofNat (← IO.rand 0 0xffffffffffffffff))
  let script := Keyboard.batches "" (if pick then lines.tail else lines)
  let result := Launch.launch c noise desk script
  result.effects.forM (perform c.debug)
  match result.ending with
  | .exit status => return UInt32.ofNat status
  | .failed why =>
    IO.eprintln why.message
    return 1

end Main
end Chip8

open Chip8 in
def main (arguments : List String) : IO UInt32 := do
  match CommandLine.parse arguments with
  | .error .help =>
    IO.print CommandLine.helpText
    return 0
  | .error (.wrong e) =>
    IO.eprint CommandLine.usageText
    IO.eprintln ("chipvm: error: " ++ e.message)
    return 2
  | .error (.blank b) =>
    IO.eprintln b.message
    return 1
  | .ok c => Main.play c
