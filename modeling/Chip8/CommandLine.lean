import Chip8.CommandLine.Token
import Chip8.CommandLine.Value
import Chip8.Config
import Chip8.Failure
import Chip8.Path

/-!
# The command line

The arguments choose the program and the options of a session. Switches and the name of the program
may come in any order; of two values for one switch the later one counts.
-/

namespace Chip8
namespace CommandLine

inductive UsageError
  | ambiguous (a : Ambiguity)
  | missingValue (s : Switch)
  | needlessValue (s : Switch) (text : String)
  | notAChoice (s : Switch) (text : String)
  | malformed (s : Switch) (needed text : String)
  | refused (s : Switch) (why : ValueError)
  | unrecognized (texts : List String)
  deriving DecidableEq

namespace UsageError

def message : UsageError → String
  | ambiguous a =>
    "ambiguous option: " ++ a.text ++ " could match " ++ String.intercalate ", " a.candidates
  | missingValue s => "argument " ++ s.label ++ ": expected one argument"
  | needlessValue s text =>
    "argument " ++ s.label ++ ": ignored explicit argument " ++ Text.quoted text
  | notAChoice s text =>
    "argument " ++ s.label ++ ": invalid choice: " ++ Text.quoted text ++ " (choose from " ++
      String.intercalate ", " (Variant.all.map fun v => Text.quoted v.name) ++ ")"
  | malformed s needed text =>
    "argument " ++ s.label ++ ": invalid " ++ needed ++ " value: " ++ Text.quoted text
  | refused s why => "argument " ++ s.label ++ ": " ++ why.message
  | unrecognized texts => "unrecognized arguments: " ++ String.intercalate " " texts

end UsageError

/-- Why there is no session to start: the help was asked for, the arguments are wrong, or a value
that every session needs was left blank. -/
inductive Exit
  | help
  | wrong (e : UsageError)
  | blank (b : Blank)
  deriving DecidableEq

/-- A value for a switch, read by `read`. A text that is no number at all is reported as such,
without the reader's own words. -/
def valueFor (s : Switch) (needed : String) (read : String → Except ValueError Int)
    (text : String) : Except UsageError Int :=
  match read text with
  | .ok n => .ok n
  | .error (.notInteger _ _) => .error (.malformed s needed text)
  | .error why => .error (.refused s why)

def setValue (c : Config) (s : Switch) (text : String) : Except UsageError Config :=
  let positive := valueFor s "positive_int" readPositive text
  let color := valueFor s "parse_color" readColor text
  match s with
  | .variant =>
    match Variant.ofName? text with
    | some v => .ok { c with variant := v }
    | none => .error (.notAChoice s text)
  | .scale => positive.map fun n => { c with scale := some n }
  | .foreground => color.map fun n => { c with foreground := some n }
  | .background => color.map fun n => { c with background := some n }
  | .speed => positive.map fun n => { c with speed := some n }
  | .tone => positive.map fun n => { c with frequency := some n }
  | .sampleRate => positive.map fun n => { c with sampleRate := some n }
  | .volume => (valueFor s "int" readInteger text).map fun n => { c with volume := n }
  | .fade =>
    match Numeral.readDecimal text with
    | some d => .ok { c with fadeRate := d.toFloat }
    | none => .error (.malformed s "float" text)
  | .help | .noOutlines | .tall | .debug => .ok c

def setFlag (c : Config) : Switch → Config
  | .noOutlines => { c with outlines := false }
  | .tall => { c with tall := true }
  | .debug => { c with debug := true }
  | _ => c

def dropValue (c : Config) : Switch → Config
  | .scale => { c with scale := none }
  | .foreground => { c with foreground := none }
  | .background => { c with background := none }
  | .speed => { c with speed := none }
  | .tone => { c with frequency := none }
  | .sampleRate => { c with sampleRate := none }
  | _ => c

def indispensable : List (Switch × Blank) :=
  [(.variant, .variant), (.volume, .volume), (.fade, .fadeRate)]

/-- Whether a word may still name the program. A word that has just done so takes a separator right
behind it along. -/
inductive Slot
  | free | filling | taken
  deriving DecidableEq

structure Reading where
  config : Config := {}
  /-- The switches whose value was given as a bare separator, which stands for none. -/
  blank : List Switch := []
  slot : Slot := .free
  /-- The switch whose value comes next. -/
  awaiting : Option Switch := none
  extra : List String := []

namespace Reading

def settle (r : Reading) : Reading :=
  { r with slot := if r.slot = .free then .free else .taken }

def word (r : Reading) (text : String) : Reading :=
  if r.slot = .free then
    { r with
      config := { r.config with program := some (Path.ofString text).toString }
      slot := .filling }
  else { r with slot := .taken, extra := r.extra ++ [text] }

def separator (r : Reading) : Reading :=
  match r.slot with
  | .free => r
  | .filling => { r with slot := .taken }
  | .taken => { r with extra := r.extra ++ ["--"] }

def value (r : Reading) (s : Switch) (text : String) : Except Exit Reading :=
  if text = "--" then .ok { r.settle with blank := s :: r.blank }
  else
    match setValue r.config s text with
    | .ok c => .ok { r.settle with config := c, blank := r.blank.filter (· ≠ s) }
    | .error e => .error (.wrong e)

end Reading

/-- What comes of a short help switch with letters attached to it: each may be another one. -/
def shortHelp : List Char → Exit
  | ['h'] => .help
  | 'h' :: rest => shortHelp rest
  | text => .wrong (.needlessValue .help (String.ofList text))

def Reading.flag (r : Reading) (s : Switch) (short : Bool) : Option String → Except Exit Reading
  | some text =>
    if short then .error (shortHelp text.toList) else .error (.wrong (.needlessValue s text))
  | none => if s = .help then .error .help else .ok { r.settle with config := setFlag r.config s }

def Reading.token (r : Reading) : Token → Except Exit Reading
  | .word text =>
    match r.awaiting with
    | some s => { r with awaiting := none }.value s text
    | none => .ok (r.word text)
  | t =>
    match r.awaiting with
    | some s => .error (.wrong (.missingValue s))
    | none =>
      match t with
      | .separator => .ok r.separator
      | .stray text => .ok { r.settle with extra := r.extra ++ [text] }
      | .switch s short attached =>
        if s.takesValue then
          match attached with
          | some text => r.value s text
          | none => .ok { r.settle with awaiting := some s }
        else r.flag s short attached
      | .word text => .ok (r.word text)

def scan (tokens : List Token) : Except Exit Reading := tokens.foldlM Reading.token {}

/-- The options that were chosen, with volume and fade rate brought into range. Values left blank
are dropped where that is possible. -/
def Reading.options (r : Reading) : Except Exit Config :=
  match indispensable.find? (r.blank.contains ·.1) with
  | some missing => .error (.blank missing.2)
  | none =>
    let c := r.blank.foldl dropValue r.config
    .ok { c with volume := clampVolume c.volume, fadeRate := clampRate c.fadeRate }

def Reading.finish (r : Reading) : Except Exit Config :=
  match r.awaiting with
  | some s => .error (.wrong (.missingValue s))
  | none => if r.extra = [] then r.options else .error (.wrong (.unrecognized r.extra))

/-- The options that some arguments choose. -/
def parse (arguments : List String) : Except Exit Config :=
  match Token.ofArguments arguments with
  | .ok tokens => (scan tokens).bind Reading.finish
  | .error a => .error (.wrong (.ambiguous a))

def usageText : String :=
  String.intercalate "\n"
    ["usage: chipvm [-h] [--quirks \x7bchip8,superchip,xochip\x7d] [--scale SCALE]",
     "              [--foreground FOREGROUND] [--background BACKGROUND]",
     "              [--no-outlines] [--ips IPS] [--tone TONE]",
     "              [--sample-rate SAMPLE_RATE] [--volume VOLUME] [--lerp LERP]",
     "              [--tall-sprites] [--debug]",
     "              [rom]",
     ""]

def helpText : String :=
  usageText ++ String.intercalate "\n"
    ["",
     "CHIP-8 / SUPER-CHIP / XO-CHIP emulator",
     "",
     "positional arguments:",
     "  rom                   Game to load. A file picker is opened if omitted.",
     "",
     "options:",
     "  -h, --help            show this help message and exit",
     "  --quirks \x7bchip8,superchip,xochip\x7d",
     "                        Variant whose quirks to emulate (default: chip8)",
     "  --scale SCALE         Window pixels per CHIP-8 pixel (default: 20)",
     "  --foreground FOREGROUND",
     "                        Color of lit pixels as RRGGBBAA (default: FFFFFFFF)",
     "  --background BACKGROUND",
     "                        Color of unlit pixels as RRGGBBAA (default: 000000FF)",
     "  --no-outlines         Do not outline lit pixels",
     "  --ips IPS             Instructions executed per second (default: 700)",
     "  --tone TONE           Frequency of the beep in Hz (default: 440)",
     "  --sample-rate SAMPLE_RATE",
     "                        Audio sample rate in Hz (default: 44100)",
     "  --volume VOLUME       Beep amplitude, 0-32767 (default: 3000)",
     "  --lerp LERP           Pixel fade rate per frame, 0.1-1.0 (default: 0.7)",
     "  --tall-sprites        Draw 16x16 sprites for DXY0 in xochip mode",
     "  --debug               Log every executed opcode",
     ""]

end CommandLine
end Chip8
