import Chip8.Text.Digit

/-!
# Arguments told apart

An argument is a plain word, a switch, possibly with a value attached to it, or a stray word that
looks like a switch and is none. A switch may be shortened as long as only one name starts that way.
After the separator `--` every argument is a plain word.
-/

namespace Chip8
namespace CommandLine

inductive Switch
  | help
  | variant
  | scale
  | foreground
  | background
  | noOutlines
  | speed
  | tone
  | sampleRate
  | volume
  | fade
  | tall
  | debug
  deriving DecidableEq

namespace Switch

def names : List (String × Switch) :=
  [("-h", help), ("--help", help), ("--quirks", variant), ("--scale", scale),
   ("--foreground", foreground), ("--background", background), ("--no-outlines", noOutlines),
   ("--ips", speed), ("--tone", tone), ("--sample-rate", sampleRate), ("--volume", volume),
   ("--lerp", fade), ("--tall-sprites", tall), ("--debug", debug)]

def ofName? (name : String) : Option Switch :=
  (names.find? fun entry => entry.1 == name).map Prod.snd

def label (s : Switch) : String :=
  String.intercalate "/" ((names.filter fun entry => entry.2 == s).map Prod.fst)

def takesValue : Switch → Bool
  | help | noOutlines | tall | debug => false
  | _ => true

end Switch

inductive Token
  | word (text : String)
  | separator
  | switch (s : Switch) (short : Bool) (attached : Option String)
  | stray (text : String)
  deriving DecidableEq

structure Ambiguity where
  text : String
  candidates : List String
  deriving DecidableEq

namespace Token

/-- A text up to its first equals sign, and what follows the sign. -/
def cut : List Char → List Char × Option (List Char)
  | [] => ([], none)
  | '=' :: rest => ([], some rest)
  | c :: rest => let (name, value) := cut rest; (c :: name, value)

/-- Digits, or a point with digits behind it and perhaps in front of it; a line feed may follow. -/
def isUnsignedNumber (s : List Char) : Bool :=
  let digit (c : Char) : Bool := (Text.digitValue? c).isSome
  let stop : List Char → Bool := fun rest => rest == [] || rest == ['\n']
  let whole := s.takeWhile digit
  match s.dropWhile digit with
  | '.' :: rest => !(rest.takeWhile digit).isEmpty && stop (rest.dropWhile digit)
  | rest => !whole.isEmpty && stop rest

/-- Whether a text that starts with a dash is a word all the same: a negative number, or a text with
a space in it. -/
def isWordWithDash (s : List Char) : Bool := isUnsignedNumber s.tail || s.contains ' '

def isLong (s : List Char) : Bool := ['-', '-'].isPrefixOf s

/-- The names that a text may be short for, with the value attached to it. A name with one dash is
written in full, and its value follows at once. -/
def readings (s : List Char) : List (String × Token) :=
  if isLong s then
    let (start, attached) := cut s
    (Switch.names.filter fun entry => start.isPrefixOf entry.1.toList).map fun entry =>
      (entry.1,
        .switch entry.2 (!isLong entry.1.toList) (attached.map String.ofList))
  else
    (Switch.names.filter fun entry => entry.1.toList == s.take 2).map fun entry =>
      (entry.1, .switch entry.2 true (some (String.ofList (s.drop 2))))

def ofShortened (s : List Char) : Except Ambiguity Token :=
  match readings s with
  | [] => .ok (if isWordWithDash s then .word (String.ofList s) else .stray (String.ofList s))
  | [reading] => .ok reading.2
  | several => .error ⟨String.ofList s, several.map Prod.fst⟩

def ofDashed (s : List Char) : Except Ambiguity Token :=
  match cut s with
  | (start, some value) =>
    match Switch.ofName? (String.ofList start) with
    | some found => .ok (.switch found (!isLong start) (some (String.ofList value)))
    | none => ofShortened s
  | (_, none) => ofShortened s

def ofString (text : String) : Except Ambiguity Token :=
  match text.toList with
  | '-' :: rest =>
    match Switch.ofName? text with
    | some found => .ok (.switch found (!isLong ('-' :: rest)) none)
    | none => if rest.isEmpty then .ok (.word text) else ofDashed ('-' :: rest)
  | _ => .ok (.word text)

/-- What each argument is. -/
def ofArguments : List String → Except Ambiguity (List Token)
  | [] => .ok []
  | "--" :: rest => .ok (.separator :: rest.map .word)
  | text :: rest => do
    let token ← ofString text
    let tokens ← ofArguments rest
    return token :: tokens

theorem ofArguments_cons {text : String} (h : text ≠ "--") (rest : List String) :
    ofArguments (text :: rest) =
      (ofString text).bind fun token => (ofArguments rest).bind fun tokens =>
        .ok (token :: tokens) := by
  rw [ofArguments]
  · rfl
  · exact h

end Token
end CommandLine
end Chip8
