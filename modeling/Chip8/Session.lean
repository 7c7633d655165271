import Chip8.Console
import Chip8.Display
import Chip8.Keyboard
import Chip8.Path
import Chip8.Tone

/-!
# Sessions

A session connects a console to the window, the speaker and the keyboard. It runs tick by tick: the
events that have come in are handled, then a budget of instructions is executed, the timers run
down, and the tone and the picture follow. A session that has been told to quit does so once the
events at hand are handled, unless one of them makes it open another program.
-/

namespace Chip8

inductive Mode
  | running | paused | quit
  deriving DecidableEq

/-- What the player has at hand: the files that a path may lead to, and the answers that the picker
has still to give. -/
structure Desk where
  read : Path → Except FileError (List UInt8)
  picks : List (Option String)

namespace Desk

/-- The bytes of the program at a path. A path with a NUL in it is refused before a file is looked
for. -/
def readProgram (d : Desk) (p : Path) : Except Failure (List UInt8) :=
  if p.toString.contains '\x00' then .error .nulInPath
  else (d.read p).mapError (.programUnreadable p.toString)

def pick? (d : Desk) : Option Path :=
  match d.picks.head?.join with
  | some text => if text = "" then none else some (.ofString text)
  | none => none

def afterPick (d : Desk) : Desk := { d with picks := d.picks.tail }

end Desk

structure Session (w h : Nat) where
  console : Console w h
  display : Display w h
  tone : Tone
  desk : Desk
  /-- The program that a reset starts again. -/
  program : List UInt8
  mode : Mode
  /-- The instructions executed in a tick, if known. -/
  budget : Option Nat

def loadingLine (p : Path) : Effect :=
  let name := p.toString
  .debug s!"Loading game at path {name}."

namespace Session

variable {w h : Nat}

def machine (s : Session w h) : Machine w h := s.console.machine

def withMachine (s : Session w h) (m : Machine w h) : Session w h :=
  { s with console := { s.console with machine := m } }

def setTone (s : Session w h) (active : Bool) : Session w h × List Effect :=
  let tone := s.tone.update active
  ({ s with tone := tone.1 }, tone.2)

def clearDisplay (s : Session w h) : Session w h × List Effect :=
  let display := s.display.clear
  ({ s with display := display.1 }, display.2)

def reset (s : Session w h) : Act (Session w h) :=
  match s.machine.reset s.program with
  | .failed why m => ⟨[], .failed why (s.withMachine m)⟩
  | .done m =>
    let silent := (s.withMachine m).setTone false
    let cleared := silent.1.clearDisplay
    ⟨.debug (Trace.loaded s.program) :: silent.2 ++ cleared.2 ++ [.info "Machine reset."],
      .done cleared.1⟩

def refusal (why : Failure) : List Effect :=
  [.error why.message, .request (.notify why.message "Game Not Loaded")]

/-- A program that was read put in the place of the current one, if it fits. -/
def replaceProgram (s : Session w h) (p : Path) (program : List UInt8) : Act (Session w h) :=
  match s.machine.reset program with
  | .failed why m => ⟨refusal why, .done (s.withMachine m)⟩
  | .done m =>
    let cleared := { s.withMachine m with program := program, mode := .running }.clearDisplay
    let name := p.toString
    ⟨.debug (Trace.loaded program) :: cleared.2 ++ Display.retitle p.stem ++
        [.info s!"Loaded game {name}."],
      .done cleared.1⟩

def loadPath (s : Session w h) (p : Path) : Act (Session w h) :=
  let result : Act (Session w h) :=
    match s.desk.readProgram p with
    | .ok program => s.replaceProgram p program
    | .error (.programUnreadable path why) => ⟨refusal (.programUnreadable path why), .done s⟩
    | .error why => ⟨[], .failed why s⟩
  ⟨loadingLine p :: result.effects, result.outcome⟩

/-- The player asked for another program, with the tone silenced meanwhile. The current one stays if
none is picked or the picked one cannot be had. -/
def changeProgram (s : Session w h) : Act (Session w h) :=
  let silent := s.setTone false
  let picked := { silent.1 with desk := s.desk.afterPick }
  let result : Act (Session w h) :=
    match s.desk.pick? with
    | some p => picked.loadPath p
    | none =>
      ⟨[.request (.notify "Pick a game to play!  Press the L key to re-open the game picker."
          "No Game Selected")],
        .done picked⟩
  ⟨silent.2 ++ .request .pickProgram :: result.effects, result.outcome⟩

def pauseOrResume (s : Session w h) : Session w h × List Effect :=
  match s.mode with
  | .running =>
    let silent := { s with mode := .paused }.setTone false
    (silent.1, silent.2 ++ [.info "======= PAUSED ======="])
  | .paused => ({ s with mode := .running }, [.info "Resumed."])
  | .quit => (s, [])

abbrev volumePerPress : Int := 500

def adjustVolume (s : Session w h) (delta : Int) : Session w h × List Effect :=
  let tone := s.tone.adjustVolume delta
  ({ s with tone := tone.1 }, tone.2)

def adjustRate (s : Session w h) (delta : Float) : Session w h × List Effect :=
  let display := s.display.adjustRate delta
  ({ s with display := display.1 }, display.2)

def hotkey (s : Session w h) : Keyboard.Hotkey → Act (Session w h)
  | .quit => .idle { s with mode := .quit }
  | .pause => .ofPair s.pauseOrResume
  | .reset => s.reset
  | .load => s.changeProgram
  | .fade faster => .ofPair (s.adjustRate (if faster then 0.1 else -0.1))
  | .volume louder => .ofPair (s.adjustVolume (if louder then volumePerPress else -volumePerPress))

/-- A key of the keypad pressed or released, if the key stands for one. -/
def keypad (s : Session w h) (down : Bool) (code : Int) : Act (Session w h) :=
  match Keyboard.keypadKey? code with
  | some k => ⟨[.debug (Trace.pressed k down)], .done (s.withMachine (s.machine.latch k down))⟩
  | none => .idle s

/-- One event handled. A key that goes down may be a hotkey and a key of the keypad as well; the key
that quits is not looked at further. -/
def handle (s : Session w h) : Event → Act (Session w h)
  | .quit => .idle { s with mode := .quit }
  | .other => .idle s
  | .key false code _ => s.keypad false code
  | .key true code modifiers =>
    match Keyboard.hotkey? code modifiers with
    | none => s.keypad true code
    | some .quit => s.hotkey .quit
    | some key => (s.hotkey key).andThen (·.keypad true code)

def handleAll (s : Session w h) : List Event → Act (Session w h)
  | [] => .idle s
  | e :: events => (s.handle e).andThen (·.handleAll events)

def instruction (s : Session w h) : Act (Session w h) :=
  ⟨s.console.stepTrace.map .debug, s.console.step.map fun c => { s with console := c }⟩

def instructions (s : Session w h) : Nat → Act (Session w h)
  | 0 => .idle s
  | n + 1 => s.instruction.andThen (·.instructions n)

def timers (s : Session w h) : Session w h × List Effect :=
  let decayed := s.withMachine s.machine.decay
  decayed.setTone decayed.machine.sounding

/-- The picture shown, if it has changed or still fades. -/
def refresh (s : Session w h) : Session w h × List Effect :=
  if s.machine.redraw || s.display.fading then
    let drawn := s.display.draw s.machine.screen
    ({ s with display := drawn.1 }.withMachine { s.machine with redraw := false }, drawn.2)
  else (s, [])

/-- The part of a running tick that moves the machine: its instructions, then the timers. -/
def play (s : Session w h) : Act (Session w h) :=
  match s.budget with
  | some n => (s.instructions n).andThen fun s => .ofPair s.timers
  | none => ⟨[], .failed (.blank .speed) s⟩

def tick (s : Session w h) : Act (Session w h) :=
  let played := if s.mode = .running then s.play else .idle s
  played.andThen fun s => .ofPair s.refresh

/-- How a run ended: with an exit status, or with a failure that nobody handled. -/
inductive Ending
  | exit (status : Nat)
  | failed (why : Failure)
  deriving DecidableEq

structure Run (w h : Nat) where
  effects : List Effect
  session : Session w h
  ending : Ending

def Run.after (effects : List Effect) (r : Run w h) : Run w h :=
  { r with effects := effects ++ r.effects }

/-- The ticks of a run, each after the events that came in before it, until a tick or the handling
of events ends it. When the script is at its end the player quits. -/
def loop (s : Session w h) : List (List Event) → Run w h
  | [] =>
    let quitting := s.handle .quit
    ⟨quitting.effects, quitting.state, .exit 0⟩
  | events :: script =>
    let handled := s.handleAll events
    match handled.outcome with
    | .failed why s => ⟨handled.effects, s, .failed why⟩
    | .done s =>
      if s.mode = .quit then ⟨handled.effects, s, .exit 0⟩
      else
        let ticked := s.tick
        let effects := handled.effects ++ ticked.effects
        match ticked.outcome with
        | .failed (.fault f) s =>
          let text := f.report.text
          ⟨effects ++ [.error s!"Machine fault, stopping: {text}"], s, .exit 1⟩
        | .failed why s => ⟨effects, s, .failed why⟩
        | .done s => (s.loop script).after (effects ++ [.request .awaitTick])

/-- A run, after which the tone is silent however it ended. -/
def run (s : Session w h) (script : List (List Event)) : Run w h :=
  let r := s.loop script
  let silent := r.session.setTone false
  ⟨r.effects ++ silent.2, silent.1, r.ending⟩

end Session
end Chip8
