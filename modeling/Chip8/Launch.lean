import Chip8.CommandLine
import Chip8.Session

/-!
# Launching

From the options to a running session: the program is read or picked, then the mixer, the window and
the session are set up. Where no program can be had, no device but the dialogs is touched.
-/

namespace Chip8

namespace Session

def ofMachine {w h : Nat} (c : Config) (m : Machine w h) (noise : Noise) (desk : Desk)
    (program : List UInt8) (tone : Tone) (display : Display w h) : Session w h :=
  { console := ⟨m, noise, c.tall⟩
    display := display
    tone := tone
    desk := desk
    program := program
    mode := .running
    budget := c.budget }

def start (w h : Nat) (c : Config) (program : List UInt8) (noise : Noise) (desk : Desk) :
    Except Failure (Session w h × List Effect) := do
  let m ← Machine.create w h c.variant program
  let tone ← Tone.ofConfig c
  let display ← Display.ofConfig w h c
  return (ofMachine c m noise desk program tone.1 display.1,
    .debug (Trace.loaded program) :: tone.2 ++ display.2)

end Session

namespace Launch

structure Result where
  effects : List Effect
  ending : Session.Ending

def Result.after (effects : List Effect) (r : Result) : Result :=
  { r with effects := effects ++ r.effects }

def loadedLine (c : Config) (p : Path) : Effect :=
  let name := p.toString
  let variant := c.variant.name
  .info s!"Loaded game {name} in {variant} mode."

/-- A program that cannot be had: the reason is logged, and shown if the program had been picked. -/
def refuse (picked : Bool) (why : Failure) : Result :=
  ⟨.error why.message ::
      if picked then [.request (.notify why.message "Game Not Loaded")] else [],
    .exit 1⟩

/-- A session of a machine played to its end. Once the devices have been started they are left
however it ends. -/
def play {w h : Nat} (c : Config) (p : Path) (program : List UInt8) (m : Machine w h)
    (noise : Noise) (desk : Desk) (script : List (List Event)) : Result :=
  match Tone.ofConfig c with
  | .error why => ⟨[.request (.openMixer c.sampleRate)], .failed why⟩
  | .ok tone =>
    match Display.ofConfig w h c with
    | .error why => ⟨tone.2 ++ [.request .start, .request .quit], .failed why⟩
    | .ok display =>
      let run := (Session.ofMachine c m noise desk program tone.1 display.1).run script
      ⟨tone.2 ++ .request .start :: display.2 ++ Display.retitle p.stem ++ run.effects ++
          [.request .quit],
        run.ending⟩

def openProgram (c : Config) (picked : Bool) (p : Path) (noise : Noise) (desk : Desk)
    (script : List (List Event)) : Result :=
  let result : Result :=
    match desk.readProgram p with
    | .error (.programUnreadable path why) => refuse picked (.programUnreadable path why)
    | .error why => ⟨[], .failed why⟩
    | .ok program =>
      match Machine.create c.width.toNat c.height.toNat c.variant program with
      | .error why => refuse picked why
      | .ok m =>
        (play c p program m noise desk script).after
          [.debug (Trace.loaded program), loadedLine c p]
  result.after [loadingLine p]

/-- A session from its options to its end. Where they name no program, one is picked. -/
def launch (c : Config) (noise : Noise) (desk : Desk) (script : List (List Event)) : Result :=
  match c.program with
  | some text => openProgram c false (.ofString text) noise desk script
  | none =>
    let result : Result :=
      match desk.pick? with
      | some p => openProgram c true p noise desk.afterPick script
      | none => ⟨[.request (.notify "Pick a game to play!" "No Game Selected")], .exit 1⟩
    result.after [.request .pickProgram]

def ofArguments (arguments : List String) (noise : Noise) (desk : Desk)
    (script : List (List Event)) : Except CommandLine.Exit (Config × Result) :=
  (CommandLine.parse arguments).map fun c => (c, launch c noise desk script)

end Launch
end Chip8
