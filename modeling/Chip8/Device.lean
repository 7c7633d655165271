import Chip8.Color
import Chip8.Log
import Chip8.Outcome

/-!
# Devices

What a session asks of the world outside: the mixer, the window, the clock and the dialogs. Whatever
is asked is taken to be done. An act is what was asked and logged, in order, together with the
outcome.
-/

namespace Chip8

structure Square where
  x : Int
  y : Int
  side : Int
  deriving DecidableEq

/-- A request to a device. Sounds are numbered from one, in the order in which they are made. Sizes
and places in the window are unknown where no scale was given, as the sample rate is where none was
given. -/
inductive Request
  | start
  | quit
  | openMixer (sampleRate : Option Int)
  | addSound (number : Nat) (samples : List Int)
  | playForever (number : Nat)
  | stopSound (number : Nat)
  | retitle (title : String)
  | openWindow (size : Option (Int × Int))
  | makeSurface (width height : Nat)
  | fill (color : Rgb UInt8)
  | present
  /-- The picture, column by column. -/
  | paint (cells : List (Rgb UInt8))
  | enlarge (size : Option (Int × Int))
  | outline (color : Rgb UInt8) (square : Option Square)
  | awaitTick
  | notify (text title : String)
  | pickProgram
  deriving DecidableEq

inductive Effect
  | request (r : Request)
  | log (l : Log.Line)
  deriving DecidableEq

namespace Effect

def debug (message : String) : Effect := log ⟨.debug, message⟩

def info (message : String) : Effect := log ⟨.info, message⟩

def error (message : String) : Effect := log ⟨.error, message⟩

def requests (effects : List Effect) : List Request :=
  effects.filterMap fun
    | request r => some r
    | log _ => none

def lines (effects : List Effect) : List Log.Line :=
  effects.filterMap fun
    | request _ => none
    | log l => some l

@[simp] theorem requests_append (a b : List Effect) :
    requests (a ++ b) = requests a ++ requests b :=
  List.filterMap_append

@[simp] theorem lines_append (a b : List Effect) : lines (a ++ b) = lines a ++ lines b :=
  List.filterMap_append

end Effect

/-- What an activity asked and logged, and its outcome. -/
structure Act (σ : Type) where
  effects : List Effect
  outcome : Outcome σ

namespace Act

variable {σ : Type}

def idle (s : σ) : Act σ := ⟨[], .done s⟩

/-- The activity that never stops short. -/
def ofPair (p : σ × List Effect) : Act σ := ⟨p.2, .done p.1⟩

/-- Goes on with the state reached, unless the activity stopped short. -/
def andThen (a : Act σ) (f : σ → Act σ) : Act σ :=
  match a.outcome with
  | .done s => let b := f s; ⟨a.effects ++ b.effects, b.outcome⟩
  | .failed why s => ⟨a.effects, .failed why s⟩

def state (a : Act σ) : σ := a.outcome.state

@[simp] theorem outcome_idle (s : σ) : (idle s).outcome = .done s := rfl

@[simp] theorem effects_ofPair (p : σ × List Effect) : (ofPair p).effects = p.2 := rfl

@[simp] theorem outcome_ofPair (p : σ × List Effect) : (ofPair p).outcome = .done p.1 := rfl

theorem outcome_andThen (a : Act σ) (f : σ → Act σ) :
    (a.andThen f).outcome = a.outcome.andThen fun s => (f s).outcome := by
  unfold andThen
  cases a.outcome <;> rfl

end Act
end Chip8
