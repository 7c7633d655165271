import Chip8.Console

/-!
# Moves

What happens to a console while one program runs on it: steps, ticks of the timers, and keys pressed
or released, given by their numbers. A move that fails leaves a state behind as well, and the next
one goes on from there. A change of the console that every move on the way carries along is carried
through a whole history.
-/

namespace Chip8

inductive Move
  | step
  | decay
  | press (k : Int) (held : Bool)
  deriving DecidableEq

/-- What holds wherever a list is split at one of its members holds at the first of them and
throughout the rest. -/
theorem forall_split_cons_iff {α : Type} {P : List α → α → List α → Prop} {a : α} {l : List α} :
    (∀ earlier b later, a :: l = earlier ++ b :: later → P earlier b later) ↔
      P [] a l ∧ ∀ earlier b later, l = earlier ++ b :: later → P (a :: earlier) b later := by
  constructor
  · intro hall
    exact ⟨hall [] a l rfl, fun earlier b later hl =>
      hall (a :: earlier) b later (congrArg (a :: ·) hl)⟩
  · rintro ⟨hfirst, hrest⟩ earlier b later hl
    cases earlier with
    | nil =>
      obtain ⟨rfl, rfl⟩ := List.cons.inj hl
      exact hfirst
    | cons _ earlier =>
      obtain ⟨rfl, htail⟩ := List.cons.inj hl
      exact hrest earlier b later htail

theorem forall_split_nil {α : Type} {P : List α → α → List α → Prop} :
    ∀ earlier b later, [] = earlier ++ b :: later → P earlier b later := by
  intro earlier b later hl
  simp at hl

namespace Console

variable {w h : Nat}

def move (c : Console w h) : Move → Outcome (Console w h)
  | .step => c.step
  | .decay => c.onMachine fun m => .done m.decay
  | .press k held => c.onMachine (·.press k held)

def play (c : Console w h) : List Move → Console w h
  | [] => c
  | a :: moves => (c.move a).state.play moves

def history (c : Console w h) : List Move → List (Outcome (Console w h))
  | [] => []
  | a :: moves => c.move a :: (c.move a).state.history moves

theorem play_append (c : Console w h) (earlier later : List Move) :
    c.play (earlier ++ later) = (c.play earlier).play later := by
  induction earlier generalizing c with
  | nil => rfl
  | cons a earlier ih => exact ih (c.move a).state

theorem play_concat (c : Console w h) (earlier : List Move) (a : Move) :
    c.play (earlier ++ [a]) = ((c.play earlier).move a).state :=
  c.play_append earlier [a]

/-- A property that every move keeps is kept by every sequence of moves. -/
theorem play_of_move {P : Console w h → Prop} (hmove : ∀ c a, P c → P (c.move a).state)
    {c : Console w h} (hc : P c) (moves : List Move) : P (c.play moves) := by
  induction moves generalizing c with
  | nil => exact hc
  | cons a moves ih => exact ih (hmove c a hc)

/-- A change of the console that each move on the way carries along goes through a whole history. -/
theorem history_map {f : Console w h → Console w h} {c : Console w h} {moves : List Move}
    (hmove : ∀ earlier a later, moves = earlier ++ a :: later →
      (f (c.play earlier)).move a = ((c.play earlier).move a).map f) :
    (f c).history moves = (c.history moves).map (Outcome.map f) := by
  induction moves generalizing c with
  | nil => rfl
  | cons a moves ih =>
    have hfirst : (f c).move a = (c.move a).map f := hmove [] a moves rfl
    have hrest := ih (c := (c.move a).state) fun earlier b later hmoves =>
      hmove (a :: earlier) b later (congrArg (a :: ·) hmoves)
    simp only [history, List.map_cons, hfirst, Outcome.state_map, hrest]

def mapMachine (g : Machine w h → Machine w h) (c : Console w h) : Console w h :=
  { c with machine := g c.machine }

theorem move_mapMachine {g : Machine w h → Machine w h} {c : Console w h}
    (hdecay : (g c.machine).decay = g c.machine.decay)
    (hlatch : ∀ k held, (g c.machine).latch k held = g (c.machine.latch k held))
    (hfetch : (g c.machine).fetch = c.machine.fetch) {a : Move}
    (hexecute : ∀ word, a = .step → c.machine.fetch = .ok word →
      (g c.machine).execute c.tall c.noise.next word =
        (c.machine.execute c.tall c.noise.next word).map g) :
    (c.mapMachine g).move a = (c.move a).map (mapMachine g) := by
  cases a with
  | step =>
    simp only [move, step, mapMachine, hfetch]
    cases hword : c.machine.fetch with
    | error why => rfl
    | ok word =>
      simp only [execute, hexecute word rfl hword, Outcome.map_map]
      rfl
  | decay =>
    simp only [move, onMachine, mapMachine, hdecay]
    rfl
  | press k held =>
    simp only [move, onMachine, mapMachine, Machine.press]
    cases Key.ofInt k with
    | ok key =>
      simp only [hlatch]
      rfl
    | error why => rfl

end Console
end Chip8
