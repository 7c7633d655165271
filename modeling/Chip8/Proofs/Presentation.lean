import Chip8.Proofs.Pause
import Chip8.Proofs.Stages
import Mathlib.Data.List.Forall2

/-!
# Presentation

The game of a session does not depend on how it is presented. Two sessions that play the same game
still play it behind every batch and every tick, whatever their tones and windows are, and whatever
else comes in from the keyboard that means nothing to the game.
-/

namespace Chip8

namespace Outcome

variable {σ : Type} {R : σ → σ → Prop}

theorem alike_done {s t : σ} (hst : R s t) : Alike R (.done s) (.done t) := ⟨rfl, hst⟩

theorem alike_failed {s t : σ} (why : Failure) (hst : R s t) :
    Alike R (.failed why s) (.failed why t) := ⟨rfl, hst⟩

theorem exists_done_of_alike {s : σ} {o : Outcome σ} (ho : Alike R (.done s) o) :
    ∃ t, o = .done t :=
  exists_done_of_failure? ho.failure_eq

theorem exists_failed_of_alike {why : Failure} {s : σ} {o : Outcome σ}
    (ho : Alike R (.failed why s) o) : ∃ t, o = .failed why t := by
  cases o with
  | done t => exact absurd ho.failure_eq.symm (by simp)
  | failed why' t =>
    obtain rfl := Option.some.inj ho.failure_eq
    exact ⟨t, rfl⟩

theorem alike_symm (hR : ∀ s t, R s t → R t s) {o o' : Outcome σ} (ho : Alike R o o') :
    Alike R o' o := ⟨ho.failure_eq.symm, hR _ _ ho.related⟩

theorem alike_trans (hR : ∀ s t u, R s t → R t u → R s u) {o o' o'' : Outcome σ}
    (ho : Alike R o o') (ho' : Alike R o' o'') : Alike R o o'' :=
  ⟨ho'.failure_eq.trans ho.failure_eq, hR _ _ _ ho.related ho'.related⟩

end Outcome

def Keyboard.Hotkey.plays : Keyboard.Hotkey → Bool
  | .fade _ | .volume _ => false
  | .quit | .pause | .reset | .load => true

/-- Whether an event means something to the game. Those that do not are the keys of the fade and the
volume, keys that stand for nothing, and whatever is neither a key nor the window. -/
def Event.plays : Event → Bool
  | .quit => true
  | .other => false
  | .key down code modifiers =>
    (Keyboard.keypadKey? code).isSome ||
      down && (Keyboard.hotkey? code modifiers).any (·.plays)

namespace Session

variable {w h : Nat}

theorem sameGame_refl (s : Session w h) : SameGame s s := ⟨rfl, rfl, rfl, rfl, rfl⟩

theorem sameGame_symm (s t : Session w h) (hst : SameGame s t) : SameGame t s :=
  ⟨hst.console_eq.symm, hst.desk_eq.symm, hst.program_eq.symm, hst.mode_eq.symm,
    hst.budget_eq.symm⟩

theorem sameGame_trans (s t u : Session w h) (hst : SameGame s t) (htu : SameGame t u) :
    SameGame s u :=
  ⟨htu.console_eq.trans hst.console_eq, htu.desk_eq.trans hst.desk_eq,
    htu.program_eq.trans hst.program_eq, htu.mode_eq.trans hst.mode_eq,
    htu.budget_eq.trans hst.budget_eq⟩

section SameGame

variable {s t : Session w h} (hst : SameGame s t)
include hst

theorem sameGame_renewed (m : Machine w h) : SameGame (s.renewed m) (t.renewed m) where
  console_eq := by simp only [renewed, hst.console_eq]
  desk_eq := hst.desk_eq
  program_eq := hst.program_eq
  mode_eq := hst.mode_eq
  budget_eq := hst.budget_eq

theorem machine_eq_of_sameGame : t.machine = s.machine := by
  rw [machine, machine, hst.console_eq]

theorem sameGame_withMachine (m : Machine w h) : SameGame (s.withMachine m) (t.withMachine m) where
  console_eq := by simp only [withMachine, hst.console_eq]
  desk_eq := hst.desk_eq
  program_eq := hst.program_eq
  mode_eq := hst.mode_eq
  budget_eq := hst.budget_eq

theorem alike_reset : Outcome.Alike SameGame s.reset.outcome t.reset.outcome := by
  have hmachine := machine_eq_of_sameGame hst
  cases hreset : s.machine.reset s.program with
  | done m =>
    have hreset' : t.machine.reset t.program = .done m := by rw [hmachine, hst.program_eq, hreset]
    rw [outcome_reset hreset, outcome_reset hreset']
    exact Outcome.alike_done (sameGame_renewed hst m)
  | failed why m =>
    simp only [reset, hmachine, hst.program_eq, hreset]
    exact Outcome.alike_failed why (sameGame_withMachine hst m)

theorem alike_replaceProgram (p : Path) (program : List UInt8) :
    Outcome.Alike SameGame (s.replaceProgram p program).outcome
      (t.replaceProgram p program).outcome := by
  simp only [replaceProgram, machine_eq_of_sameGame hst]
  cases s.machine.reset program with
  | done m =>
    refine Outcome.alike_done ⟨?_, hst.desk_eq, rfl, rfl, hst.budget_eq⟩
    simp only [clearDisplay, withMachine, hst.console_eq]
  | failed why m => exact Outcome.alike_done (sameGame_withMachine hst m)

theorem alike_loadPath (p : Path) :
    Outcome.Alike SameGame (s.loadPath p).outcome (t.loadPath p).outcome := by
  simp only [loadPath, hst.desk_eq]
  cases s.desk.readProgram p with
  | ok program => exact alike_replaceProgram hst p program
  | error why => cases why <;> exact ⟨rfl, hst⟩

theorem alike_changeProgram :
    Outcome.Alike SameGame s.changeProgram.outcome t.changeProgram.outcome := by
  have hpicked : SameGame { (s.setTone false).1 with desk := s.desk.afterPick }
      { (t.setTone false).1 with desk := t.desk.afterPick } :=
    ⟨hst.console_eq, by rw [hst.desk_eq], hst.program_eq, hst.mode_eq, hst.budget_eq⟩
  simp only [changeProgram, hst.desk_eq] at hpicked ⊢
  cases s.desk.pick? with
  | some p => exact alike_loadPath hpicked p
  | none => exact Outcome.alike_done hpicked

theorem sameGame_pauseOrResume : SameGame s.pauseOrResume.1 t.pauseOrResume.1 := by
  unfold pauseOrResume
  rw [hst.mode_eq]
  cases s.mode with
  | running => exact ⟨hst.console_eq, hst.desk_eq, hst.program_eq, rfl, hst.budget_eq⟩
  | paused => exact ⟨hst.console_eq, hst.desk_eq, hst.program_eq, rfl, hst.budget_eq⟩
  | quit => exact hst

theorem alike_hotkey (key : Keyboard.Hotkey) :
    Outcome.Alike SameGame (s.hotkey key).outcome (t.hotkey key).outcome := by
  cases key with
  | quit =>
    exact Outcome.alike_done
      ⟨hst.console_eq, hst.desk_eq, hst.program_eq, rfl, hst.budget_eq⟩
  | pause => exact Outcome.alike_done (sameGame_pauseOrResume hst)
  | reset => exact alike_reset hst
  | load => exact alike_changeProgram hst
  | fade _ | volume _ =>
    exact Outcome.alike_done
      ⟨hst.console_eq, hst.desk_eq, hst.program_eq, hst.mode_eq, hst.budget_eq⟩

theorem alike_keypad (down : Bool) (code : Int) :
    Outcome.Alike SameGame (s.keypad down code).outcome (t.keypad down code).outcome := by
  simp only [keypad, machine_eq_of_sameGame hst]
  cases Keyboard.keypadKey? code with
  | some k => exact Outcome.alike_done (sameGame_withMachine hst _)
  | none => exact Outcome.alike_done hst

theorem alike_handle (e : Event) :
    Outcome.Alike SameGame (s.handle e).outcome (t.handle e).outcome := by
  cases e with
  | quit => exact alike_hotkey hst .quit
  | other => exact Outcome.alike_done hst
  | key down code modifiers =>
    cases down with
    | false => exact alike_keypad hst false code
    | true =>
      simp only [handle]
      split
      · exact alike_keypad hst true code
      · exact alike_hotkey hst .quit
      · simp only [Act.outcome_andThen]
        exact Outcome.alike_andThen (alike_hotkey hst _) fun _ _ huv => alike_keypad huv true code

end SameGame

/-- The game does not notice an event that means nothing to it. -/
theorem alike_done_handle {s t : Session w h} (hst : SameGame s t) {e : Event}
    (he : e.plays = false) : Outcome.Alike SameGame (s.handle e).outcome (.done t) := by
  cases e with
  | quit => contradiction
  | other => exact Outcome.alike_done hst
  | key down code modifiers =>
    simp only [Event.plays, Bool.or_eq_false_iff, Option.isSome_eq_false_iff,
      Option.isNone_iff_eq_none] at he
    obtain ⟨hcode, hmeans⟩ := he
    have hidle (u : Session w h) (d : Bool) : u.keypad d code = .idle u := by
      simp only [keypad, hcode]
    cases down with
    | false =>
      rw [handle, hidle]
      exact Outcome.alike_done hst
    | true =>
      rw [Bool.true_and] at hmeans
      cases hkey : Keyboard.hotkey? code modifiers with
      | none =>
        simp only [handle, hkey, hidle]
        exact Outcome.alike_done hst
      | some key =>
        rw [hkey, Option.any_some] at hmeans
        cases key with
        | fade _ | volume _ =>
          simp only [handle, hkey, Act.outcome_andThen, hidle]
          exact Outcome.alike_done
            ⟨hst.console_eq, hst.desk_eq, hst.program_eq, hst.mode_eq, hst.budget_eq⟩
        | quit | pause | reset | load => contradiction

/-- A batch is handled as if only the events were in it that mean something. -/
theorem alike_handleAll_filter {s t : Session w h} (hst : SameGame s t) (events : List Event) :
    Outcome.Alike SameGame (s.handleAll events).outcome
      (t.handleAll (events.filter Event.plays)).outcome := by
  induction events generalizing s t with
  | nil => exact Outcome.alike_done hst
  | cons e events ih =>
    cases he : e.plays with
    | true =>
      rw [List.filter_cons_of_pos he]
      simp only [handleAll, Act.outcome_andThen]
      exact Outcome.alike_andThen (alike_handle hst e) fun _ _ => ih
    | false =>
      rw [List.filter_cons_of_neg (by simp [he])]
      have hfirst := alike_done_handle hst he
      obtain ⟨u, hu⟩ := Outcome.exists_done_of_failure? (hfirst.failure_eq.symm.trans rfl)
      rw [hu] at hfirst
      simp only [handleAll, Act.outcome_andThen, hu]
      exact ih hfirst.related

theorem alike_handleAll {s t : Session w h} (hst : SameGame s t) {events events' : List Event}
    (hevents : events.filter Event.plays = events'.filter Event.plays) :
    Outcome.Alike SameGame (s.handleAll events).outcome (t.handleAll events').outcome := by
  have hleft := alike_handleAll_filter hst events
  have hright := alike_handleAll_filter (sameGame_refl t) events'
  rw [hevents] at hleft
  exact Outcome.alike_trans sameGame_trans hleft (Outcome.alike_symm sameGame_symm hright)

theorem exists_last_of_forall₂ {α β : Type} {R : α → β → Prop} {l : List α} {l' : List β}
    (hl : List.Forall₂ R l l') {a : α} (ha : l.getLast? = some a) :
    ∃ b, l'.getLast? = some b ∧ R a b := by
  induction hl generalizing a with
  | nil => simp at ha
  | @cons x y l l' hxy hl ih =>
    cases hl with
    | nil =>
      obtain rfl := Option.some.inj ha
      exact ⟨y, rfl, hxy⟩
    | cons hab hrest =>
      rw [List.getLast?_cons_cons] at ha ⊢
      exact ih ha

theorem endingOf_eq_of_alike {R : Session w h → Session w h → Prop} {o o' : Outcome (Session w h)}
    (ho : Outcome.Alike R o o') : endingOf o' = endingOf o := by
  have hfailure := ho.failure_eq
  cases o with
  | done s =>
    cases o' with
    | done t => rfl
    | failed why t => contradiction
  | failed why s =>
    cases o' with
    | done t => contradiction
    | failed why' t =>
      obtain rfl := Option.some.inj hfailure
      cases why' <;> rfl

/-- Two runs of the same game go through alike stages. -/
theorem stages_alike {s t : Session w h} (hst : SameGame s t) {script script' : List (List Event)}
    (hscript : script.map (·.filter Event.plays) = script'.map (·.filter Event.plays)) :
    List.Forall₂ (Outcome.Alike SameGame) (s.stages script) (t.stages script') := by
  induction script generalizing s t script' with
  | nil =>
    obtain rfl := List.map_eq_nil_iff.mp hscript.symm
    exact .cons (alike_handle hst .quit) .nil
  | cons events script ih =>
    cases script' with
    | nil => simp at hscript
    | cons events' script' =>
      obtain ⟨hevents, hrest⟩ := List.cons.inj hscript
      have hhandled := alike_handleAll hst hevents
      simp only [stages]
      cases hleft : (s.handleAll events).outcome with
      | failed why u =>
        rw [hleft] at hhandled
        obtain ⟨v, hright⟩ := Outcome.exists_failed_of_alike hhandled
        rw [hright] at hhandled ⊢
        exact .cons hhandled .nil
      | done u =>
        rw [hleft] at hhandled
        obtain ⟨v, hright⟩ := Outcome.exists_done_of_alike hhandled
        rw [hright] at hhandled ⊢
        have huv : SameGame u v := hhandled.related
        refine .cons hhandled ?_
        rw [huv.mode_eq]
        split
        · exact .nil
        · have hticked := sameGame_tick huv
          cases hleft' : u.tick.outcome with
          | failed why u' =>
            rw [hleft'] at hticked
            obtain ⟨v', hright'⟩ := Outcome.exists_failed_of_alike hticked
            rw [hright'] at hticked ⊢
            exact .cons hticked .nil
          | done u' =>
            rw [hleft'] at hticked
            obtain ⟨v', hright'⟩ := Outcome.exists_done_of_alike hticked
            rw [hright'] at hticked ⊢
            exact .cons hticked (ih hticked.related hrest)

/-- Take two sessions that play the same game, with whatever tones and windows, and two scripts that
agree batch by batch in the events that mean something to the game. Their runs go through the same
consoles, programs and modes behind every batch and every tick, fail at the same stage for the same
reason, and end alike. -/
theorem run_unaffected_by_presentation {s t : Session w h} (hst : SameGame s t)
    {script script' : List (List Event)}
    (hscript : script.map (·.filter Event.plays) = script'.map (·.filter Event.plays)) :
    List.Forall₂ (Outcome.Alike SameGame) (s.stages script) (t.stages script') ∧
      (t.run script').ending = (s.run script).ending ∧
      SameGame (s.run script).session (t.run script').session := by
  have hstages := stages_alike hst hscript
  obtain ⟨o, hlast, hsession, hending, -⟩ := s.loop_eq_last script
  obtain ⟨o', hlast', hsession', hending', -⟩ := t.loop_eq_last script'
  obtain ⟨o'', hlast'', halike⟩ := exists_last_of_forall₂ hstages hlast
  obtain rfl : o' = o'' := Option.some.inj (hlast'.symm.trans hlast'')
  refine ⟨hstages, ?_, ?_⟩
  · show (t.loop script').ending = (s.loop script).ending
    rw [hending, hending', endingOf_eq_of_alike halike]
  · have hgame : SameGame (s.loop script).session (t.loop script').session := by
      rw [hsession, hsession']
      exact halike.related
    exact ⟨hgame.console_eq, hgame.desk_eq, hgame.program_eq, hgame.mode_eq, hgame.budget_eq⟩

/-- Sessions that were started on one program play the same game if their options differ in nothing
but the presentation. -/
theorem sameGame_of_start {c c' : Config} {program : List UInt8} {noise : Noise} {desk : Desk}
    {s t : Session w h} {launched launched' : List Effect}
    (hs : start w h c program noise desk = .ok (s, launched))
    (ht : start w h c' program noise desk = .ok (t, launched'))
    (hvariant : c'.variant = c.variant) (htall : c'.tall = c.tall) (hspeed : c'.speed = c.speed) :
    SameGame s t := by
  obtain ⟨_, _, _, _, _, rfl⟩ := eq_ofMachine_of_start hs
  obtain ⟨_, _, _, _, _, rfl⟩ := eq_ofMachine_of_start ht
  refine ⟨?_, rfl, rfl, rfl, ?_⟩
  · simp only [ofMachine, hvariant, htall]
  · simp only [ofMachine, Config.budget, hspeed]

/-- A tone and a window of another kind, and other keys of the volume and the fade in between. -/
theorem run_unaffected_by_presentation_plain :
    ∃ s t : Session 64 32, SameGame s t ∧ t.tone.frequency ≠ s.tone.frequency ∧
      ([[.key true 106 0, .key true 113 0], [.other]] : List (List Event)).map
          (·.filter Event.plays) =
        [[.key true 113 0], [.key true 112 0, .key false 111 0]].map (·.filter Event.plays) ∧
      List.Forall₂ (Outcome.Alike SameGame)
        (s.stages [[.key true 106 0, .key true 113 0], [.other]])
        (t.stages [[.key true 113 0], [.key true 112 0, .key false 111 0]]) := by
  have hp : ([0x12, 0x00] : List UInt8).length ≤ programCapacity := by decide
  have hs := start_eq (w := 64) (h := 32) (c := {}) hp rfl rfl (Noise.cycle [])
    ⟨fun _ => .error .missing, []⟩
  have ht := start_eq (w := 64) (h := 32)
    (c := { frequency := some 2, sampleRate := some 8, volume := 100, outlines := false }) hp rfl rfl
    (Noise.cycle []) ⟨fun _ => .error .missing, []⟩
  have hgame := sameGame_of_start hs ht rfl rfl rfl
  refine ⟨_, _, hgame, by decide, by decide, ?_⟩
  exact (run_unaffected_by_presentation hgame (by decide)).1

end Session
end Chip8
