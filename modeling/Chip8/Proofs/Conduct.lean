import Chip8.Proofs.Quit
import Chip8.Proofs.Stages

/-!
# Conduct of a session

Whatever comes to a session, it starts and leaves no devices and opens no mixer, and it reports no
error but a program that it had to refuse. A run that is known how to play ends because the player
quits or by a fault, and only the fault is reported besides.
-/

namespace Chip8

/-- The failures for which a program is refused. -/
def Failure.Refuses : Failure → Prop
  | .programTooLarge _ | .programUnreadable _ _ => True
  | _ => False

/-- What a session may ask and log on the way. -/
def Effect.OnTheWay : Effect → Prop
  | .request .start | .request .quit | .request (.openMixer _) => False
  | .log ⟨.error, message⟩ => ∃ why : Failure, why.Refuses ∧ message = why.message
  | _ => True

def Fault.line (f : Fault) : String :=
  let text := f.report.text
  s!"Machine fault, stopping: {text}"

def Effect.AllOnTheWay (effects : List Effect) : Prop := ∀ e ∈ effects, e.OnTheWay

namespace Effect

variable {first second : List Effect} {e : Effect}

theorem allOnTheWay_nil : AllOnTheWay [] := by simp [AllOnTheWay]

theorem allOnTheWay_append (hfirst : AllOnTheWay first) (hsecond : AllOnTheWay second) :
    AllOnTheWay (first ++ second) := fun e he =>
  (List.mem_append.mp he).elim (hfirst e) (hsecond e)

theorem allOnTheWay_cons (he : e.OnTheWay) (hrest : AllOnTheWay second) :
    AllOnTheWay (e :: second) := fun f hf =>
  (List.mem_cons.mp hf).elim (fun h => h ▸ he) (hrest f)

theorem allOnTheWay_singleton (he : e.OnTheWay) : AllOnTheWay [e] :=
  allOnTheWay_cons he allOnTheWay_nil

end Effect

section Parts

open Effect

theorem Tone.allOnTheWay_update (t : Tone) (active : Bool) : AllOnTheWay (t.update active).2 := by
  unfold update
  split
  · exact allOnTheWay_cons trivial (allOnTheWay_singleton trivial)
  · split
    · exact allOnTheWay_cons trivial (allOnTheWay_singleton trivial)
    · exact allOnTheWay_nil

theorem Tone.allOnTheWay_adjustVolume (t : Tone) (delta : Int) :
    AllOnTheWay (t.adjustVolume delta).2 := by
  simp only [adjustVolume]
  split
  · exact allOnTheWay_nil
  · refine allOnTheWay_append (allOnTheWay_append (allOnTheWay_append ?_ ?_) ?_) ?_
    · exact allOnTheWay_update _ _
    · exact allOnTheWay_singleton trivial
    · exact allOnTheWay_update _ _
    · exact allOnTheWay_singleton trivial

theorem Display.allOnTheWay_draw {w h : Nat} (d : Display w h) (screen : Framebuffer w h) :
    AllOnTheWay (d.draw screen).2 := by
  have houtlines : AllOnTheWay (d.outlineRequests screen) := by
    intro e he
    obtain ⟨cell, -, rfl⟩ := List.mem_map.mp he
    trivial
  simp only [draw]
  refine allOnTheWay_append (allOnTheWay_append ?_ ?_) ?_
  · exact allOnTheWay_cons trivial (allOnTheWay_singleton trivial)
  · split
    · exact houtlines
    · exact allOnTheWay_nil
  · exact allOnTheWay_singleton trivial

end Parts

namespace Session

variable {w h : Nat}

open Effect

theorem composes_allOnTheWay :
    Composes fun (_ : Session w h) a => AllOnTheWay a.effects where
  idle := fun _ => allOnTheWay_nil
  andThen := by
    intro s a f ha hf
    unfold Act.andThen
    cases a.outcome with
    | done t => exact allOnTheWay_append ha (hf t)
    | failed why t => exact ha

theorem allOnTheWay_clear (s : Session w h) : AllOnTheWay s.clearDisplay.2 :=
  allOnTheWay_cons trivial (allOnTheWay_singleton trivial)

theorem allOnTheWay_refusal {why : Failure} (hwhy : why.Refuses) : AllOnTheWay (refusal why) :=
  allOnTheWay_cons ⟨why, hwhy, rfl⟩ (allOnTheWay_singleton trivial)

theorem allOnTheWay_reset (s : Session w h) : AllOnTheWay s.reset.effects := by
  unfold reset
  split
  · exact allOnTheWay_nil
  · refine allOnTheWay_append (allOnTheWay_cons trivial (allOnTheWay_append ?_ ?_)) ?_
    · exact Tone.allOnTheWay_update _ false
    · exact allOnTheWay_clear _
    · exact allOnTheWay_singleton trivial

theorem allOnTheWay_replaceProgram (s : Session w h) (p : Path) (program : List UInt8) :
    AllOnTheWay (s.replaceProgram p program).effects := by
  unfold replaceProgram
  by_cases hfits : program.length ≤ programCapacity
  · rw [Machine.reset_eq s.machine hfits]
    refine allOnTheWay_append (allOnTheWay_append (allOnTheWay_cons trivial ?_) ?_) ?_
    · exact allOnTheWay_clear _
    · exact allOnTheWay_singleton trivial
    · exact allOnTheWay_singleton trivial
  · rw [Machine.reset_of_lt s.machine (Nat.lt_of_not_le hfits)]
    exact allOnTheWay_refusal trivial

theorem allOnTheWay_loadPath (s : Session w h) (p : Path) :
    AllOnTheWay (s.loadPath p).effects := by
  refine allOnTheWay_cons trivial ?_
  cases s.desk.readProgram p with
  | ok program => exact s.allOnTheWay_replaceProgram p program
  | error why =>
    cases why with
    | programUnreadable path reason => exact allOnTheWay_refusal trivial
    | _ => exact allOnTheWay_nil

theorem allOnTheWay_changeProgram (s : Session w h) : AllOnTheWay s.changeProgram.effects := by
  refine allOnTheWay_append (Tone.allOnTheWay_update _ false) (allOnTheWay_cons trivial ?_)
  cases s.desk.pick? with
  | some p => exact allOnTheWay_loadPath _ p
  | none => exact allOnTheWay_singleton trivial

theorem allOnTheWay_hotkey (s : Session w h) (key : Keyboard.Hotkey) :
    AllOnTheWay (s.hotkey key).effects := by
  cases key with
  | quit => exact allOnTheWay_nil
  | pause =>
    show AllOnTheWay s.pauseOrResume.2
    unfold pauseOrResume
    split
    · exact allOnTheWay_append (Tone.allOnTheWay_update _ false) (allOnTheWay_singleton trivial)
    · exact allOnTheWay_singleton trivial
    · exact allOnTheWay_nil
  | reset => exact s.allOnTheWay_reset
  | load => exact s.allOnTheWay_changeProgram
  | fade faster => exact allOnTheWay_singleton trivial
  | volume louder => exact s.tone.allOnTheWay_adjustVolume _

theorem allOnTheWay_handleAll (s : Session w h) (events : List Event) :
    AllOnTheWay (s.handleAll events).effects := by
  refine handleAll_of_composes composes_allOnTheWay (fun t e => ?_) s events
  refine handle_of_composes composes_allOnTheWay allOnTheWay_hotkey (fun u down code => ?_) t e
  unfold keypad
  split
  · exact allOnTheWay_singleton trivial
  · exact allOnTheWay_nil

theorem allOnTheWay_tick (s : Session w h) : AllOnTheWay s.tick.effects := by
  refine tick_of_composes composes_allOnTheWay (fun t => ?_) (fun t => ?_) (fun t => ?_)
    (fun _ => allOnTheWay_nil) s
  · intro e he
    obtain ⟨line, -, rfl⟩ := List.mem_map.mp he
    trivial
  · exact Tone.allOnTheWay_update _ _
  · unfold refresh
    split
    · exact t.display.allOnTheWay_draw t.machine.screen
    · exact allOnTheWay_nil

/-- A session that every event and every tick can be handled on, up to a fault. -/
structure Playable (s : Session w h) : Prop extends s.Ready where
  inRange : s.machine.InRange
  budget_known : ∃ n, s.budget = some n

theorem budget_reacts {s t : Session w h} (hst : Reacts s t) : t.budget = s.budget := by
  cases hst <;> rfl

theorem budget_tick (s : Session w h) : s.tick.state.budget = s.budget := by
  refine tick_keeps (P := fun t => t.budget = s.budget) (fun t ht => ?_) (fun _ ht => ht)
    (fun t ht => (budget_refresh t).trans ht) rfl
  simp only [instruction, Act.state, Outcome.state_map]
  exact ht

theorem playable_handleAll {s : Session w h} (hs : s.Playable) (events : List Event) :
    ∃ t, (s.handleAll events).outcome = .done t ∧ t.Playable := by
  obtain ⟨t, ht, hfollows⟩ := follows_handleAll hs.toReady events
  let P (u : Session w h) : Prop := u.machine.InRange ∧ u.budget = s.budget
  have hreacts (u v : Session w h) (hu : P u) (huv : Reacts u v) : P v :=
    ⟨inRange_reacts hu.1 huv, (budget_reacts huv).trans hu.2⟩
  have hkept : P (s.handleAll events).state :=
    handleAll_of_composes (composes_keeps P) (fun _ e hu => handle_keeps hreacts hu e) s events
      ⟨hs.inRange, rfl⟩
  rw [Act.state, ht, Outcome.state_done] at hkept
  exact ⟨t, ht, hfollows.ready, hkept.1, hkept.2 ▸ hs.budget_known⟩

theorem playable_tick {s t : Session w h} (hs : s.Playable) (hticked : s.tick.outcome = .done t) :
    t.Playable := by
  have hrange := inRange_respond hs.inRange .tick
  have hbudget := s.budget_tick
  simp only [respond, Act.state, hticked, Outcome.state_done] at hrange hbudget
  exact ⟨ready_of_agrees (agrees_of_tick hticked) hs.toReady, hrange, hbudget ▸ hs.budget_known⟩

/-- A run ended by `o` with these effects: the player has quit, or a fault was met and is reported
at last. -/
inductive Concludes : Outcome (Session w h) → Ending → List Effect → Prop
  | quit {t : Session w h} {effects : List Effect} (hmode : t.mode = .quit)
      (heffects : AllOnTheWay effects) : Concludes (.done t) (.exit 0) effects
  | fault (f : Fault) {t : Session w h} {effects : List Effect} (heffects : AllOnTheWay effects) :
      Concludes (.failed (.fault f) t) (.exit 1) (effects ++ [.error f.line])

theorem concludes_append {o : Outcome (Session w h)} {ending : Ending}
    {first effects : List Effect} (hfirst : AllOnTheWay first)
    (ho : Concludes o ending effects) : Concludes o ending (first ++ effects) := by
  cases ho with
  | quit hmode heffects => exact .quit hmode (allOnTheWay_append hfirst heffects)
  | fault f heffects =>
    rw [← List.append_assoc]
    exact .fault f (allOnTheWay_append hfirst heffects)

/-- A session that can be played is played until the player quits or a fault is met. -/
theorem concludes_loop {s : Session w h} (hs : s.Playable) (script : List (List Event)) :
    ∃ o, (s.stages script).getLast? = some o ∧
      Concludes o (s.loop script).ending (s.loop script).effects := by
  induction script generalizing s with
  | nil => exact ⟨_, rfl, .quit rfl allOnTheWay_nil⟩
  | cons events script ih =>
    have hevents := s.allOnTheWay_handleAll events
    obtain ⟨t, ht, hplayable⟩ := playable_handleAll hs events
    by_cases hmode : t.mode = .quit
    · simp only [stages, loop, ht, if_pos hmode]
      exact ⟨_, rfl, .quit hmode hevents⟩
    · have hticks := allOnTheWay_append hevents t.allOnTheWay_tick
      cases hticked : t.tick.outcome with
      | failed why u =>
        obtain ⟨n, hbudget⟩ := hplayable.budget_known
        obtain ⟨f, rfl⟩ := exists_fault_of_tick hplayable.inRange hbudget hticked
        simp only [stages, loop, ht, if_neg hmode, hticked]
        exact ⟨_, rfl, .fault f hticks⟩
      | done u =>
        obtain ⟨o, hlast, hconcludes⟩ := ih (playable_tick hplayable hticked)
        simp only [stages, loop, ht, if_neg hmode, hticked]
        refine ⟨o, by simp [List.getLast?_cons, hlast], ?_⟩
        exact concludes_append (allOnTheWay_append hticks (allOnTheWay_singleton trivial))
          hconcludes

end Session
end Chip8
