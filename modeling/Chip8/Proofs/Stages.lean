import Chip8.Proofs.Course

/-!
# Stages of a run

What a run goes through: the outcome of every batch of events and of every tick, in order. The last
of them is the session that the run leaves, and tells how it ends.
-/

namespace Chip8

theorem Desk.error_of_readProgram {d : Desk} {p : Path} {why : Failure}
    (hread : d.readProgram p = .error why) :
    why = .nulInPath ∨ ∃ reason, why = .programUnreadable p.toString reason := by
  unfold readProgram at hread
  split at hread
  · exact .inl (Except.error.inj hread).symm
  · cases hfile : d.read p with
    | ok program =>
      rw [hfile] at hread
      contradiction
    | error reason =>
      rw [hfile] at hread
      exact .inr ⟨reason, (Except.error.inj hread).symm⟩

namespace Session

variable {w h : Nat}

/-- The outcomes of the batches and of the ticks of a run. At the end of its script the player
quits. -/
def stages (s : Session w h) : List (List Event) → List (Outcome (Session w h))
  | [] => [(s.handle .quit).outcome]
  | events :: script =>
    match (s.handleAll events).outcome with
    | .failed why t => [.failed why t]
    | .done t =>
      .done t ::
        if t.mode = .quit then []
        else
          match t.tick.outcome with
          | .failed why u => [.failed why u]
          | .done u => .done u :: u.stages script

def endingOf : Outcome (Session w h) → Ending
  | .done _ => .exit 0
  | .failed (.fault _) _ => .exit 1
  | .failed why _ => .failed why

/-- Whatever is done stops short for another reason than a fault. -/
def EndsInNoFault (a : Act (Session w h)) : Prop := ∀ f t, a.outcome ≠ .failed (.fault f) t

theorem composes_endsInNoFault : Composes fun (_ : Session w h) a => EndsInNoFault a where
  idle := fun s f t => by simp
  andThen := fun {s a g} ha hg f t => by
    rw [Act.outcome_andThen]
    cases houtcome : a.outcome with
    | done u => exact hg u f t
    | failed why u =>
      intro hfailed
      exact ha f t (houtcome.trans hfailed)

theorem endsInNoFault_reset (s : Session w h) : EndsInNoFault s.reset := by
  intro f t
  by_cases hfits : s.program.length ≤ programCapacity
  · rw [outcome_reset (Machine.reset_eq s.machine hfits)]
    simp
  · have hlarge := Machine.reset_of_lt s.machine (Nat.lt_of_not_le hfits)
    simp [reset, hlarge]

theorem endsInNoFault_changeProgram (s : Session w h) : EndsInNoFault s.changeProgram := by
  intro f t
  cases hpick : s.desk.pick? with
  | none => simp [changeProgram, hpick]
  | some p =>
    have hread : s.desk.afterPick.readProgram p = s.desk.readProgram p := rfl
    simp only [changeProgram, hpick, loadPath, hread]
    cases hprogram : s.desk.readProgram p with
    | ok program =>
      simp only [replaceProgram]
      split <;> simp
    | error why =>
      rcases Desk.error_of_readProgram hprogram with rfl | ⟨reason, rfl⟩ <;> simp

theorem endsInNoFault_handle (s : Session w h) (e : Event) : EndsInNoFault (s.handle e) := by
  refine handle_of_composes composes_endsInNoFault (fun t key => ?_) (fun t down code f u => ?_) s e
  · cases key with
    | reset => exact endsInNoFault_reset t
    | load => exact endsInNoFault_changeProgram t
    | quit | pause | fade _ | volume _ => exact fun f u => by simp [hotkey]
  · unfold keypad
    split <;> simp

theorem endsInNoFault_handleAll (s : Session w h) (events : List Event) :
    EndsInNoFault (s.handleAll events) :=
  handleAll_of_composes composes_endsInNoFault endsInNoFault_handle s events

/-- A run leaves the session of its last stage, and ends as this stage tells. If nothing has failed
the session has been told to quit. -/
theorem loop_eq_last (s : Session w h) (script : List (List Event)) :
    ∃ o, (s.stages script).getLast? = some o ∧ (s.loop script).session = o.state ∧
      (s.loop script).ending = endingOf o ∧ (o.failure? = none → o.state.mode = .quit) := by
  induction script generalizing s with
  | nil => exact ⟨_, rfl, rfl, rfl, fun _ => rfl⟩
  | cons events script ih =>
    cases hhandled : (s.handleAll events).outcome with
    | failed why t =>
      have hending : endingOf (.failed why t) = .failed why := by
        cases why with
        | fault f => exact absurd hhandled (endsInNoFault_handleAll s events f t)
        | _ => rfl
      simp only [stages, loop, hhandled]
      exact ⟨_, rfl, rfl, hending.symm, fun hdone => by simp at hdone⟩
    | done t =>
      by_cases hmode : t.mode = .quit
      · simp only [stages, loop, hhandled, if_pos hmode]
        exact ⟨_, rfl, rfl, rfl, fun _ => hmode⟩
      · cases hticked : t.tick.outcome with
        | failed why u =>
          simp only [stages, loop, hhandled, if_neg hmode, hticked]
          refine ⟨.failed why u, rfl, ?_⟩
          cases why <;> exact ⟨rfl, rfl, fun hdone => by simp at hdone⟩
        | done u =>
          obtain ⟨o, hlast, hsession, hending, hquit⟩ := ih u
          simp only [stages, loop, hhandled, if_neg hmode, hticked]
          refine ⟨o, ?_, hsession, hending, hquit⟩
          simp [List.getLast?_cons, hlast]

end Session
end Chip8
