import Chip8.Proofs.Course

/-!
# Quitting

A run ends behind a batch that tells it to quit, before another instruction and before another tick,
unless the batch goes on to open a program. Which batches end a run depends on nothing but the
events, the picks and the files.
-/

namespace Chip8

theorem Event.loads_of_quits {e : Event} (he : e.quits = true) : e.loads = false := by
  cases e with
  | quit | other => rfl
  | key down code modifiers =>
    cases down with
    | false => rfl
    | true =>
      have hcode : code = 27 := by simpa [quits] using he
      simp [loads, hcode]

/-- Some event of a batch tells to quit, and no program is opened behind it in the batch. -/
def Desk.KeepsQuit (d : Desk) (events : List Event) : Prop :=
  ∃ before e after, events = before ++ e :: after ∧ e.quits = true ∧
    (d.skip (before.countP Event.loads)).OpensNone (after.countP Event.loads)

theorem Desk.not_keepsQuit_nil (d : Desk) : ¬d.KeepsQuit [] := by
  rintro ⟨before, e, after, hevents, _⟩
  simp at hevents

theorem Desk.keepsQuit_cons_iff {d : Desk} {e : Event} {events : List Event} :
    d.KeepsQuit (e :: events) ↔
      (d.skip (if e.loads then 1 else 0)).KeepsQuit events ∨
        e.quits = true ∧
          (d.skip (if e.loads then 1 else 0)).OpensNone (events.countP Event.loads) := by
  constructor
  · rintro ⟨before, q, after, hevents, hq, hnone⟩
    cases before with
    | nil =>
      obtain ⟨rfl, rfl⟩ := List.cons.inj hevents
      refine .inr ⟨hq, ?_⟩
      simpa [Event.loads_of_quits hq] using hnone
    | cons first before =>
      obtain ⟨rfl, rfl⟩ := List.cons.inj hevents
      refine .inl ⟨before, q, after, rfl, hq, ?_⟩
      rwa [skip_skip, Nat.add_comm, ← List.countP_cons]
  · rintro (⟨before, q, after, rfl, hq, hnone⟩ | ⟨he, hnone⟩)
    · refine ⟨e :: before, q, after, rfl, hq, ?_⟩
      rwa [List.countP_cons, Nat.add_comm, ← skip_skip]
    · refine ⟨[], e, events, rfl, he, ?_⟩
      simpa [Event.loads_of_quits he] using hnone

namespace Session

variable {w h : Nat}

theorem follows_handleAll {s : Session w h} (hs : s.Ready) (events : List Event) :
    ∃ t, (s.handleAll events).outcome = .done t ∧
      Follows (events.countP Event.loads) (s.desk.KeepsQuit events) s t := by
  induction events generalizing s with
  | nil =>
    have hnone : s.desk.KeepsQuit [] ↔ False := iff_false_intro s.desk.not_keepsQuit_nil
    exact ⟨s, rfl, by simpa [hnone] using follows_refl hs⟩
  | cons e events ih =>
    obtain ⟨t, ht, hst⟩ := follows_handle hs e
    obtain ⟨u, hu, htu⟩ := ih hst.ready
    have hsu := follows_trans hst htu
    refine ⟨u, ?_, ?_⟩
    · simp only [handleAll, Act.outcome_andThen, ht]
      exact hu
    · rw [hst.desk_eq, ← Desk.keepsQuit_cons_iff, Nat.add_comm, ← List.countP_cons] at hsu
      exact hsu

/-- The session `t` is reached from `s` by some batches, each followed by a tick, with these effects
on the way. -/
inductive Reaches : Session w h → List (List Event) → List Effect → Session w h → Prop
  | start (s : Session w h) : Reaches s [] [] s
  | tick {s t u v : Session w h} {events : List Event} {script : List (List Event)}
      {effects : List Effect} (hhandled : (s.handleAll events).outcome = .done t)
      (hmode : t.mode ≠ .quit) (hticked : t.tick.outcome = .done u)
      (hrest : Reaches u script effects v) :
      Reaches s (events :: script)
        ((s.handleAll events).effects ++ t.tick.effects ++ .request .awaitTick :: effects) v

/-- What a run does that ends right behind a batch: the batch is handled, and the tone silenced. -/
def stopAfter (s : Session w h) (events : List Event) : Run w h :=
  let handled := s.handleAll events
  let silent := handled.state.setTone false
  ⟨handled.effects ++ silent.2, silent.1, .exit 0⟩

theorem ready_of_reaches {s t : Session w h} {earlier : List (List Event)}
    {effects : List Effect} (hreach : Reaches s earlier effects t) (hs : s.Ready)
    (hplaying : s.mode ≠ .quit) :
    t.Ready ∧ t.desk = s.desk.skip (earlier.flatten.countP Event.loads) ∧ t.mode ≠ .quit := by
  induction hreach with
  | start s => exact ⟨hs, rfl, hplaying⟩
  | @tick s t u v events script effects hhandled hmode hticked _ ih =>
    obtain ⟨t', ht', hst⟩ := follows_handleAll hs events
    obtain rfl : t = t' := by
      rw [hhandled] at ht'
      injection ht'
    have hagree := agrees_of_tick hticked
    have hu := ready_of_agrees hagree hst.ready
    obtain ⟨hv, hdesk, hgoes⟩ := ih hu (hagree.mode_eq ▸ hmode)
    refine ⟨hv, ?_, hgoes⟩
    rw [hdesk, hagree.desk_eq, hst.desk_eq, Desk.skip_skip, List.flatten_cons,
      List.countP_append]

/-- A run goes through all of a script, or comes to a batch that tells it to quit or to a tick that
stops short. -/
theorem reaches_or_ends {s : Session w h} (hs : s.Ready) (script : List (List Event)) :
    (∃ effects t, Reaches s script effects t) ∨
      ∃ earlier events later effects t, script = earlier ++ events :: later ∧
        Reaches s earlier effects t ∧
        ∃ u, (t.handleAll events).outcome = .done u ∧
          (u.mode = .quit ∨ ∃ why v, u.tick.outcome = .failed why v) := by
  induction script generalizing s with
  | nil => exact .inl ⟨[], s, .start s⟩
  | cons events script ih =>
    obtain ⟨t, ht, hst⟩ := follows_handleAll hs events
    by_cases hmode : t.mode = .quit
    · exact .inr ⟨[], events, script, [], s, rfl, .start s, t, ht, .inl hmode⟩
    · cases hticked : t.tick.outcome with
      | failed why v =>
        exact .inr ⟨[], events, script, [], s, rfl, .start s, t, ht, .inr ⟨why, v, hticked⟩⟩
      | done u =>
        have hu := ready_of_agrees (agrees_of_tick hticked) hst.ready
        rcases ih hu with
          ⟨effects, v, hreach⟩ | ⟨earlier, batch, later, effects, v, hscript, hreach, hends⟩
        · exact .inl ⟨_, v, .tick ht hmode hticked hreach⟩
        · refine .inr ⟨events :: earlier, batch, later, _, v, ?_, .tick ht hmode hticked hreach,
            hends⟩
          rw [hscript, List.cons_append]

theorem Run.after_after (first second : List Effect) (r : Run w h) :
    (r.after second).after first = r.after (first ++ second) := by
  simp only [Run.after, List.append_assoc]

theorem loop_of_reaches {s t : Session w h} {earlier : List (List Event)} {effects : List Effect}
    (hreach : Reaches s earlier effects t) (later : List (List Event)) :
    s.loop (earlier ++ later) = (t.loop later).after effects := by
  induction hreach with
  | start s => rfl
  | tick hhandled hmode hticked _ ih =>
    simp only [List.cons_append, loop, hhandled, if_neg hmode, hticked, ih, Run.after_after,
      List.append_assoc, List.nil_append]

theorem awaitTick_not_mem_setTone (s : Session w h) (active : Bool) :
    Effect.request .awaitTick ∉ (s.setTone active).2 := by
  simp only [setTone, Tone.update]
  split
  · simp [Effect.debug]
  · split
    · simp [Effect.debug]
    · simp

/-- A run that is not told to quit goes on with a tick, whatever comes of it. -/
theorem loop_ne_stop {s t : Session w h} {events : List Event}
    (hhandled : (s.handleAll events).outcome = .done t) (hmode : t.mode ≠ .quit)
    (later : List (List Event)) :
    (s.loop (events :: later)).ending ≠ .exit 0 ∨
      ∃ effects, (s.loop (events :: later)).effects = (s.handleAll events).effects ++ effects ∧
        Effect.request .awaitTick ∈ effects := by
  cases hticked : t.tick.outcome with
  | done u =>
    right
    refine ⟨t.tick.effects ++ .request .awaitTick :: (u.loop later).effects, ?_, by simp⟩
    simp only [loop, hhandled, if_neg hmode, hticked, Run.after, List.append_assoc,
      List.singleton_append]
  | failed why u =>
    left
    cases why with
    | fault f => simp [loop, hhandled, if_neg hmode, hticked]
    | _ => simp [loop, hhandled, if_neg hmode, hticked]

/-- A run ends right behind a batch exactly if the session has been told to quit then. -/
theorem run_eq_stopAfter_iff {s t u : Session w h} {earlier : List (List Event)}
    {effects : List Effect} (hreach : Reaches s earlier effects t) {events : List Event}
    (hhandled : (t.handleAll events).outcome = .done u) (later : List (List Event)) :
    s.run (earlier ++ events :: later) = (t.stopAfter events).after effects ↔ u.mode = .quit := by
  have hstate : (t.handleAll events).state = u := by rw [Act.state, hhandled, Outcome.state_done]
  simp only [run, loop_of_reaches hreach, stopAfter, hstate]
  constructor
  · intro hrun
    obtain ⟨heffects, _, hending⟩ := Run.mk.inj hrun
    refine Decidable.of_not_not fun hmode => ?_
    rcases loop_ne_stop hhandled hmode later with hfailed | ⟨more, hmore, hawait⟩
    · exact hfailed hending
    · simp only [Run.after, hmore, List.append_assoc, List.append_cancel_left_eq] at heffects
      have hmem : Effect.request .awaitTick ∈ (u.setTone false).2 := by
        rw [← heffects]
        exact List.mem_append_left _ hawait
      exact awaitTick_not_mem_setTone u false hmem
  · intro hmode
    simp only [loop, hhandled, if_pos hmode, Run.after, List.append_assoc]

def oneProgram : Desk := ⟨fun _ => .ok [0x12, 0x00], [some "game.ch8"]⟩

theorem nulFree_oneProgram : oneProgram.NulFree := by
  intro text htext
  obtain rfl : text = "game.ch8" := by simpa [oneProgram] using htext
  decide

theorem opened?_oneProgram :
    oneProgram.opened? = some (.ofString "game.ch8", [0x12, 0x00]) := by
  have hpick : oneProgram.pick? = some (.ofString "game.ch8") := rfl
  have hread := Desk.readProgram_of_pick nulFree_oneProgram hpick
  exact Desk.opened?_eq_some_iff.mpr ⟨hpick, hread, by decide⟩

theorem start_oneProgram :
    ∃ s launched, start 64 32 {} [0x12, 0x00] (Noise.cycle []) oneProgram = .ok (s, launched) :=
  ⟨_, _, start_eq (by decide) rfl rfl (Noise.cycle []) oneProgram⟩

/-- A run that has come to a batch ends right behind it, before another instruction or tick, exactly
if some event of the batch tells to quit and no program is opened behind that event in the batch. -/
theorem run_start_eq_stopAfter_iff {c : Config} {program : List UInt8} {noise : Noise}
    {desk : Desk} {s t : Session w h} {launched effects : List Effect}
    (hstart : start w h c program noise desk = .ok (s, launched)) (hnul : desk.NulFree)
    {earlier : List (List Event)} (hreach : Reaches s earlier effects t) (events : List Event)
    (later : List (List Event)) :
    s.run (earlier ++ events :: later) = (t.stopAfter events).after effects ↔
      (desk.skip (earlier.flatten.countP Event.loads)).KeepsQuit events := by
  obtain ⟨_, _, hdesk, hmode⟩ := playing_of_start hstart
  have hs : s.mode ≠ .quit := by
    rw [hmode]
    decide
  obtain ⟨ht, hskip, hplaying⟩ := ready_of_reaches hreach (ready_of_start hstart hnul) hs
  obtain ⟨u, hhandled, hfollows⟩ := follows_handleAll ht events
  rw [run_eq_stopAfter_iff hreach hhandled later, hfollows.quit_iff, hskip, hdesk]
  simp only [hplaying, false_and, or_false]

/-- A program is opened, and then the session is told to quit. -/
theorem run_start_eq_stopAfter_iff_load_first :
    ∃ (s : Session 64 32) (launched : List Effect),
      start 64 32 {} [0x12, 0x00] (Noise.cycle []) oneProgram = .ok (s, launched) ∧
      oneProgram.NulFree ∧ Reaches s [] [] s ∧
      (s.run ([] ++ [.key true 108 0, .quit] :: []) =
          (s.stopAfter [.key true 108 0, .quit]).after [] ↔
        (oneProgram.skip (List.countP Event.loads ([] : List (List Event)).flatten)).KeepsQuit
          [.key true 108 0, .quit]) := by
  obtain ⟨s, launched, hstart⟩ := start_oneProgram
  have hreach : Reaches s [] [] s := .start s
  exact ⟨s, launched, hstart, nulFree_oneProgram, hreach,
    run_start_eq_stopAfter_iff hstart nulFree_oneProgram hreach [.key true 108 0, .quit] []⟩

/-- A session is told to quit, made to open a program behind that, and goes on. -/
theorem quit_lost_to_load :
    ∃ (s : Session 64 32) (launched : List Effect) (events : List Event),
      start 64 32 {} [0x12, 0x00] (Noise.cycle []) oneProgram = .ok (s, launched) ∧
      oneProgram.NulFree ∧ (∃ e ∈ events, e.quits = true) ∧
      ∀ later, s.run (events :: later) ≠ s.stopAfter events := by
  obtain ⟨s, launched, hstart⟩ := start_oneProgram
  obtain ⟨_, _, hdesk, hmode⟩ := playing_of_start hstart
  have hready := ready_of_start hstart nulFree_oneProgram
  obtain ⟨t, ht, hst⟩ := follows_handleAll hready [.quit, .key true 108 0]
  have hkeeps : ¬s.desk.KeepsQuit [.quit, .key true 108 0] := by
    rw [hdesk, Desk.keepsQuit_cons_iff, Desk.keepsQuit_cons_iff]
    rintro ((hnil | ⟨hquits, _⟩) | ⟨_, hnone⟩)
    · exact Desk.not_keepsQuit_nil _ hnil
    · contradiction
    · have hopened : oneProgram.opened? = none := Desk.opensNone_one_iff.mp hnone
      rw [opened?_oneProgram] at hopened
      contradiction
  have hplaying : ¬t.mode = .quit := by
    rw [hst.quit_iff, hmode]
    rintro (hquit | ⟨hquit, _⟩)
    · exact hkeeps hquit
    · contradiction
  refine ⟨s, launched, [.quit, .key true 108 0], hstart, nulFree_oneProgram,
    ⟨.quit, List.mem_cons_self, rfl⟩, ?_⟩
  intro later hrun
  exact hplaying ((run_eq_stopAfter_iff (.start s) ht later).mp hrun)

end Session
end Chip8
