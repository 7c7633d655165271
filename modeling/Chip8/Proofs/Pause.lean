import Chip8.Proofs.Course

/-!
# Pausing

The picture and the tone of a session follow the machine and have no influence on it: two sessions
that differ in nothing else play the same game. While a session is paused, its ticks change nothing
but the picture, and its keys nothing but the latches. So a game that is paused and resumed goes on
as if all its keys had come in at once.
-/

namespace Chip8

/-- Two outcomes of one kind, in related states. -/
structure Outcome.Alike {σ : Type} (R : σ → σ → Prop) (o o' : Outcome σ) : Prop where
  failure_eq : o'.failure? = o.failure?
  related : R o.state o'.state

theorem Outcome.exists_done_of_failure? {σ : Type} {o : Outcome σ} (ho : o.failure? = none) :
    ∃ s, o = .done s := by
  cases o with
  | done s => exact ⟨s, rfl⟩
  | failed why s => contradiction

theorem Outcome.alike_andThen {σ : Type} {R : σ → σ → Prop} {o o' : Outcome σ}
    {f g : σ → Outcome σ} (ho : Alike R o o') (hf : ∀ s t, R s t → Alike R (f s) (g t)) :
    Alike R (o.andThen f) (o'.andThen g) := by
  obtain ⟨hfailure, hrelated⟩ := ho
  cases o with
  | done s =>
    cases o' with
    | done t => exact hf s t hrelated
    | failed why t => contradiction
  | failed why s =>
    cases o' with
    | done t => contradiction
    | failed why' t => exact ⟨hfailure, hrelated⟩

/-- A key of the keypad goes down or comes up. -/
def Event.OfKeypad : Event → Prop
  | .key _ code _ => (Keyboard.keypadKey? code).isSome = true
  | .quit | .other => False

abbrev Event.pause (modifiers : Int) : Event := .key true 32 modifiers

/-- The latches after an event: a key of the keypad that goes down is latched, one that comes up is
released. -/
def Keypad.follow (p : Keypad) : Event → Keypad
  | .key down code _ =>
    match Keyboard.keypadKey? code with
    | some k => p.latch k down
    | none => p
  | .quit | .other => p

theorem Keyboard.hotkey?_of_keypadKey? {code : Int} {k : Key}
    (hkey : keypadKey? code = some k) (modifiers : Int) : hotkey? code modifiers = none := by
  obtain ⟨entry, hfound, _⟩ := Option.map_eq_some_iff.mp hkey
  have hmem := List.mem_of_find?_eq_some hfound
  have hcode : (entry.1.toNat : Int) = code := by simpa using List.find?_some hfound
  subst hcode
  simp only [layout, List.mem_cons, List.not_mem_nil, or_false] at hmem
  rcases hmem with rfl | rfl | rfl | rfl | rfl | rfl | rfl | rfl | rfl | rfl | rfl | rfl | rfl |
    rfl | rfl | rfl <;> rfl

namespace Session

variable {w h : Nat}

/-- Two sessions that play the same game: they may differ in the picture and in the tone. -/
structure SameGame (s t : Session w h) : Prop where
  console_eq : t.console = s.console
  desk_eq : t.desk = s.desk
  program_eq : t.program = s.program
  mode_eq : t.mode = s.mode
  budget_eq : t.budget = s.budget

section SameGame

variable {s t : Session w h} (hst : SameGame s t)
include hst

theorem sameGame_instruction : Outcome.Alike SameGame s.instruction.outcome t.instruction.outcome := by
  simp only [instruction, hst.console_eq]
  refine ⟨?_, ?_⟩
  · rw [Outcome.failure?_map, Outcome.failure?_map]
  · rw [Outcome.state_map, Outcome.state_map]
    exact ⟨rfl, hst.desk_eq, hst.program_eq, hst.mode_eq, hst.budget_eq⟩

theorem sameGame_timers : SameGame s.timers.1 t.timers.1 where
  console_eq := by simp only [timers, setTone, withMachine, machine, hst.console_eq]
  desk_eq := hst.desk_eq
  program_eq := hst.program_eq
  mode_eq := hst.mode_eq
  budget_eq := hst.budget_eq

theorem sameGame_instructions (n : Nat) :
    Outcome.Alike SameGame (s.instructions n).outcome (t.instructions n).outcome := by
  induction n generalizing s t with
  | zero => exact ⟨rfl, hst⟩
  | succ n ih =>
    simp only [instructions, Act.outcome_andThen]
    exact Outcome.alike_andThen (sameGame_instruction hst) fun _ _ => ih

theorem sameGame_play : Outcome.Alike SameGame s.play.outcome t.play.outcome := by
  simp only [play, hst.budget_eq]
  split
  · rename_i n _
    simp only [Act.outcome_andThen]
    exact Outcome.alike_andThen (sameGame_instructions hst n) fun _ _ huv =>
      ⟨rfl, sameGame_timers huv⟩
  · exact ⟨rfl, hst⟩

end SameGame

theorem sameGame_refresh {s t : Session w h} (hst : SameGame s t) :
    SameGame s.refresh.1 t.refresh.1 where
  console_eq := by simp only [console_refresh, machine, hst.console_eq]
  desk_eq := by rw [(agrees_refresh t).desk_eq, (agrees_refresh s).desk_eq, hst.desk_eq]
  program_eq := by
    rw [(agrees_refresh t).program_eq, (agrees_refresh s).program_eq, hst.program_eq]
  mode_eq := by rw [(agrees_refresh t).mode_eq, (agrees_refresh s).mode_eq, hst.mode_eq]
  budget_eq := by rw [budget_refresh, budget_refresh, hst.budget_eq]

theorem sameGame_tick {s t : Session w h} (hst : SameGame s t) :
    Outcome.Alike SameGame s.tick.outcome t.tick.outcome := by
  simp only [tick, Act.outcome_andThen, hst.mode_eq]
  refine Outcome.alike_andThen ?_ fun _ _ huv => ⟨rfl, sameGame_refresh huv⟩
  split
  · exact sameGame_play hst
  · exact ⟨rfl, hst⟩

theorem playing_eq_of_sameGame {s t : Session w h} (hst : SameGame s t) (hmode : s.mode = .running)
    (hdone : s.tick.outcome.failure? = none) :
    t.tick.state.tone.playing = s.tick.state.tone.playing := by
  have htick := sameGame_tick hst
  have hdone' : t.tick.outcome.failure? = none := htick.failure_eq.trans hdone
  obtain ⟨u, hu⟩ := Outcome.exists_done_of_failure? hdone
  obtain ⟨v, hv⟩ := Outcome.exists_done_of_failure? hdone'
  have hgame := htick.related
  simp only [Act.state, hu, hv, Outcome.state_done] at hgame ⊢
  rw [playing_of_tick hmode hu, playing_of_tick (hst.mode_eq.trans hmode) hv, machine, machine,
    hgame.console_eq]

theorem volume_tick (s : Session w h) : s.tick.state.tone.volume = s.tone.volume := by
  refine tick_keeps (P := fun t => t.tone.volume = s.tone.volume) (fun t ht => ?_)
    (fun t ht => ?_) (fun t ht => ?_) rfl
  · simpa only [instruction, Act.state, Outcome.state_map] using ht
  · exact (Tone.volume_update t.tone _).trans ht
  · rw [tone_refresh]
    exact ht

/-- A session after some events, if these are keys of the keypad. -/
def typed (s : Session w h) (events : List Event) : Session w h :=
  s.withMachine { s.machine with keys := events.foldl Keypad.follow s.machine.keys }

theorem typed_append (s : Session w h) (first second : List Event) :
    s.typed (first ++ second) = (s.typed first).typed second := by
  simp only [typed, withMachine, machine, List.foldl_append]

theorem outcome_handle_of_keypad (s : Session w h) {e : Event} (he : e.OfKeypad) :
    (s.handle e).outcome = .done (s.typed [e]) := by
  cases e with
  | quit => exact he.elim
  | other => exact he.elim
  | key down code modifiers =>
    obtain ⟨k, hk⟩ := Option.isSome_iff_exists.mp he
    have hkeypad : (s.keypad down code).outcome = .done (s.typed [.key down code modifiers]) := by
      simp only [keypad, hk, typed, List.foldl_cons, List.foldl_nil, Keypad.follow]
      rfl
    cases down with
    | false => exact hkeypad
    | true =>
      simp only [handle, Keyboard.hotkey?_of_keypadKey? hk]
      exact hkeypad

theorem outcome_handleAll_of_keypad (s : Session w h) {events : List Event}
    (hkeys : ∀ e ∈ events, e.OfKeypad) : (s.handleAll events).outcome = .done (s.typed events) := by
  induction events generalizing s with
  | nil => rfl
  | cons e events ih =>
    have hfirst := s.outcome_handle_of_keypad (hkeys e List.mem_cons_self)
    have hrest := ih (s.typed [e]) fun e' he' => hkeys e' (List.mem_cons_of_mem e he')
    simp only [handleAll, Act.outcome_andThen, hfirst]
    rw [← List.singleton_append, typed_append]
    exact hrest

theorem outcome_handleAll_pause (s : Session w h) {events : List Event}
    (hkeys : ∀ e ∈ events, e.OfKeypad) (modifiers : Int) :
    (s.handleAll (events ++ [.pause modifiers])).outcome =
      .done (s.typed events).pauseOrResume.1 := by
  rw [outcome_handleAll_append, outcome_handleAll_of_keypad s hkeys]
  rfl

/-- Batches of events, each handled and followed by a tick. -/
def rounds (s : Session w h) : List (List Event) → Act (Session w h)
  | [] => .idle s
  | events :: batches => (s.handleAll events).andThen fun t => t.tick.andThen (·.rounds batches)

/-- The session `t` is `s` while it is paused, with nothing left to be shown. -/
structure Suspends (s t : Session w h) : Prop where
  game : SameGame { s with mode := .paused } t
  volume_eq : t.tone.volume = s.tone.volume
  unmarked : s.machine.redraw = false

section Suspends

variable {s t : Session w h}

theorem suspends_pause (hmode : s.mode = .running) (hmark : s.machine.redraw = false) :
    Suspends s s.pauseOrResume.1 := by
  simp only [pauseOrResume, hmode]
  exact ⟨⟨rfl, rfl, rfl, rfl, rfl⟩, Tone.volume_update s.tone false, hmark⟩

theorem suspends_typed (hst : Suspends s t) (events : List Event) :
    Suspends (s.typed events) (t.typed events) where
  game := by
    refine ⟨?_, hst.game.desk_eq, hst.game.program_eq, hst.game.mode_eq, hst.game.budget_eq⟩
    simp only [typed, withMachine, machine, hst.game.console_eq]
  volume_eq := hst.volume_eq
  unmarked := hst.unmarked

theorem suspends_refresh (hst : Suspends s t) : Suspends s t.refresh.1 where
  game := by
    have hagrees := agrees_refresh t
    refine ⟨?_, ?_, ?_, ?_, ?_⟩
    · have hmark : t.machine.redraw = false := by
        rw [machine, hst.game.console_eq]
        exact hst.unmarked
      rw [console_refresh, ← hmark]
      exact hst.game.console_eq
    · rw [hagrees.desk_eq, hst.game.desk_eq]
    · rw [hagrees.program_eq, hst.game.program_eq]
    · rw [hagrees.mode_eq, hst.game.mode_eq]
    · rw [budget_refresh, hst.game.budget_eq]
  volume_eq := by rw [tone_refresh, hst.volume_eq]
  unmarked := hst.unmarked

/-- A session that goes on plays the game that was paused. -/
theorem sameGame_resume (hst : Suspends s t) (hmode : s.mode = .running) :
    SameGame s t.pauseOrResume.1 ∧ t.pauseOrResume.1.tone.volume = s.tone.volume := by
  have hpaused : t.mode = .paused := hst.game.mode_eq
  simp only [pauseOrResume, hpaused]
  exact ⟨⟨hst.game.console_eq, hst.game.desk_eq, hst.game.program_eq, hmode.symm,
    hst.game.budget_eq⟩, hst.volume_eq⟩

/-- Any number of batches can come in during a pause; behind them the session is still paused, and
the keys are those that the batches leave. -/
theorem suspends_rounds (hst : Suspends s t) {batches : List (List Event)}
    (hkeys : ∀ e ∈ batches.flatten, e.OfKeypad) :
    ∃ u, (t.rounds batches).outcome = .done u ∧ Suspends (s.typed batches.flatten) u := by
  induction batches generalizing s t with
  | nil => exact ⟨t, rfl, suspends_typed hst []⟩
  | cons events batches ih =>
    have hevents : ∀ e ∈ events, e.OfKeypad := fun e he =>
      hkeys e (List.mem_flatten_of_mem List.mem_cons_self he)
    have hbatches : ∀ e ∈ batches.flatten, e.OfKeypad := fun e he =>
      hkeys e (by rw [List.flatten_cons]; exact List.mem_append_right events he)
    have htyped := suspends_typed hst events
    obtain ⟨u, hu, hsu⟩ := ih (suspends_refresh htyped) hbatches
    have hpaused : (t.typed events).mode ≠ .running := by
      rw [htyped.game.mode_eq]
      show Mode.paused ≠ .running
      decide
    refine ⟨u, ?_, ?_⟩
    · simp only [rounds, Act.outcome_andThen, outcome_handleAll_of_keypad t hevents]
      simp only [Outcome.andThen, tick_of_ne_running hpaused]
      exact hu
    · rwa [List.flatten_cons, typed_append]

theorem suspends_rounds_pause (hmode : s.mode = .running) (hmark : s.machine.redraw = false)
    {first : List Event} (hfirst : ∀ e ∈ first, e.OfKeypad) {batches : List (List Event)}
    (hkeys : ∀ e ∈ batches.flatten, e.OfKeypad) (modifiers : Int) :
    ∃ t, (s.rounds ((first ++ [.pause modifiers]) :: batches)).outcome = .done t ∧
      Suspends (s.typed (first ++ batches.flatten)) t := by
  have hpause := suspends_pause (s := s.typed first) hmode hmark
  have hpaused : (s.typed first).pauseOrResume.1.mode ≠ .running := by
    rw [hpause.game.mode_eq]
    show Mode.paused ≠ .running
    decide
  obtain ⟨t, ht, hst⟩ := suspends_rounds (suspends_refresh hpause) hkeys
  refine ⟨t, ?_, ?_⟩
  · simp only [rounds, Act.outcome_andThen, outcome_handleAll_pause s hfirst]
    simp only [Outcome.andThen, tick_of_ne_running hpaused]
    exact ht
  · rwa [typed_append]

end Suspends

/-- A session is paused behind a first batch of keys, keys come in during any number of paused ticks,
and it is resumed behind a last batch. Up to there no instruction is executed and no timer runs
down: of the console nothing but the latches has changed. The tick that follows is the tick that
follows on all the keys at once, with the same fault if it has one and the same console, program,
mode and volume, and with the tone in the same state if it is completed. -/
theorem pause_transparent {s₀ s : Session w h} (hticked : s₀.tick.outcome = .done s)
    (hmode : s.mode = .running) (modifiers modifiers' : Int) {first last : List Event}
    {middle : List (List Event)}
    (hkeys : ∀ e ∈ first ++ middle.flatten ++ last, e.OfKeypad) :
    (∀ earlier later, middle = earlier ++ later →
      ∃ t, (s.rounds ((first ++ [.pause modifiers]) :: earlier)).outcome = .done t ∧
        t.mode = .paused ∧
        t.console =
          { s.console with
            machine :=
              { s.machine with
                keys := (first ++ earlier.flatten).foldl Keypad.follow s.machine.keys } }) ∧
    ∃ t u v,
      (s.rounds ((first ++ [.pause modifiers]) :: middle)).outcome = .done t ∧
      (t.handleAll (last ++ [.pause modifiers'])).outcome = .done u ∧
      (s.handleAll (first ++ middle.flatten ++ last)).outcome = .done v ∧
      u.tick.outcome.failure? = v.tick.outcome.failure? ∧
      u.tick.state.console = v.tick.state.console ∧
      u.tick.state.program = v.tick.state.program ∧
      u.tick.state.mode = v.tick.state.mode ∧
      u.tick.state.tone.volume = v.tick.state.tone.volume ∧
      (v.tick.outcome.failure? = none →
        u.tick.state.tone.playing = v.tick.state.tone.playing) := by
  have hfirst : ∀ e ∈ first, e.OfKeypad := fun e he => hkeys e (by simp [he])
  have hmiddle : ∀ e ∈ middle.flatten, e.OfKeypad := fun e he =>
    hkeys e (List.mem_append_left last (List.mem_append_right first he))
  have hlast : ∀ e ∈ last, e.OfKeypad := fun e he => hkeys e (List.mem_append_right _ he)
  have hmark : s.machine.redraw = false := redraw_of_tick hticked
  refine ⟨?_, ?_⟩
  · rintro earlier later rfl
    have hearlier : ∀ e ∈ earlier.flatten, e.OfKeypad := fun e he => hmiddle e (by simp [he])
    obtain ⟨t, ht, hst⟩ := suspends_rounds_pause hmode hmark hfirst hearlier modifiers
    exact ⟨t, ht, hst.game.mode_eq, hst.game.console_eq⟩
  · obtain ⟨t, ht, hst⟩ := suspends_rounds_pause hmode hmark hfirst hmiddle modifiers
    have hsuspends : Suspends (s.typed (first ++ middle.flatten ++ last)) (t.typed last) := by
      rw [typed_append]
      exact suspends_typed hst last
    obtain ⟨hsame, hvolume⟩ := sameGame_resume hsuspends hmode
    have htick := sameGame_tick hsame
    refine ⟨t, _, _, ht, outcome_handleAll_pause t hlast modifiers',
      outcome_handleAll_of_keypad s hkeys, htick.failure_eq, htick.related.console_eq,
      htick.related.program_eq, htick.related.mode_eq, ?_, fun hdone => ?_⟩
    · rw [volume_tick, volume_tick, hvolume]
    · exact playing_eq_of_sameGame hsame hmode hdone

/-- A key is held down, the game paused, another key pressed and released during the pause, and the
first one released before the game goes on. -/
theorem pause_transparent_keys :
    ∃ s₀ s : Session 64 32, s₀.tick.outcome = .done s ∧ s.mode = .running ∧
      (∀ e ∈ [Event.key true 113 0] ++ [[Event.key true 119 0], [.key false 119 0]].flatten ++
        [.key false 113 0], e.OfKeypad) ∧
      ∃ t u v,
        (s.rounds [[.key true 113 0, .pause 0], [.key true 119 0], [.key false 119 0]]).outcome =
          .done t ∧
        (t.handleAll [.key false 113 0, .pause 0]).outcome = .done u ∧
        (s.handleAll [.key true 113 0, .key true 119 0, .key false 119 0,
          .key false 113 0]).outcome = .done v ∧
        u.tick.outcome.failure? = v.tick.outcome.failure? ∧
        u.tick.state.console = v.tick.state.console := by
  obtain ⟨s₀, _, s, hstart, hticked⟩ := start_standstill
  have hmode : s.mode = .running := by
    rw [(agrees_of_tick hticked).mode_eq]
    exact (playing_of_start hstart).2.2.2
  have hkeys : ∀ e ∈ [Event.key true 113 0] ++
      [[Event.key true 119 0], [.key false 119 0]].flatten ++ [.key false 113 0], e.OfKeypad := by
    intro e he
    simp at he
    rcases he with rfl | rfl | rfl | rfl <;> rfl
  obtain ⟨t, u, v, ht, hu, hv, hfailure, hconsole, _⟩ :=
    (pause_transparent hticked hmode 0 0 hkeys).2
  exact ⟨s₀, s, hticked, hmode, hkeys, t, u, v, ht, hu, hv, hfailure, hconsole⟩

end Session
end Chip8
