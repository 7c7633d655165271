import Chip8.Proofs.Handling
import Chip8.Proofs.Range

/-!
# Courses

What happens to a session from outside: events come in one by one, and ticks pass between them. The
session goes on from the state that was reached, also where an event or a tick stopped short.
`Reacts` lists all that an event can do, and a tick is made of instructions, the timers and the
picture; what each of these keeps is kept by every course of a session. What has to be said of their
effects as well goes from the parts to the whole in the same way, if it composes.
-/

namespace Chip8

/-- What comes to a session: an event, or the next tick. -/
inductive Stimulus
  | event (e : Event)
  | tick
  deriving DecidableEq

theorem Act.andThen_keeps {σ : Type} {P : σ → Prop} {a : Act σ} {f : σ → Act σ} (ha : P a.state)
    (hf : ∀ s, P s → P (f s).state) : P (a.andThen f).state := by
  simp only [Act.state, Act.outcome_andThen] at ha ⊢
  cases houtcome : a.outcome with
  | done s =>
    rw [houtcome] at ha
    exact hf s ha
  | failed why s =>
    rw [houtcome] at ha
    exact ha

namespace Session

variable {w h : Nat}

def respond (s : Session w h) : Stimulus → Act (Session w h)
  | .event e => s.handle e
  | .tick => s.tick

/-- The session after some stimuli, whether or not it responded to the end. -/
def course (s : Session w h) : List Stimulus → Session w h
  | [] => s
  | a :: stimuli => (s.respond a).state.course stimuli

theorem course_concat (s : Session w h) (earlier : List Stimulus) (a : Stimulus) :
    s.course (earlier ++ [a]) = ((s.course earlier).respond a).state := by
  induction earlier generalizing s with
  | nil => rfl
  | cons b earlier ih => exact ih (s.respond b).state

theorem course_keeps {P : Session w h → Prop} {s : Session w h} {stimuli : List Stimulus}
    (hrespond : ∀ earlier a later, stimuli = earlier ++ a :: later → P (s.course earlier) →
      P ((s.course earlier).respond a).state)
    (hs : P s) : P (s.course stimuli) := by
  induction stimuli generalizing s with
  | nil => exact hs
  | cons a stimuli ih =>
    have hfirst : P (s.respond a).state := hrespond [] a stimuli rfl hs
    exact ih (fun earlier b later hstimuli =>
      hrespond (a :: earlier) b later (congrArg (a :: ·) hstimuli)) hfirst

/-- A relation between sessions and what is done to them that goes from parts to the whole. -/
structure Composes (R : Session w h → Act (Session w h) → Prop) : Prop where
  idle : ∀ s, R s (.idle s)
  andThen : ∀ {s a f}, R s a → (∀ t, R t (f t)) → R s (a.andThen f)

theorem composes_keeps (P : Session w h → Prop) :
    Composes fun (s : Session w h) a => P s → P a.state where
  idle := fun _ hs => hs
  andThen := fun ha hf hs => Act.andThen_keeps (ha hs) hf

section Composes

variable {R : Session w h → Act (Session w h) → Prop} (hR : Composes R)
include hR

theorem handle_of_composes (hhotkey : ∀ s key, R s (s.hotkey key))
    (hkeypad : ∀ s down code, R s (s.keypad down code)) (s : Session w h) (e : Event) :
    R s (s.handle e) := by
  cases e with
  | quit => exact hhotkey s .quit
  | other => exact hR.idle s
  | key down code modifiers =>
    cases down with
    | false => exact hkeypad s false code
    | true =>
      simp only [handle]
      split
      · exact hkeypad s true code
      · exact hhotkey s .quit
      · exact hR.andThen (hhotkey s _) fun t => hkeypad t true code

theorem handleAll_of_composes (hhandle : ∀ s e, R s (s.handle e)) (s : Session w h)
    (events : List Event) : R s (s.handleAll events) := by
  induction events generalizing s with
  | nil => exact hR.idle s
  | cons e events ih => exact hR.andThen (hhandle s e) ih

theorem instructions_of_composes (hinstruction : ∀ s, R s s.instruction) (s : Session w h)
    (n : Nat) : R s (s.instructions n) := by
  induction n generalizing s with
  | zero => exact hR.idle s
  | succ n ih => exact hR.andThen (hinstruction s) ih

theorem tick_of_composes (hinstruction : ∀ s, R s s.instruction)
    (htimers : ∀ s, R s (.ofPair s.timers)) (hrefresh : ∀ s, R s (.ofPair s.refresh))
    (hblank : ∀ s, R s ⟨[], .failed (.blank .speed) s⟩) (s : Session w h) : R s s.tick := by
  have hplay : R s s.play := by
    unfold play
    split
    · exact hR.andThen (instructions_of_composes hR hinstruction s _) htimers
    · exact hblank s
  unfold tick
  refine hR.andThen ?_ hrefresh
  split
  · exact hplay
  · exact hR.idle s

end Composes

/-- What a key or the window may do to a session. -/
inductive Reacts (s : Session w h) : Session w h → Prop
  | nothing : Reacts s s
  | quit : Reacts s { s with mode := .quit }
  | pause (hmode : s.mode = .running) : Reacts s { (s.setTone false).1 with mode := .paused }
  | resume (hmode : s.mode = .paused) : Reacts s { s with mode := .running }
  | restart {m : Machine w h} (hreset : s.machine.reset s.program = .done m) :
      Reacts s (s.renewed m)
  | refuse : Reacts s { (s.setTone false).1 with desk := s.desk.afterPick }
  | replace {program : List UInt8} {m : Machine w h}
      (hreset : s.machine.reset program = .done m) :
      Reacts s
        { s.renewed m with desk := s.desk.afterPick, program := program, mode := .running }
  | fade (delta : Float) : Reacts s (s.adjustRate delta).1
  | volume (delta : Int) : Reacts s (s.adjustVolume delta).1
  | latch (k : Key) (held : Bool) : Reacts s (s.withMachine (s.machine.latch k held))

theorem state_changeProgram_of_unopened {s : Session w h} (hunopened : s.desk.opened? = none) :
    s.changeProgram.state = { (s.setTone false).1 with desk := s.desk.afterPick } := by
  cases hpick : s.desk.pick? with
  | none => simp only [changeProgram, hpick, Act.state, Outcome.state_done]
  | some p =>
    cases hread : s.desk.readProgram p with
    | error why =>
      have hafter : s.desk.afterPick.readProgram p = .error why := hread
      cases why <;> simp only [changeProgram, hpick, loadPath, hafter, Act.state,
        Outcome.state_done, Outcome.state_failed]
    | ok program =>
      have hlarge := Desk.lt_length_of_unopened hpick hread hunopened
      have hafter : s.desk.afterPick.readProgram p = .ok program := hread
      simp only [changeProgram, hpick, loadPath, hafter, outcome_replaceProgram_of_lt _ p hlarge,
        Act.state, Outcome.state_done]

theorem reacts_pauseOrResume (s : Session w h) : Reacts s s.pauseOrResume.1 := by
  unfold pauseOrResume
  cases hmode : s.mode with
  | running => exact .pause hmode
  | paused => exact .resume hmode
  | quit => exact .nothing

theorem reacts_reset (s : Session w h) : Reacts s s.reset.state := by
  by_cases hfits : s.program.length ≤ programCapacity
  · have hreset := Machine.reset_eq s.machine hfits
    rw [Act.state, outcome_reset hreset]
    exact .restart hreset
  · have hlarge := Machine.reset_of_lt s.machine (Nat.lt_of_not_le hfits)
    simp only [reset, hlarge, Act.state]
    exact .nothing

theorem reacts_changeProgram (s : Session w h) : Reacts s s.changeProgram.state := by
  cases hopened : s.desk.opened? with
  | none =>
    rw [state_changeProgram_of_unopened hopened]
    exact .refuse
  | some found =>
    obtain ⟨hpick, hread, hfits⟩ := Desk.opened?_eq_some_iff.mp hopened
    have hreset := Machine.reset_eq s.machine hfits
    rw [Act.state, outcome_changeProgram_of_opened hpick hread hreset]
    exact .replace hreset

theorem reacts_hotkey (s : Session w h) (key : Keyboard.Hotkey) : Reacts s (s.hotkey key).state := by
  cases key with
  | quit => exact .quit
  | pause => exact reacts_pauseOrResume s
  | reset => exact reacts_reset s
  | load => exact reacts_changeProgram s
  | fade faster => exact .fade _
  | volume louder => exact .volume _

theorem reacts_keypad (s : Session w h) (down : Bool) (code : Int) :
    Reacts s (s.keypad down code).state := by
  unfold keypad
  split
  · exact .latch _ down
  · exact .nothing

theorem outcome_handleAll_append (s : Session w h) (first second : List Event) :
    (s.handleAll (first ++ second)).outcome =
      (s.handleAll first).outcome.andThen fun t => (t.handleAll second).outcome := by
  induction first generalizing s with
  | nil => rfl
  | cons e first ih =>
    simp only [List.cons_append, handleAll, Act.outcome_andThen, ih]
    cases (s.handle e).outcome <;> rfl

/-- A property that every reaction keeps is kept by every event. -/
theorem handle_keeps {P : Session w h → Prop} (hP : ∀ s t, P s → Reacts s t → P t)
    {s : Session w h} (hs : P s) (e : Event) : P (s.handle e).state :=
  handle_of_composes (composes_keeps P) (fun s key hs => hP s _ hs (reacts_hotkey s key))
    (fun s down code hs => hP s _ hs (reacts_keypad s down code)) s e hs

/-- A property that instructions, the timers and the picture keep is kept by every tick. -/
theorem tick_keeps {P : Session w h → Prop} (hinstruction : ∀ s, P s → P s.instruction.state)
    (htimers : ∀ s, P s → P s.timers.1) (hrefresh : ∀ s, P s → P s.refresh.1) {s : Session w h}
    (hs : P s) : P s.tick.state :=
  tick_of_composes (composes_keeps P) hinstruction htimers hrefresh (fun _ hs => hs) s hs

/-- Nothing that the player decides on differs. -/
structure Agrees (s t : Session w h) : Prop where
  desk_eq : t.desk = s.desk
  program_eq : t.program = s.program
  mode_eq : t.mode = s.mode

theorem agrees_refl (s : Session w h) : Agrees s s := ⟨rfl, rfl, rfl⟩

theorem agrees_trans {s t u : Session w h} (hst : Agrees s t) (htu : Agrees t u) : Agrees s u :=
  ⟨htu.desk_eq.trans hst.desk_eq, htu.program_eq.trans hst.program_eq,
    htu.mode_eq.trans hst.mode_eq⟩

theorem agrees_instruction (s : Session w h) : Agrees s s.instruction.state := by
  simp only [instruction, Act.state, Outcome.state_map]
  exact ⟨rfl, rfl, rfl⟩

theorem agrees_refresh (s : Session w h) : Agrees s s.refresh.1 := by
  unfold refresh
  split
  · exact ⟨rfl, rfl, rfl⟩
  · exact agrees_refl s

theorem agrees_tick (s : Session w h) : Agrees s s.tick.state :=
  tick_keeps (P := Agrees s) (fun t ht => agrees_trans ht (agrees_instruction t))
    (fun _ ht => agrees_trans ht ⟨rfl, rfl, rfl⟩)
    (fun t ht => agrees_trans ht (agrees_refresh t)) (agrees_refl s)

theorem agrees_of_tick {s t : Session w h} (hticked : s.tick.outcome = .done t) : Agrees s t := by
  have htick := agrees_tick s
  rwa [Act.state, hticked] at htick

theorem ready_of_agrees {s t : Session w h} (hst : Agrees s t) (hs : s.Ready) : t.Ready :=
  ⟨hst.program_eq ▸ hs.program_fits, hst.desk_eq ▸ hs.nulFree⟩

/-- Whether or not the picture is drawn, behind it nothing is left to be shown. -/
theorem console_refresh (s : Session w h) :
    s.refresh.1.console = { s.console with machine := { s.machine with redraw := false } } := by
  unfold refresh
  by_cases hshow : s.machine.redraw || s.display.fading
  · rw [if_pos hshow]
    rfl
  · rw [if_neg hshow]
    have hredraw : s.console.machine.redraw = false := by
      simp only [Bool.or_eq_true, not_or, Bool.not_eq_true] at hshow
      exact hshow.1
    simp only [machine, ← hredraw]

theorem tone_refresh (s : Session w h) : s.refresh.1.tone = s.tone := by
  unfold refresh
  split <;> rfl

theorem budget_refresh (s : Session w h) : s.refresh.1.budget = s.budget := by
  unfold refresh
  split <;> rfl

theorem tick_of_ne_running {s : Session w h} (hmode : s.mode ≠ .running) :
    s.tick.outcome = .done s.refresh.1 := by
  simp only [tick, if_neg hmode, Act.outcome_andThen, Act.outcome_idle]
  rfl

theorem exists_refresh_of_tick {s t : Session w h} (hticked : s.tick.outcome = .done t) :
    ∃ u, t = u.refresh.1 ∧ (if s.mode = .running then s.play else .idle s).outcome = .done u := by
  simp only [tick, Act.outcome_andThen] at hticked
  cases hplayed : (if s.mode = .running then s.play else .idle s).outcome with
  | done u =>
    rw [hplayed] at hticked
    exact ⟨u, (Outcome.done.inj hticked).symm, rfl⟩
  | failed why u =>
    rw [hplayed] at hticked
    contradiction

theorem redraw_of_tick {s t : Session w h} (hticked : s.tick.outcome = .done t) :
    t.machine.redraw = false := by
  obtain ⟨u, rfl, _⟩ := exists_refresh_of_tick hticked
  rw [machine, console_refresh]

/-- Behind a completed tick of a session that runs, the tone is on exactly while the machine asks
for it. -/
theorem playing_of_tick {s t : Session w h} (hmode : s.mode = .running)
    (hticked : s.tick.outcome = .done t) : t.tone.playing = t.machine.sounding := by
  obtain ⟨u, rfl, hplayed⟩ := exists_refresh_of_tick hticked
  rw [if_pos hmode] at hplayed
  have htimed : u.tone.playing = u.machine.sounding := by
    unfold play at hplayed
    split at hplayed
    · rename_i n _
      rw [Act.outcome_andThen] at hplayed
      cases hinstructions : (s.instructions n).outcome with
      | done v =>
        rw [hinstructions] at hplayed
        obtain rfl := Outcome.done.inj hplayed
        exact Tone.playing_update v.tone v.machine.decay.sounding
      | failed why v =>
        rw [hinstructions] at hplayed
        contradiction
    · contradiction
  rw [tone_refresh, htimed, machine, machine, console_refresh]
  rfl

theorem inRange_reacts {s t : Session w h} (hs : s.machine.InRange) (hst : Reacts s t) :
    t.machine.InRange := by
  cases hst with
  | restart hreset | replace hreset => exact Machine.inRange_of_reset hs hreset
  | latch k held => exact Machine.inRange_latch hs k held
  | _ => exact hs

theorem inRange_instruction {s : Session w h} (hs : s.machine.InRange) :
    s.instruction.state.machine.InRange := by
  simp only [instruction, Act.state, Outcome.state_map]
  exact (Console.step_inRange hs).1

theorem inRange_refresh {s : Session w h} (hs : s.machine.InRange) :
    s.refresh.1.machine.InRange := by
  rw [machine, console_refresh]
  exact { hs with toWellFormed := { hs.toWellFormed with } }

theorem exists_fault_of_instructions {s t : Session w h} (hs : s.machine.InRange) {n : Nat}
    {why : Failure} (hfailed : (s.instructions n).outcome = .failed why t) :
    ∃ f, why = .fault f := by
  induction n generalizing s with
  | zero => contradiction
  | succ n ih =>
    simp only [instructions, instruction, Act.outcome_andThen] at hfailed
    have hrange := (Console.step_inRange hs).1
    cases hstep : s.console.step with
    | done c =>
      rw [hstep] at hfailed hrange
      exact ih (s := { s with console := c }) hrange hfailed
    | failed reason c =>
      rw [hstep] at hfailed
      obtain ⟨rfl, _⟩ := Outcome.failed.inj hfailed
      exact Console.exists_fault_of_step hs (by rw [hstep, Outcome.failure?_failed])

theorem exists_fault_of_tick {s t : Session w h} (hs : s.machine.InRange) {n : Nat}
    (hbudget : s.budget = some n) {why : Failure} (hticked : s.tick.outcome = .failed why t) :
    ∃ f, why = .fault f := by
  by_cases hmode : s.mode = .running
  · simp only [tick, if_pos hmode, play, hbudget, Act.outcome_andThen] at hticked
    cases hplayed : (s.instructions n).outcome with
    | done u =>
      rw [hplayed] at hticked
      contradiction
    | failed reason u =>
      rw [hplayed] at hticked
      obtain ⟨rfl, _⟩ := Outcome.failed.inj hticked
      exact exists_fault_of_instructions hs hplayed
  · rw [tick_of_ne_running hmode] at hticked
    contradiction

/-- Within the ranges a tick that fails ends in a fault, unless it has done nothing at all. -/
theorem fault_or_eq_of_tick {s t : Session w h} (hs : s.machine.InRange) {why : Failure}
    (hticked : s.tick.outcome = .failed why t) : (∃ f, why = .fault f) ∨ t = s := by
  cases hbudget : s.budget with
  | some n => exact .inl (exists_fault_of_tick hs hbudget hticked)
  | none =>
    by_cases hmode : s.mode = .running
    · simp only [tick, if_pos hmode, play, hbudget, Act.outcome_andThen] at hticked
      exact .inr (Outcome.failed.inj hticked).2.symm
    · rw [tick_of_ne_running hmode] at hticked
      contradiction

theorem inRange_respond {s : Session w h} (hs : s.machine.InRange) (a : Stimulus) :
    (s.respond a).state.machine.InRange := by
  cases a with
  | event e => exact handle_keeps (P := (·.machine.InRange)) (fun _ _ => inRange_reacts) hs e
  | tick =>
    exact tick_keeps (P := (·.machine.InRange)) (fun _ => inRange_instruction)
      (fun _ => Machine.inRange_decay) (fun _ => inRange_refresh) hs

end Session

theorem Machine.current_loaded_jump_self {w h : Nat} (v : Variant) {program : List UInt8}
    (hp : (0x12 :: 0x00 :: program).length ≤ programCapacity) :
    (loaded w h v (0x12 :: 0x00 :: program)).current = .jump 512 := by
  rw [current, word_loaded v hp]
  rfl

namespace Console

variable {w h : Nat}

theorem step_of_jump_self {c : Console w h} (hc : c.machine.InRange)
    (hin : c.machine.counter + 1 < memorySize) {a : Fin 4096}
    (hcurrent : c.machine.current = .jump a) (hcounter : c.machine.counter = (a : Nat)) :
    c.step = .done c := by
  have hnext : c.next = c := by
    simp only [next, hcurrent, Machine.result, Machine.advance_eq hc.counter_mem.1 hin, ← hcounter]
    rfl
  rcases step_cases hc.toWellFormed hc.counter_mem.1 with
    ⟨hout, _⟩ | ⟨_, why, hobstacle, _⟩ | ⟨_, _, hstep⟩
  · omega
  · rw [hcurrent] at hobstacle
    contradiction
  · rw [hstep, hnext]

end Console

namespace Session

variable {w h : Nat}

/-- A game at a jump to itself goes on for ever: of its ticks only the timers and the picture are
left. -/
theorem tick_of_jump_self {s : Session w h} (hs : s.machine.InRange) (hmode : s.mode = .running)
    {n : Nat} (hbudget : s.budget = some n) (hin : s.machine.counter + 1 < memorySize)
    {a : Fin 4096} (hcurrent : s.machine.current = .jump a)
    (hcounter : s.machine.counter = (a : Nat)) :
    s.tick.outcome = .done s.timers.1.refresh.1 := by
  have hinstruction : s.instruction.outcome = .done s := by
    simp only [instruction, Console.step_of_jump_self hs hin hcurrent hcounter]
    rfl
  have hinstructions (k : Nat) : (s.instructions k).outcome = .done s := by
    induction k with
    | zero => rfl
    | succ k ih =>
      simp only [instructions, Act.outcome_andThen, hinstruction]
      exact ih
  simp only [tick, if_pos hmode, play, hbudget, Act.outcome_andThen, hinstructions]
  rfl

theorem start_standstill :
    ∃ (s : Session 64 32) (launched : List Effect) (t : Session 64 32),
      start 64 32 {} [0x12, 0x00] (Noise.cycle []) ⟨fun _ => .error .missing, []⟩ =
        .ok (s, launched) ∧
      s.tick.outcome = .done t := by
  have hp : ([0x12, 0x00] : List UInt8).length ≤ programCapacity := by decide
  have hstart := start_eq (w := 64) (h := 32) (c := {}) hp rfl rfl (Noise.cycle [])
    ⟨fun _ => .error .missing, []⟩
  have hrange : (Machine.loaded 64 32 .chip8 [0x12, 0x00]).InRange :=
    Machine.inRange_loaded (by decide) (by decide) .chip8 hp false
  exact ⟨_, _, _, hstart, tick_of_jump_self (n := budgetAt 700) hrange rfl rfl (by decide)
    (Machine.current_loaded_jump_self .chip8 hp) rfl⟩

end Session
end Chip8
