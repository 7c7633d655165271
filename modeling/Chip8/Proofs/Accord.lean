import Chip8.Proofs.Course
import Chip8.Proofs.Restart

/-!
# Tone, timer and program in accord

The tone, the machine, the mode and the program that is kept are changed by different keys and in a
different order each. As long as no tick ends in a fault, they stay in accord: a session that is
paused is silent, the tone is on only while the sound timer runs, and the program that is kept can
always be started again.
-/

namespace Chip8

namespace Session

variable {w h : Nat}

/-- No tick on the way ends in a fault. -/
def Faultless (s : Session w h) (stimuli : List Stimulus) : Prop :=
  ∀ earlier later f, stimuli = earlier ++ .tick :: later →
    (s.course earlier).tick.outcome.failure? ≠ some (.fault f)

/-- A session of a variant in which the parts that different keys change fit together. -/
structure InAccord (v : Variant) (s : Session w h) : Prop where
  inRange : s.machine.InRange
  variant_eq : s.machine.variant = v
  program_fits : s.program.length ≤ programCapacity
  silent_of_paused : s.mode = .paused → s.tone.playing = false
  sounding_of_playing : s.tone.playing = true → s.machine.sounding = true

section InAccord

variable {v : Variant} {s : Session w h}

theorem inAccord_of_silent {t : Session w h} (hrange : t.machine.InRange)
    (hvariant : t.machine.variant = v) (hfits : t.program.length ≤ programCapacity)
    (hsilent : t.tone.playing = false) : InAccord v t where
  inRange := hrange
  variant_eq := hvariant
  program_fits := hfits
  silent_of_paused := fun _ => hsilent
  sounding_of_playing := fun hplaying => by
    rw [hsilent] at hplaying
    contradiction

theorem inAccord_reacts {t : Session w h} (hs : InAccord v s) (hst : Reacts s t) :
    InAccord v t := by
  have hsilent : (s.tone.update false).1.playing = false := s.tone.playing_update false
  have hrange := inRange_reacts hs.inRange hst
  cases hst with
  | nothing => exact hs
  | quit =>
    exact ⟨hrange, hs.variant_eq, hs.program_fits, fun hmode => Mode.noConfusion hmode,
      hs.sounding_of_playing⟩
  | pause _ => exact inAccord_of_silent hrange hs.variant_eq hs.program_fits hsilent
  | resume _ =>
    exact ⟨hrange, hs.variant_eq, hs.program_fits, fun hmode => Mode.noConfusion hmode,
      hs.sounding_of_playing⟩
  | restart hreset =>
    have hvariant := (Machine.variant_of_reset hreset).trans hs.variant_eq
    exact inAccord_of_silent hrange hvariant hs.program_fits hsilent
  | refuse => exact inAccord_of_silent hrange hs.variant_eq hs.program_fits hsilent
  | replace hreset =>
    have hvariant := (Machine.variant_of_reset hreset).trans hs.variant_eq
    have hfits := (Machine.eq_restarted_of_reset hreset).1
    exact inAccord_of_silent hrange hvariant hfits hsilent
  | fade _ =>
    exact ⟨hrange, hs.variant_eq, hs.program_fits, hs.silent_of_paused, hs.sounding_of_playing⟩
  | volume delta =>
    have hplaying : (s.adjustVolume delta).1.tone.playing = s.tone.playing :=
      s.tone.playing_adjustVolume delta
    refine ⟨hrange, hs.variant_eq, hs.program_fits, fun hmode => ?_, fun hon => ?_⟩
    · rw [hplaying]
      exact hs.silent_of_paused hmode
    · rw [hplaying] at hon
      exact hs.sounding_of_playing hon
  | latch _ _ =>
    exact ⟨hrange, hs.variant_eq, hs.program_fits, hs.silent_of_paused, hs.sounding_of_playing⟩

theorem variant_tick (s : Session w h) : s.tick.state.machine.variant = s.machine.variant := by
  refine tick_keeps (P := fun t => t.machine.variant = s.machine.variant) (fun t ht => ?_)
    (fun _ ht => ht) (fun t ht => ?_) rfl
  · have hstep : t.console.step.state.machine.variant = t.console.machine.variant :=
      t.console.variant_move .step
    simp only [instruction, Act.state, Outcome.state_map]
    exact hstep.trans ht
  · rw [machine, console_refresh]
    exact ht

theorem inAccord_refresh (hs : InAccord v s) : InAccord v s.refresh.1 := by
  have hagrees := agrees_refresh s
  have hconsole : s.refresh.1.machine = { s.machine with redraw := false } := by
    rw [machine, console_refresh]
  refine ⟨inRange_refresh hs.inRange, ?_, ?_, fun hmode => ?_, fun hon => ?_⟩
  · rw [hconsole]
    exact hs.variant_eq
  · rw [hagrees.program_eq]
    exact hs.program_fits
  · rw [tone_refresh]
    exact hs.silent_of_paused (hagrees.mode_eq ▸ hmode)
  · rw [tone_refresh] at hon
    rw [hconsole]
    exact hs.sounding_of_playing hon

theorem inAccord_tick (hs : InAccord v s)
    (hfault : ∀ f, s.tick.outcome.failure? ≠ some (.fault f)) : InAccord v s.tick.state := by
  have hagrees := agrees_tick s
  by_cases hmode : s.mode = .running
  · cases hticked : s.tick.outcome with
    | done t =>
      have hstate : s.tick.state = t := by rw [Act.state, hticked, Outcome.state_done]
      have hsound := playing_of_tick hmode hticked
      have hrange := inRange_respond hs.inRange .tick
      have hvariant := (variant_tick s).trans hs.variant_eq
      simp only [respond, hstate] at hrange hvariant hagrees ⊢
      refine ⟨hrange, hvariant, hagrees.program_eq ▸ hs.program_fits, fun hpaused => ?_,
        fun hon => hsound ▸ hon⟩
      rw [hagrees.mode_eq, hmode] at hpaused
      contradiction
    | failed why t =>
      rcases fault_or_eq_of_tick hs.inRange hticked with ⟨f, rfl⟩ | rfl
      · exact absurd (by rw [hticked, Outcome.failure?_failed]) (hfault f)
      · rw [Act.state, hticked, Outcome.state_failed]
        exact hs
  · rw [Act.state, tick_of_ne_running hmode, Outcome.state_done]
    exact inAccord_refresh hs

theorem inAccord_course (hs : InAccord v s) {stimuli : List Stimulus}
    (hfaultless : s.Faultless stimuli) : InAccord v (s.course stimuli) := by
  refine course_keeps (fun earlier a later hstimuli ht => ?_) hs
  cases a with
  | event e => exact handle_keeps (fun _ _ => inAccord_reacts) ht e
  | tick => exact inAccord_tick ht fun f => hfaultless earlier later f hstimuli

end InAccord

/-- Whatever has come to a session since it was started, as long as no tick has ended in a fault: it
is silent while it is paused; its tone is on only while the sound timer runs, and behind a completed
tick of a session that runs exactly then; and its program fits, so that it can be started again and
then gives the machine that is built with it, marked to be shown. -/
theorem tone_and_program_in_accord (hw : 0 < w) (hh : 0 < h) {c : Config} {program : List UInt8}
    {noise : Noise} {desk : Desk} {s : Session w h} {launched : List Effect}
    (hstart : start w h c program noise desk = .ok (s, launched)) {stimuli : List Stimulus}
    (hfaultless : s.Faultless stimuli) :
    ((s.course stimuli).mode = .paused → (s.course stimuli).tone.playing = false) ∧
    ((s.course stimuli).tone.playing = true → (s.course stimuli).machine.sound ≠ 0) ∧
    (∀ t, (s.course stimuli).tick.outcome = .done t → t.mode = .running →
      (t.tone.playing = true ↔ t.machine.sound ≠ 0)) ∧
    (s.course stimuli).program.length ≤ programCapacity ∧
    ∃ built t, Machine.create w h c.variant (s.course stimuli).program = .ok built ∧
      (s.course stimuli).reset.outcome = .done t ∧ t.machine = built.marked := by
  obtain ⟨hp, tone, display, htone, _, rfl⟩ := eq_ofMachine_of_start hstart
  have hstarted : InAccord c.variant
      (ofMachine c (Machine.loaded w h c.variant program) noise desk program tone.1 display.1) :=
    inAccord_of_silent (Machine.inRange_loaded hw hh c.variant hp false) rfl hp
      (Tone.made_of_ofConfig htone).1
  have hcourse := inAccord_course hstarted hfaultless
  generalize (ofMachine c (Machine.loaded w h c.variant program) noise desk program tone.1
    display.1).course stimuli = t at hcourse
  have hsounding (m : Machine w h) : m.sounding = true ↔ m.sound ≠ 0 := bne_iff_ne
  refine ⟨hcourse.silent_of_paused, fun hon => ?_, fun u hticked hmode => ?_,
    hcourse.program_fits, ?_⟩
  · exact (hsounding t.machine).mp (hcourse.sounding_of_playing hon)
  · rw [(agrees_of_tick hticked).mode_eq] at hmode
    rw [playing_of_tick hmode hticked]
    exact hsounding u.machine
  · have hreset := Machine.reset_eq t.machine hcourse.program_fits
    rw [Machine.restarted_eq, hcourse.variant_eq] at hreset
    exact ⟨_, _, Machine.create_eq c.variant hcourse.program_fits, outcome_reset hreset, rfl⟩

/-- A session that is made louder and paused behind a tick is silent, and can be reset. -/
theorem tone_and_program_in_accord_paused :
    ∃ (s : Session 64 32) (launched : List Effect),
      start 64 32 {} [0x12, 0x00] (Noise.cycle []) ⟨fun _ => .error .missing, []⟩ =
        .ok (s, launched) ∧
      s.Faultless [.tick, .event (.key true 112 0), .event (.key true 32 0)] ∧
      ∃ t, s.course [.tick, .event (.key true 112 0), .event (.key true 32 0)] = t ∧
        (t.mode = .paused → t.tone.playing = false) ∧
        ∃ built u, Machine.create 64 32 .chip8 t.program = .ok built ∧
          t.reset.outcome = .done u ∧ u.machine = built.marked := by
  obtain ⟨s, launched, ticked, hstart, hticked⟩ := start_standstill
  have hfaultless :
      s.Faultless [.tick, .event (.key true 112 0), .event (.key true 32 0)] := by
    intro earlier later f hstimuli
    match earlier with
    | [] =>
      show s.tick.outcome.failure? ≠ _
      rw [hticked]
      exact Outcome.failure?_done_ne ticked (.fault f)
    | [_] | [_, _] | _ :: _ :: _ :: _ => simp at hstimuli
  obtain ⟨hpaused, _, _, _, hreset⟩ :=
    tone_and_program_in_accord (by decide) (by decide) hstart hfaultless
  exact ⟨s, launched, hstart, hfaultless, _, rfl, hpaused, hreset⟩

end Session
end Chip8
