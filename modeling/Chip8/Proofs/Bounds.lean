import Chip8.Proofs.Blanks
import Chip8.Proofs.Launching
import Chip8.Proofs.Waveform

/-!
# Numbers that a session can go by

The options that arguments choose are within their ranges unless a value was left blank, and a
session that starts within the ranges stays there, however often its volume and its fade rate are
changed. So nothing that a wave is reckoned with is zero where it is divided by, and no sample has to
be wrapped into sixteen bits.
-/

namespace Chip8

/-- Some samples are the wave of a tone: there is something to divide by wherever they are reckoned,
and each of them is the volume or its opposite, not wrapped. -/
structure Tone.Exact (t : Tone) (samples : List Int) : Prop where
  frequency_pos : 1 ≤ t.frequency
  halfPeriod_pos : 1 ≤ Wave.halfPeriod t.sampleRate t.frequency
  reckoned : Wave.square? t.sampleRate t.frequency t.volume = .ok samples
  length_eq : samples.length = t.sampleRate
  unwrapped : samples = (List.range t.sampleRate.toNat).map fun i =>
    if i / Wave.halfPeriod t.sampleRate t.frequency % 2 = 1 then t.volume else -t.volume
  level : ∀ x ∈ samples, x = t.volume ∨ x = -t.volume

structure Tone.InRange (t : Tone) : Prop where
  sampleRate_pos : 1 ≤ t.sampleRate
  frequency_pos : 1 ≤ t.frequency
  volume_mem : 0 ≤ t.volume ∧ t.volume ≤ volumeLimit

theorem Tone.exact_samples {t : Tone} (ht : t.InRange) : t.Exact t.samples := by
  have hsquare := Wave.square_of_mem t.sampleRate t.frequency ht.volume_mem
  have hrate := ht.sampleRate_pos
  refine {
    frequency_pos := ht.frequency_pos
    halfPeriod_pos := Wave.halfPeriod_pos _ _
    reckoned := if_neg t.frequency_ne_zero
    length_eq := ?_
    unwrapped := hsquare
    level := fun x hx => ?_ }
  · rw [samples, Wave.length_square]
    omega
  · rw [samples, hsquare] at hx
    obtain ⟨i, -, rfl⟩ := List.mem_map.mp hx
    split
    · exact .inl rfl
    · exact .inr rfl

def Request.samples? : Request → Option (List Int)
  | .addSound _ samples => some samples
  | _ => none

def Effect.waves (effects : List Effect) : List (List Int) :=
  (sounds effects).filterMap Request.samples?

theorem Effect.waves_append (first second : List Effect) :
    waves (first ++ second) = waves first ++ waves second := by
  simp only [waves, sounds_append, List.filterMap_append]

namespace Tone

variable {t u v : Tone}

/-- The wave of a tone is made anew exactly where the volume changes. -/
theorem waves_of_alters {asked : List Request} (htu : t.Alters u asked) :
    asked.filterMap Request.samples? = if u.volume = t.volume then [] else [u.samples] := by
  have hstop : (t.heard.map Request.stopSound).filterMap Request.samples? = [] := by
    simp [List.filterMap_map, Function.comp_def, Request.samples?]
  have hstart (v : Tone) : (v.heard.map Request.playForever).filterMap Request.samples? = [] := by
    simp [List.filterMap_map, Function.comp_def, Request.samples?]
  cases htu with
  | nothing => rw [if_pos rfl, List.filterMap_nil]
  | turn _ => rw [if_pos rfl, List.filterMap_append, hstop, hstart, List.nil_append]
  | renew hchanged =>
    rw [if_neg hchanged, List.filterMap_append, hstop, List.nil_append]
    exact congrArg (_ :: ·) (hstart _)

/-- Two tones that sound alike while they are on. -/
structure Alike (t u : Tone) : Prop where
  sampleRate_eq : u.sampleRate = t.sampleRate
  frequency_eq : u.frequency = t.frequency
  volume_eq : u.volume = t.volume

theorem Alike.samples_eq (htu : t.Alike u) : u.samples = t.samples := by
  rw [samples, samples, htu.sampleRate_eq, htu.frequency_eq, htu.volume_eq]

theorem waves_of_turned {effects : List Effect} (htu : t.Turned effects u) :
    Effect.waves effects = [] ∧ t.Alike u := by
  obtain ⟨turns, rfl, hsounds⟩ := htu
  rw [Effect.waves, hsounds]
  clear hsounds
  induction turns generalizing t with
  | nil => exact ⟨rfl, rfl, rfl, rfl⟩
  | cons active turns ih =>
    have halters := t.alters_update active
    obtain ⟨hrate, hfrequency, -⟩ := wave_of_alters halters
    have hvolume := t.volume_update active
    obtain ⟨hquiet, hrest⟩ := ih (t := (t.update active).1)
    have hfirst : (Effect.sounds (t.update active).2).filterMap Request.samples? = [] := by
      rw [waves_of_alters halters, if_pos hvolume]
    refine ⟨?_, hrest.sampleRate_eq.trans hrate, hrest.frequency_eq.trans hfrequency,
      hrest.volume_eq.trans hvolume⟩
    simp only [List.map_cons, obeyAll, obey, Effect.sounds_append, List.filterMap_append, hfirst,
      hquiet, List.append_nil]

theorem inRange_of_commanded {effects : List Effect} (ht : t.InRange)
    (htu : t.Commanded effects u) : u.InRange := by
  obtain ⟨commands, rfl, -⟩ := htu
  obtain ⟨hrate, hfrequency⟩ := t.pitch_obeyAll commands
  exact ⟨hrate ▸ ht.sampleRate_pos, hfrequency ▸ ht.frequency_pos,
    volume_obeyAll_mem ht.volume_mem commands⟩

end Tone

def Display.RateInRange {w h : Nat} (d : Display w h) : Prop := 0.1 ≤ d.rate ∧ d.rate ≤ 1.0

namespace Session

variable {w h : Nat}

/-- A session whose tone and whose fade rate are within range. -/
structure Moderate (s : Session w h) : Prop where
  tone_inRange : s.tone.InRange
  rate_inRange : s.display.RateInRange

/-- An activity on a session makes a wave exactly where it changes the volume, and then that of the
tone behind it. -/
def Announces (s : Session w h) (a : Act (Session w h)) : Prop :=
  Effect.waves a.effects =
    if a.state.tone.volume = s.tone.volume then [] else [a.state.tone.samples]

theorem announces_of_turns {s : Session w h} {a : Act (Session w h)} (ha : s.Turns a) :
    s.Announces a := by
  obtain ⟨hquiet, halike⟩ := Tone.waves_of_turned ha
  rw [Announces, hquiet, if_pos halike.volume_eq]

theorem announces_adjustVolume (s : Session w h) (delta : Int) :
    s.Announces (.ofPair (s.adjustVolume delta)) :=
  Tone.waves_of_alters (s.tone.alters_adjustVolume delta)

theorem announces_andThen {s : Session w h} {a : Act (Session w h)}
    {f : Session w h → Act (Session w h)} (ha : s.Announces a) (hf : ∀ t, Turns t (f t)) :
    s.Announces (a.andThen f) := by
  unfold Announces Act.state at ha
  unfold Announces Act.andThen
  cases houtcome : a.outcome with
  | failed why t =>
    rw [houtcome] at ha
    exact ha
  | done t =>
    rw [houtcome] at ha
    obtain ⟨hquiet, halike⟩ := Tone.waves_of_turned (hf t)
    simp only [Effect.waves_append, hquiet, List.append_nil]
    rw [ha]
    show _ = if (f t).state.tone.volume = s.tone.volume then [] else [(f t).state.tone.samples]
    rw [halike.volume_eq, halike.samples_eq]
    rfl

theorem announces_hotkey (s : Session w h) (key : Keyboard.Hotkey) :
    s.Announces (s.hotkey key) := by
  rcases s.adjusts_or_turns_hotkey key with ⟨delta, hadjust⟩ | hturns
  · rw [hadjust]
    exact s.announces_adjustVolume delta
  · exact announces_of_turns hturns

theorem announces_handle (s : Session w h) (e : Event) : s.Announces (s.handle e) := by
  cases e with
  | quit => exact s.announces_hotkey .quit
  | other => exact announces_of_turns (composes_turns.idle s)
  | key down code modifiers =>
    cases down with
    | false => exact announces_of_turns (s.turns_keypad false code)
    | true =>
      simp only [handle]
      split
      · exact announces_of_turns (s.turns_keypad true code)
      · exact s.announces_hotkey .quit
      · exact announces_andThen (s.announces_hotkey _) fun t => t.turns_keypad true code

theorem announces_respond (s : Session w h) (a : Stimulus) : s.Announces (s.respond a) := by
  cases a with
  | event e => exact s.announces_handle e
  | tick => exact announces_of_turns s.turns_tick

theorem commands_respond (s : Session w h) (a : Stimulus) : s.Commands (s.respond a) := by
  cases a with
  | event e => exact s.commands_handle e
  | tick => exact s.commands_tick

theorem rate_reacts {s t : Session w h} (hs : s.display.RateInRange) (hst : Reacts s t) :
    t.display.RateInRange := by
  cases hst with
  | fade delta => exact Tenths.toFloat_mem (Tenths.one_le_nearest _) (Tenths.nearest_le_ten _)
  | _ => exact hs

theorem rate_instruction {s : Session w h} (hs : s.display.RateInRange) :
    s.instruction.state.display.RateInRange := by
  simp only [instruction, Act.state, Outcome.state_map]
  exact hs

theorem rate_refresh {s : Session w h} (hs : s.display.RateInRange) :
    s.refresh.1.display.RateInRange := by
  unfold refresh
  split <;> exact hs

theorem rate_respond {s : Session w h} (hs : s.display.RateInRange) (a : Stimulus) :
    (s.respond a).state.display.RateInRange := by
  cases a with
  | event e => exact handle_keeps (P := (·.display.RateInRange)) (fun _ _ => rate_reacts) hs e
  | tick =>
    exact tick_keeps (P := (·.display.RateInRange)) (fun _ => rate_instruction) (fun _ hs => hs)
      (fun _ => rate_refresh) hs

theorem moderate_course {s : Session w h} (hs : s.Moderate) (stimuli : List Stimulus) :
    (s.course stimuli).Moderate :=
  course_keeps (P := Moderate) (fun earlier a _ _ ht =>
    ⟨Tone.inRange_of_commanded ht.tone_inRange ((s.course earlier).commands_respond a),
      rate_respond ht.rate_inRange a⟩) hs

theorem start_of_inRange {missing : CommandLine.Switch → Prop} (hgiven : ∀ s, ¬missing s)
    {c : Config} (hc : c.InRange missing) {program : List UInt8}
    (hfits : program.length ≤ programCapacity) (noise : Noise) (desk : Desk) :
    ∃ (s : Session w h) (launched : List Effect),
      start w h c program noise desk = .ok (s, launched) ∧ s.Moderate ∧
      Effect.waves launched = [s.tone.samples] := by
  obtain ⟨foreground, hforeground, -⟩ := hc.foreground_mem.exists_of_not (hgiven _)
  obtain ⟨background, hbackground, -⟩ := hc.background_mem.exists_of_not (hgiven _)
  obtain ⟨frequency, hfrequency, hpitch⟩ := hc.frequency_mem.exists_of_not (hgiven _)
  obtain ⟨sampleRate, hsampleRate, hpos⟩ := hc.sampleRate_mem.exists_of_not (hgiven _)
  obtain ⟨tone, htone, rfl, rfl, hvolume⟩ :=
    Tone.ofConfig_of_given hsampleRate hfrequency (Int.ne_of_gt hpitch)
  have hdisplay : Display.ofConfig w h c =
      .ok (Display.make w h c (Color.rgb foreground) (Color.rgb background)) := by
    simp only [Display.ofConfig, hforeground, hbackground]
  refine ⟨_, _, start_eq hfits htone hdisplay noise desk, ?_, rfl⟩
  exact ⟨⟨hpos, hpitch, hvolume ▸ hc.volume_mem⟩, clampRate_mem c.fadeRate⟩

/-- Whatever the arguments are, the help is asked for, or they are wrong, or they leave blank what
every session needs, or the options that they choose are within range but for what they leave blank.
Options within range in which nothing is missing start a session whatever the screen and the program
that fits. Whatever then comes to the session, its volume and its fade rate stay within range; it
makes a wave at its start and where its volume changes, and every wave is reckoned without a division
by zero and without a wrapped sample. -/
theorem bounded_of_arguments (arguments : List String) :
    (CommandLine.parse arguments = .error .help ∨
      (∃ e, CommandLine.parse arguments = .error (.wrong e)) ∨
      (∃ s b, CommandLine.parse arguments = .error (.blank b) ∧
        (s, b) ∈ CommandLine.indispensable ∧ CommandLine.LeavesBlank arguments s) ∨
      ∃ c, CommandLine.parse arguments = .ok c ∧
        c.InRange (CommandLine.LeavesBlank arguments)) ∧
    ∀ {missing : CommandLine.Switch → Prop} {c : Config}, (∀ s, ¬missing s) → c.InRange missing →
      ∀ {w h : Nat} {program : List UInt8}, program.length ≤ programCapacity →
      ∀ (noise : Noise) (desk : Desk), ∃ (s : Session w h) (launched : List Effect),
        start w h c program noise desk = .ok (s, launched) ∧
        Effect.waves launched = [s.tone.samples] ∧
        ∀ stimuli : List Stimulus, (s.course stimuli).Moderate ∧
          (s.course stimuli).tone.Exact (s.course stimuli).tone.samples ∧
          ∀ a, (s.course stimuli).Announces ((s.course stimuli).respond a) ∧
            ((s.course stimuli).respond a).state = s.course (stimuli ++ [a]) := by
  refine ⟨?_, fun hgiven hc w h program hfits noise desk => ?_⟩
  · cases hparse : CommandLine.parse arguments with
    | ok c => exact .inr (.inr (.inr ⟨c, rfl, CommandLine.inRange_of_parse hparse⟩))
    | error why =>
      cases why with
      | help => exact .inl rfl
      | wrong e => exact .inr (.inl ⟨e, rfl⟩)
      | blank b =>
        obtain ⟨s, hs, hblank⟩ := CommandLine.leavesBlank_of_parse hparse
        exact .inr (.inr (.inl ⟨s, b, rfl, hs, hblank⟩))
  · obtain ⟨s, launched, hstart, hs, hwaves⟩ := start_of_inRange hgiven hc hfits noise desk
    refine ⟨s, launched, hstart, hwaves, fun stimuli => ?_⟩
    have hcourse := moderate_course hs stimuli
    exact ⟨hcourse, Tone.exact_samples hcourse.tone_inRange, fun a =>
      ⟨announces_respond _ a, (s.course_concat stimuli a).symm⟩⟩

/-- A rate that is no number and a volume that is too great are brought into range; and a session
whose waves are short. -/
theorem bounded_of_arguments_clamped :
    (Config.InRange
      (CommandLine.LeavesBlank ["--lerp", "nan", "--volume", "99999", "--tone", "3"])
      { frequency := some 3, volume := volumeLimit, fadeRate := 0.1 }) ∧
    Config.InRange (fun _ => False) { frequency := some 3, sampleRate := some 12 } ∧
    [(0x12 : UInt8), 0x00].length ≤ programCapacity ∧
    ∃ (s : Session 64 32) (launched : List Effect),
      start 64 32 { frequency := some 3, sampleRate := some 12 } [0x12, 0x00] (Noise.cycle [])
        ⟨fun _ => .error .missing, []⟩ = .ok (s, launched) ∧
      ∀ stimuli : List Stimulus, (s.course stimuli).Moderate := by
  have hparse : CommandLine.parse ["--lerp", "nan", "--volume", "99999", "--tone", "3"] =
      .ok { frequency := some 3, volume := volumeLimit, fadeRate := 0.1 } := rfl
  have hc : Config.InRange (fun _ => False) { frequency := some 3, sampleRate := some 12 } := by
    constructor
    case toMeasured => constructor <;> simp [Given, Color.IsPacked]
    case budget_mem => exact budgetAt_pos 700
    all_goals decide
  have hfits : [(0x12 : UInt8), 0x00].length ≤ programCapacity := by decide
  refine ⟨?_, hc, hfits, ?_⟩
  · obtain hhelp | ⟨e, hwrong⟩ | ⟨s, b, hblank, -⟩ | ⟨c, hok, hrange⟩ :=
      (bounded_of_arguments ["--lerp", "nan", "--volume", "99999", "--tone", "3"]).1
    · cases hparse.symm.trans hhelp
    · cases hparse.symm.trans hwrong
    · cases hparse.symm.trans hblank
    · exact Except.ok.inj (hparse.symm.trans hok) ▸ hrange
  · obtain ⟨s, launched, hstart, -, hcourse⟩ :=
      (bounded_of_arguments []).2 (fun _ => id) hc (w := 64) (h := 32) hfits (Noise.cycle [])
        ⟨fun _ => .error .missing, []⟩
    exact ⟨s, launched, hstart, fun stimuli => (hcourse stimuli).1⟩

/-- A frequency may be left blank in arguments that are accepted, and then there is none to build a
wave with. -/
theorem frequency_left_blank :
    ∃ c, CommandLine.parse ["--tone=--"] = .ok c ∧ ¬(∃ n, c.frequency = some n ∧ 1 ≤ n) ∧
      (Tone.ofConfig c).map (fun _ => ()) = .error (.blank .frequency) := by
  have hparse : CommandLine.parse ["--tone=--"] = .ok { frequency := none } := rfl
  refine ⟨_, hparse, ?_, rfl⟩
  rintro ⟨n, hn, -⟩
  contradiction

end Session
end Chip8
