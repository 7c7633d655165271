import Chip8.Proofs.Course
import Chip8.Proofs.Mixer

/-!
# Silence behind a run

A session has no way to the mixer but through its tone: whatever its keys, its ticks and its runs
ask of the mixer is what some commands to the tone ask. So what holds of every list of commands
holds of every run, and as a run ends by silencing the tone, each start in it is followed by its
stop.
-/

namespace Chip8

/-- A tone is taken from `t` to `u` by some commands, and some effects ask of the mixer what these
commands ask. -/
def Tone.Commanded (t : Tone) (effects : List Effect) (u : Tone) : Prop :=
  ∃ commands, (t.obeyAll commands).1 = u ∧
    Effect.sounds effects = Effect.sounds (t.obeyAll commands).2

/-- A tone is taken from `t` to `u` by being turned on or off some times, and some effects ask of
the mixer no more than that. -/
def Tone.Turned (t : Tone) (effects : List Effect) (u : Tone) : Prop :=
  ∃ turns : List Bool, (t.obeyAll (turns.map .turn)).1 = u ∧
    Effect.sounds effects = Effect.sounds (t.obeyAll (turns.map .turn)).2

namespace Tone

variable {t u v : Tone} {first second : List Effect}

theorem commanded_of_turned (htu : t.Turned first u) : t.Commanded first u := by
  obtain ⟨turns, hu, hsounds⟩ := htu
  exact ⟨turns.map .turn, hu, hsounds⟩

theorem turned_of_quiet (t : Tone) {effects : List Effect} (hquiet : Effect.sounds effects = []) :
    t.Turned effects t :=
  ⟨[], rfl, hquiet⟩

theorem commanded_of_quiet (t : Tone) {effects : List Effect} (hquiet : Effect.sounds effects = []) :
    t.Commanded effects t :=
  commanded_of_turned (t.turned_of_quiet hquiet)

theorem turned_update (t : Tone) (active : Bool) : t.Turned (t.update active).2 (t.update active).1 :=
  ⟨[active], rfl, by simp only [List.map_cons, List.map_nil, obeyAll, obey, List.append_nil]⟩

theorem commanded_obey (t : Tone) (c : Command) : t.Commanded (t.obey c).2 (t.obey c).1 :=
  ⟨[c], rfl, by simp only [obeyAll, List.append_nil]⟩

theorem commanded_append (htu : t.Commanded first u) (huv : u.Commanded second v) :
    t.Commanded (first ++ second) v := by
  obtain ⟨earlier, rfl, hfirst⟩ := htu
  obtain ⟨later, rfl, hsecond⟩ := huv
  refine ⟨earlier ++ later, ?_, ?_⟩
  · rw [obeyAll_append]
  · rw [obeyAll_append, Effect.sounds_append, Effect.sounds_append, hfirst, hsecond]

theorem turned_append (htu : t.Turned first u) (huv : u.Turned second v) :
    t.Turned (first ++ second) v := by
  obtain ⟨earlier, rfl, hfirst⟩ := htu
  obtain ⟨later, rfl, hsecond⟩ := huv
  refine ⟨earlier ++ later, ?_, ?_⟩
  · rw [List.map_append, obeyAll_append]
  · rw [List.map_append, obeyAll_append, Effect.sounds_append, Effect.sounds_append, hfirst, hsecond]

theorem turned_of_sounds (hsounds : Effect.sounds second = Effect.sounds first)
    (htu : t.Turned first u) : t.Turned second u := by
  obtain ⟨turns, hu, hfirst⟩ := htu
  exact ⟨turns, hu, hsounds.trans hfirst⟩

end Tone

theorem Display.sounds_draw {w h : Nat} (d : Display w h) (screen : Framebuffer w h) :
    Effect.sounds (d.draw screen).2 = [] := by
  have houtlines : Effect.sounds (d.outlineRequests screen) = [] := by
    unfold outlineRequests
    induction litCells screen with
    | nil => rfl
    | cons cell cells ih => exact ih
  simp only [draw, Effect.sounds_append]
  split
  · rw [houtlines]
    rfl
  · rfl

namespace Session

variable {w h : Nat}

/-- A relation between tones that goes from parts to the whole does so for sessions. -/
theorem composes_of_tone {T : Tone → List Effect → Tone → Prop} (hnothing : ∀ t, T t [] t)
    (happend : ∀ {t u v first second}, T t first u → T u second v → T t (first ++ second) v) :
    Composes fun (s : Session w h) a => T s.tone a.effects a.state.tone where
  idle := fun s => hnothing s.tone
  andThen := by
    intro s a f ha hf
    unfold Act.andThen
    cases houtcome : a.outcome with
    | done t =>
      rw [Act.state, houtcome] at ha
      exact happend ha (hf t)
    | failed why t =>
      rw [Act.state, houtcome] at ha
      exact ha

/-- An activity on a session that turns the tone on or off at most. -/
def Turns (s : Session w h) (a : Act (Session w h)) : Prop :=
  s.tone.Turned a.effects a.state.tone

theorem composes_turns : Composes (Turns (w := w) (h := h)) :=
  composes_of_tone (fun t => t.turned_of_quiet rfl) Tone.turned_append

theorem turns_pauseOrResume (s : Session w h) : s.Turns (.ofPair s.pauseOrResume) := by
  unfold pauseOrResume
  cases s.mode with
  | running =>
    refine Tone.turned_of_sounds ?_ (s.tone.turned_update false)
    simp only [Act.effects_ofPair, Effect.sounds_append]
    exact List.append_nil _
  | paused => exact s.tone.turned_of_quiet rfl
  | quit => exact s.tone.turned_of_quiet rfl

theorem turns_reset (s : Session w h) : s.Turns s.reset := by
  unfold reset
  cases s.machine.reset s.program with
  | failed why m => exact s.tone.turned_of_quiet rfl
  | done m =>
    refine Tone.turned_of_sounds ?_ (s.tone.turned_update false)
    simp only [Effect.sounds_append]
    exact (List.append_nil _).trans (List.append_nil _)

theorem turns_replaceProgram (s : Session w h) (p : Path) (program : List UInt8) :
    s.Turns (s.replaceProgram p program) := by
  unfold replaceProgram
  cases s.machine.reset program with
  | failed why m => exact s.tone.turned_of_quiet rfl
  | done m => exact s.tone.turned_of_quiet rfl

theorem turns_loadPath (s : Session w h) (p : Path) : s.Turns (s.loadPath p) := by
  unfold loadPath
  cases s.desk.readProgram p with
  | ok program =>
    refine Tone.turned_of_sounds ?_ (s.turns_replaceProgram p program)
    rfl
  | error why => cases why <;> exact s.tone.turned_of_quiet rfl

theorem turns_changeProgram (s : Session w h) : s.Turns s.changeProgram := by
  unfold changeProgram
  have hsilent := s.tone.turned_update false
  cases s.desk.pick? with
  | none => exact Tone.turned_append hsilent (Tone.turned_of_quiet _ rfl)
  | some p =>
    have hloaded := turns_loadPath { (s.setTone false).1 with desk := s.desk.afterPick } p
    exact Tone.turned_append hsilent (Tone.turned_of_sounds rfl hloaded)

theorem turns_keypad (s : Session w h) (down : Bool) (code : Int) :
    s.Turns (s.keypad down code) := by
  unfold keypad
  split <;> exact s.tone.turned_of_quiet rfl

theorem turns_instruction (s : Session w h) : s.Turns s.instruction := by
  have hquiet (lines : List String) : Effect.sounds (lines.map .debug) = [] := by
    induction lines with
    | nil => rfl
    | cons line lines ih => exact ih
  unfold Turns
  simp only [instruction, Act.state, Outcome.state_map]
  exact s.tone.turned_of_quiet (hquiet _)

theorem turns_refresh (s : Session w h) : s.Turns (.ofPair s.refresh) := by
  unfold refresh
  split
  · exact s.tone.turned_of_quiet (s.display.sounds_draw s.machine.screen)
  · exact s.tone.turned_of_quiet rfl

theorem turns_tick (s : Session w h) : s.Turns s.tick :=
  tick_of_composes composes_turns turns_instruction
    (fun t => t.tone.turned_update t.machine.decay.sounding) turns_refresh
    (fun t => t.tone.turned_of_quiet rfl) s

theorem adjusts_or_turns_hotkey (s : Session w h) (key : Keyboard.Hotkey) :
    (∃ delta, s.hotkey key = .ofPair (s.adjustVolume delta)) ∨ s.Turns (s.hotkey key) := by
  cases key with
  | quit => exact .inr (s.tone.turned_of_quiet rfl)
  | pause => exact .inr s.turns_pauseOrResume
  | reset => exact .inr s.turns_reset
  | load => exact .inr s.turns_changeProgram
  | fade faster => exact .inr (s.tone.turned_of_quiet rfl)
  | volume louder => exact .inl ⟨_, rfl⟩

/-- An activity on a session that gets to the mixer by commands to the tone only. -/
def Commands (s : Session w h) (a : Act (Session w h)) : Prop :=
  s.tone.Commanded a.effects a.state.tone

theorem composes_commands : Composes (Commands (w := w) (h := h)) :=
  composes_of_tone (fun t => t.commanded_of_quiet rfl) Tone.commanded_append

theorem commands_hotkey (s : Session w h) (key : Keyboard.Hotkey) : s.Commands (s.hotkey key) := by
  rcases s.adjusts_or_turns_hotkey key with ⟨delta, hadjust⟩ | hturns
  · rw [hadjust]
    exact s.tone.commanded_obey (.adjustVolume delta)
  · exact Tone.commanded_of_turned hturns

theorem commands_handle (s : Session w h) (e : Event) : s.Commands (s.handle e) :=
  handle_of_composes composes_commands commands_hotkey
    (fun s down code => Tone.commanded_of_turned (s.turns_keypad down code)) s e

theorem commands_handleAll (s : Session w h) (events : List Event) :
    s.Commands (s.handleAll events) :=
  handleAll_of_composes composes_commands commands_handle s events

theorem commands_tick (s : Session w h) : s.Commands s.tick := Tone.commanded_of_turned s.turns_tick

theorem commanded_loop (s : Session w h) (script : List (List Event)) :
    s.tone.Commanded (s.loop script).effects (s.loop script).session.tone := by
  induction script generalizing s with
  | nil => exact s.commands_handle .quit
  | cons events script ih =>
    have hhandled := s.commands_handleAll events
    unfold Commands Act.state at hhandled
    simp only [loop]
    cases houtcome : (s.handleAll events).outcome with
    | failed why t =>
      rw [houtcome] at hhandled
      exact hhandled
    | done t =>
      rw [houtcome] at hhandled
      have hticked := Tone.commanded_append hhandled t.commands_tick
      unfold Act.state at hticked
      by_cases hmode : t.mode = .quit
      · simp only [if_pos hmode]
        exact hhandled
      · simp only [if_neg hmode]
        cases htick : t.tick.outcome with
        | done u =>
          rw [htick] at hticked
          have hawaited : u.tone.Commanded [.request .awaitTick] u.tone :=
            u.tone.commanded_of_quiet rfl
          exact Tone.commanded_append (Tone.commanded_append hticked hawaited) (ih u)
        | failed why u =>
          rw [htick] at hticked
          cases why with
          | fault f => exact Tone.commanded_append hticked (u.tone.commanded_of_quiet rfl)
          | _ => exact hticked

theorem commanded_run (s : Session w h) (script : List (List Event)) :
    s.tone.Commanded (s.run script).effects (s.run script).session.tone :=
  Tone.commanded_append (s.commanded_loop script)
    ((s.loop script).session.tone.commanded_obey .silence)

theorem playing_run (s : Session w h) (script : List (List Event)) :
    (s.run script).session.tone.playing = false :=
  (s.loop script).session.tone.playing_update false

end Session

/-- In a run from silence to silence every start is followed by its stop. -/
theorem Tone.switches_of_commanded {t u : Tone} {effects : List Effect}
    (htu : t.Commanded effects u) (ht : t.playing = false) (hu : u.playing = false) :
    ∃ ks, Effect.switches effects = Request.beeps ks := by
  obtain ⟨commands, rfl, hsounds⟩ := htu
  obtain ⟨ks, hks⟩ := t.switches_obeyAll commands
  have hbefore : t.pending = [] := by simp [pending, heard, ht]
  have hbehind : (t.obeyAll commands).1.pending = [] := by simp [pending, heard, hu]
  rw [hbefore, hbehind, List.nil_append, List.append_nil] at hks
  exact ⟨ks, by rw [Effect.switches, hsounds]; exact hks⟩

/-- A new tone makes one sound. Whatever commands come then, it starts a sound only while none is on
and stops the one that is; what it starts is the latest sound, which has the volume in force; starts
and stops alternate, and the tone is on exactly behind a start; a command makes a new sound exactly
if it changes the volume, and the volume stays in range. A run of a session that starts in silence
asks of the mixer what some commands to its tone ask, and however it ends, every start in it has
been followed by its stop. -/
theorem sounds_in_turn {sampleRate frequency volume : Int} (hfrequency : 1 ≤ frequency)
    (hvolume : 0 ≤ volume ∧ volume ≤ volumeLimit) {w h : Nat} {s : Session w h}
    (hsilent : s.tone.playing = false) (script : List (List Event)) :
    (∃ t made, Tone.make sampleRate frequency volume = .ok (t, made) ∧
      Effect.sounds made = [.addSound 1 (Wave.square sampleRate frequency volume)] ∧
      ∀ commands : List Tone.Command, ∃ u effects m,
        t.obeyAll commands = (u, effects) ∧
        Mixer.empty.receiveAll (Effect.sounds (made ++ effects)) = m ∧
        (u.volume = commands.foldl Tone.Command.volumeAfter volume ∧
          0 ≤ u.volume ∧ u.volume ≤ volumeLimit) ∧
        m.playing = (if u.playing then [u.sound] else []) ∧
        (∃ ks, Effect.switches effects = Request.beeps ks ++ u.pending) ∧
        (u.playing = true ↔ ∃ k, (Effect.switches effects).getLast? = some (.playForever k)) ∧
        ∀ c, m.WelcomesAll (Wave.square sampleRate frequency (c.volumeAfter u.volume))
            (Effect.sounds (u.obey c).2) ∧
          (∀ earlier later, Effect.sounds (u.obey c).2 = earlier ++ later →
            (m.receiveAll earlier).playing.length ≤ 1) ∧
          (Effect.sounds (u.obey c).2).countP Request.isNew =
            if c.volumeAfter u.volume = u.volume then 0 else 1) ∧
    (s.run script).session.tone.playing = false ∧
    s.tone.Commanded (s.run script).effects (s.run script).session.tone ∧
    ∃ ks, Effect.switches (s.run script).effects = Request.beeps ks := by
  refine ⟨?_, s.playing_run script, s.commanded_run script,
    Tone.switches_of_commanded (s.commanded_run script) hsilent (s.playing_run script)⟩
  have hsounding : frequency ≠ 0 := by omega
  let t : Tone := ⟨sampleRate, frequency, volume, false, 1, hsounding⟩
  refine ⟨t, _, dif_neg hsounding, rfl, fun commands => ⟨_, _, _, rfl, rfl, ?_⟩⟩
  have hfirst : (Mixer.empty.receive (.addSound 1 t.samples)).Serves t := ⟨rfl, rfl, rfl⟩
  have hserves := Mixer.serves_obeyAll hfirst commands
  obtain ⟨hrate, hpitch⟩ := t.pitch_obeyAll commands
  obtain ⟨ks, hks⟩ := t.switches_obeyAll commands
  refine ⟨⟨t.volume_obeyAll commands, Tone.volume_obeyAll_mem hvolume commands⟩,
    hserves.playing_eq, ⟨ks, hks⟩, Tone.playing_iff_getLast? hks, fun c => ?_⟩
  have halters := (t.obeyAll commands).1.alters_obey c
  obtain ⟨_, _, hsamples⟩ := Tone.wave_of_alters halters
  have hwelcome := (Mixer.serves_alters hserves halters).1
  have hnew := Tone.countP_isNew_of_alters halters
  rw [hsamples, hrate, hpitch, Tone.volume_obey] at hwelcome
  rw [Tone.volume_obey] at hnew
  refine ⟨hwelcome, fun earlier later hsounds => ?_, hnew⟩
  rw [hsounds] at hwelcome
  exact Mixer.length_playing_receiveAll (Mixer.length_playing_of_serves hserves)
    (Mixer.welcomesAll_append.mp hwelcome).1

/-- A tone that is on is made louder until its volume stays as it is; and a run in which the tone is
made louder. -/
theorem sounds_in_turn_louder :
    ∃ (s : Session 64 32) (launched : List Effect),
      Session.start 64 32 {} [0x12, 0x00] (Noise.cycle []) ⟨fun _ => .error .missing, []⟩ =
        .ok (s, launched) ∧
      s.tone.playing = false ∧
      (∃ t made u effects, Tone.make 44100 440 32000 = .ok (t, made) ∧
        t.obeyAll [.turn true, .adjustVolume 500, .adjustVolume 500] = (u, effects) ∧
        u.volume = volumeLimit ∧
        (∃ ks, Effect.switches effects = Request.beeps ks ++ u.pending) ∧
        (Effect.sounds (u.obey (.adjustVolume 500)).2).countP Request.isNew = 0) ∧
      ∃ ks, Effect.switches (s.run [[], [.key true 112 0], [.quit]]).effects =
        Request.beeps ks := by
  obtain ⟨s, launched, _, hstart, _⟩ := Session.start_standstill
  have hsilent := Session.silent_of_start hstart
  obtain ⟨⟨t, made, hmake, _, hcommands⟩, _, _, hrun⟩ :=
    @sounds_in_turn 44100 440 32000 (by decide) (by decide) 64 32 s hsilent
      [[], [.key true 112 0], [.quit]]
  obtain ⟨u, effects, m, hobey, _, ⟨hvolume, _, _⟩, _, hswitches, _, hnext⟩ :=
    hcommands [.turn true, .adjustVolume 500, .adjustVolume 500]
  have hlimit : u.volume = volumeLimit := hvolume
  obtain ⟨_, _, hnew⟩ := hnext (.adjustVolume 500)
  rw [hlimit, if_pos (by decide)] at hnew
  exact ⟨s, launched, hstart, hsilent, ⟨t, made, u, effects, hmake, hobey, hlimit, hswitches, hnew⟩,
    hrun⟩

end Chip8
