import Chip8.Tone

/-!
# The mixer

What a tone asks of the mixer, command by command. A change of the tone stops the sound that is on,
if one is on, may then make a new sound, and starts the one that is to be on. So a sound is only
started while none is on, only the latest one is started, and no sound is left on when another takes
its place.
-/

namespace Chip8

namespace Request

def isNew : Request → Bool
  | .addSound _ _ => true
  | _ => false

def isSwitch : Request → Bool
  | .playForever _ | .stopSound _ => true
  | _ => false

end Request

namespace Effect

def sounds (effects : List Effect) : List Request :=
  (requests effects).filter fun r => r.isNew || r.isSwitch

def switches (effects : List Effect) : List Request := (sounds effects).filter Request.isSwitch

@[simp] theorem sounds_append (a b : List Effect) : sounds (a ++ b) = sounds a ++ sounds b := by
  simp only [sounds, requests_append, List.filter_append]

@[simp] theorem switches_append (a b : List Effect) :
    switches (a ++ b) = switches a ++ switches b := by
  simp only [switches, sounds_append, List.filter_append]

end Effect

/-- The sounds that a mixer was given, the latest first, and those that it plays. -/
structure Mixer where
  sounds : List (Nat × List Int)
  playing : List Nat

namespace Mixer

def empty : Mixer := ⟨[], []⟩

def receive (m : Mixer) : Request → Mixer
  | .addSound k samples => { m with sounds := (k, samples) :: m.sounds }
  | .playForever k => { m with playing := k :: m.playing }
  | .stopSound k => { m with playing := m.playing.filter (· ≠ k) }
  | _ => m

def receiveAll (m : Mixer) (requests : List Request) : Mixer := requests.foldl receive m

/-- A request comes in its turn, where sounds are to have the given samples: sounds are made and
started only while none is on, and only the latest one is started; what is stopped is all that is
on. -/
def Welcomes (m : Mixer) (samples : List Int) : Request → Prop
  | .addSound k made => m.playing = [] ∧ k = m.sounds.length + 1 ∧ made = samples
  | .playForever k => m.playing = [] ∧ m.sounds.head? = some (k, samples)
  | .stopSound k => m.playing = [k]
  | _ => True

def WelcomesAll (m : Mixer) (samples : List Int) : List Request → Prop
  | [] => True
  | r :: requests => m.Welcomes samples r ∧ (m.receive r).WelcomesAll samples requests

@[simp] theorem receiveAll_append (m : Mixer) (first second : List Request) :
    m.receiveAll (first ++ second) = (m.receiveAll first).receiveAll second :=
  List.foldl_append

theorem welcomesAll_append {m : Mixer} {samples : List Int} {first second : List Request} :
    m.WelcomesAll samples (first ++ second) ↔
      m.WelcomesAll samples first ∧ (m.receiveAll first).WelcomesAll samples second := by
  induction first generalizing m with
  | nil => simp only [List.nil_append, WelcomesAll, receiveAll, List.foldl_nil, true_and]
  | cons r first ih =>
    simp only [List.cons_append, WelcomesAll, ih, receiveAll, List.foldl_cons, and_assoc]

/-- Where requests come in their turn, never more than one sound is on. -/
theorem length_playing_receiveAll {m : Mixer} {samples : List Int} {requests : List Request}
    (hm : m.playing.length ≤ 1) (hwelcome : m.WelcomesAll samples requests) :
    (m.receiveAll requests).playing.length ≤ 1 := by
  induction requests generalizing m with
  | nil => exact hm
  | cons r requests ih =>
    obtain ⟨hfirst, hrest⟩ := hwelcome
    refine ih ?_ hrest
    cases r with
    | playForever k =>
      obtain ⟨hidle, _⟩ := hfirst
      simp only [receive, hidle, List.length_singleton, Nat.le_refl]
    | stopSound k => exact Nat.le_trans (List.length_filter_le _ m.playing) hm
    | _ => exact hm

end Mixer

namespace Tone

/-- The sound that is on, if one is. -/
def heard (t : Tone) : List Nat := if t.playing then [t.sound] else []

inductive Command
  | turn (active : Bool)
  | adjustVolume (delta : Int)
  | silence
  deriving DecidableEq

def Command.volumeAfter (volume : Int) : Command → Int
  | .adjustVolume delta => clampVolume (volume + delta)
  | .turn _ | .silence => volume

def obey (t : Tone) : Command → Tone × List Effect
  | .turn active => t.update active
  | .adjustVolume delta => t.adjustVolume delta
  | .silence => t.silence

def obeyAll (t : Tone) : List Command → Tone × List Effect
  | [] => (t, [])
  | c :: commands =>
    let first := t.obey c
    let rest := first.1.obeyAll commands
    (rest.1, first.2 ++ rest.2)

/-- What a command may do to a tone, with what it asks of the mixer. -/
inductive Alters (t : Tone) : Tone → List Request → Prop
  | nothing : Alters t t []
  | turn {active : Bool} (hchanged : active ≠ t.playing) :
      Alters t { t with playing := active }
        (t.heard.map .stopSound ++ { t with playing := active }.heard.map .playForever)
  | renew {volume : Int} (hchanged : volume ≠ t.volume) :
      Alters t { t with volume := volume, sound := t.sound + 1 }
        (t.heard.map .stopSound ++
          .addSound (t.sound + 1) (Wave.square t.sampleRate t.frequency volume) ::
            { t with sound := t.sound + 1 }.heard.map .playForever)

theorem alters_update (t : Tone) (active : Bool) :
    Alters t (t.update active).1 (Effect.sounds (t.update active).2) := by
  by_cases hchanged : active = t.playing
  · have hsame : t.update active = (t, []) := by
      unfold update
      cases active <;> simp [← hchanged]
    rw [hsame]
    exact .nothing
  · have hturned := Alters.turn hchanged
    unfold update
    unfold heard at hturned
    cases active with
    | false =>
      have hplaying : t.playing = true := by simpa using hchanged
      simp only [hplaying] at hturned ⊢
      exact hturned
    | true =>
      have hplaying : t.playing = false := by simpa using hchanged
      simp only [hplaying] at hturned ⊢
      exact hturned

theorem alters_adjustVolume (t : Tone) (delta : Int) :
    Alters t (t.adjustVolume delta).1 (Effect.sounds (t.adjustVolume delta).2) := by
  by_cases hchanged : t.volumeAfter delta = t.volume
  · simp only [adjustVolume, if_pos hchanged]
    exact .nothing
  · have hrenewed := Alters.renew hchanged
    simp only [adjustVolume, if_neg hchanged]
    obtain ⟨sampleRate, frequency, volume, playing, sound, hfrequency⟩ := t
    cases playing <;> exact hrenewed

theorem alters_obey (t : Tone) (c : Command) :
    Alters t (t.obey c).1 (Effect.sounds (t.obey c).2) := by
  cases c with
  | turn active => exact alters_update t active
  | adjustVolume delta => exact alters_adjustVolume t delta
  | silence => exact alters_update t false

theorem volume_obey (t : Tone) (c : Command) : (t.obey c).1.volume = c.volumeAfter t.volume := by
  cases c with
  | turn active => exact t.volume_update active
  | adjustVolume delta =>
    by_cases hchanged : t.volumeAfter delta = t.volume
    · simp only [obey, adjustVolume, if_pos hchanged]
      exact hchanged.symm
    · simp only [obey, adjustVolume, if_neg hchanged, volume_update]
      rfl
  | silence => exact t.volume_update false

theorem volumeAfter_mem {volume : Int} (h : 0 ≤ volume ∧ volume ≤ volumeLimit) (c : Command) :
    0 ≤ c.volumeAfter volume ∧ c.volumeAfter volume ≤ volumeLimit := by
  cases c with
  | adjustVolume delta => exact clampVolume_mem (volume + delta)
  | turn _ | silence => exact h

theorem obeyAll_append (t : Tone) (first second : List Command) :
    t.obeyAll (first ++ second) =
      (((t.obeyAll first).1.obeyAll second).1,
        (t.obeyAll first).2 ++ ((t.obeyAll first).1.obeyAll second).2) := by
  induction first generalizing t with
  | nil => rfl
  | cons c first ih => simp only [List.cons_append, obeyAll, ih, List.append_assoc]

theorem volume_obeyAll (t : Tone) (commands : List Command) :
    (t.obeyAll commands).1.volume = commands.foldl Command.volumeAfter t.volume := by
  induction commands generalizing t with
  | nil => rfl
  | cons c commands ih => simp only [obeyAll, ih, volume_obey, List.foldl_cons]

theorem volume_obeyAll_mem {t : Tone} (ht : 0 ≤ t.volume ∧ t.volume ≤ volumeLimit)
    (commands : List Command) :
    0 ≤ (t.obeyAll commands).1.volume ∧ (t.obeyAll commands).1.volume ≤ volumeLimit := by
  induction commands generalizing t with
  | nil => exact ht
  | cons c commands ih =>
    refine ih ?_
    rw [volume_obey]
    exact volumeAfter_mem ht c

section Alters

variable {t u : Tone} {asked : List Request}

theorem wave_of_alters (htu : Alters t u asked) :
    u.sampleRate = t.sampleRate ∧ u.frequency = t.frequency ∧
      u.samples = Wave.square t.sampleRate t.frequency u.volume := by
  cases htu with
  | nothing | turn _ | renew _ => exact ⟨rfl, rfl, rfl⟩

/-- A new sound is made exactly where the volume changes. -/
theorem countP_isNew_of_alters (htu : Alters t u asked) :
    asked.countP Request.isNew = if u.volume = t.volume then 0 else 1 := by
  have hstop : (t.heard.map Request.stopSound).countP Request.isNew = 0 := by
    simp [List.countP_map, List.countP_eq_zero, Request.isNew]
  have hstart (v : Tone) : (v.heard.map Request.playForever).countP Request.isNew = 0 := by
    simp [List.countP_map, List.countP_eq_zero, Request.isNew]
  cases htu with
  | nothing => rw [if_pos rfl, List.countP_nil]
  | turn _ => rw [if_pos rfl, List.countP_append, hstop, hstart]
  | renew hchanged =>
    rw [if_neg hchanged, List.countP_append, List.countP_cons, hstop, hstart]
    rfl

end Alters

theorem pitch_obeyAll (t : Tone) (commands : List Command) :
    (t.obeyAll commands).1.sampleRate = t.sampleRate ∧
      (t.obeyAll commands).1.frequency = t.frequency := by
  induction commands generalizing t with
  | nil => exact ⟨rfl, rfl⟩
  | cons c commands ih =>
    obtain ⟨hrate, hfrequency, _⟩ := wave_of_alters (t.alters_obey c)
    obtain ⟨hrates, hfrequencies⟩ := ih (t.obey c).1
    exact ⟨hrates.trans hrate, hfrequencies.trans hfrequency⟩

end Tone

namespace Mixer

/-- The sound in use of a tone is the latest of all sounds, and nothing else is on. -/
structure Serves (m : Mixer) (t : Tone) : Prop where
  latest : m.sounds.head? = some (t.sound, t.samples)
  length_eq : m.sounds.length = t.sound
  playing_eq : m.playing = t.heard

theorem length_playing_of_serves {m : Mixer} {t : Tone} (hm : m.Serves t) :
    m.playing.length ≤ 1 := by
  rw [hm.playing_eq, Tone.heard]
  split <;> simp

theorem welcomesAll_stop {m : Mixer} {t : Tone} (hm : m.playing = t.heard) (samples : List Int) :
    m.WelcomesAll samples (t.heard.map .stopSound) ∧
      m.receiveAll (t.heard.map .stopSound) = { m with playing := [] } := by
  obtain ⟨sounds, playing⟩ := m
  obtain rfl : playing = t.heard := hm
  unfold Tone.heard
  cases t.playing with
  | false => exact ⟨trivial, rfl⟩
  | true =>
    refine ⟨⟨rfl, trivial⟩, ?_⟩
    simp [receiveAll, receive]

theorem welcomesAll_start {m : Mixer} {t : Tone} (hidle : m.playing = [])
    (hlatest : m.sounds.head? = some (t.sound, t.samples)) :
    m.WelcomesAll t.samples (t.heard.map .playForever) ∧
      m.receiveAll (t.heard.map .playForever) = { m with playing := t.heard } := by
  obtain ⟨sounds, playing⟩ := m
  obtain rfl : playing = [] := hidle
  unfold Tone.heard
  cases t.playing with
  | false => exact ⟨trivial, rfl⟩
  | true => exact ⟨⟨⟨rfl, hlatest⟩, trivial⟩, rfl⟩

/-- A mixer that serves a tone welcomes all that a command asks of it, and serves the tone that the
command leaves. -/
theorem serves_alters {m : Mixer} {t u : Tone} {asked : List Request} (hm : m.Serves t)
    (htu : t.Alters u asked) : m.WelcomesAll u.samples asked ∧ (m.receiveAll asked).Serves u := by
  obtain ⟨hstop, hstopped⟩ := welcomesAll_stop hm.playing_eq u.samples
  cases htu with
  | nothing => exact ⟨trivial, hm⟩
  | @turn active _ =>
    obtain ⟨hstart, hstarted⟩ := welcomesAll_start (m := { m with playing := [] })
      (t := { t with playing := active }) rfl hm.latest
    rw [welcomesAll_append, receiveAll_append, hstopped, hstarted]
    exact ⟨⟨hstop, hstart⟩, hm.latest, hm.length_eq, rfl⟩
  | @renew volume _ =>
    obtain ⟨hstart, hstarted⟩ := welcomesAll_start
      (m := ⟨(t.sound + 1, Wave.square t.sampleRate t.frequency volume) :: m.sounds, []⟩)
      (t := { t with volume := volume, sound := t.sound + 1 }) rfl rfl
    rw [welcomesAll_append, receiveAll_append, hstopped]
    have hnumber : t.sound + 1 = m.sounds.length + 1 := by rw [hm.length_eq]
    have hserves : Serves
        ⟨(t.sound + 1, Wave.square t.sampleRate t.frequency volume) :: m.sounds,
          { t with volume := volume, sound := t.sound + 1 }.heard⟩
        { t with volume := volume, sound := t.sound + 1 } := ⟨rfl, hnumber.symm, rfl⟩
    rw [← hstarted] at hserves
    exact ⟨⟨hstop, ⟨rfl, hnumber, rfl⟩, hstart⟩, hserves⟩

theorem serves_obeyAll {m : Mixer} {t : Tone} (hm : m.Serves t) (commands : List Tone.Command) :
    (m.receiveAll (Effect.sounds (t.obeyAll commands).2)).Serves (t.obeyAll commands).1 := by
  induction commands generalizing m t with
  | nil => exact hm
  | cons c commands ih =>
    have hfirst := (serves_alters hm (t.alters_obey c)).2
    simp only [Tone.obeyAll, Effect.sounds_append, receiveAll_append]
    exact ih hfirst

end Mixer

/-- Sounds started one after the other, each stopped before the next one. -/
def Request.beeps (ks : List Nat) : List Request :=
  ks.flatMap fun k => [.playForever k, .stopSound k]

theorem Request.beeps_append (first second : List Nat) :
    beeps (first ++ second) = beeps first ++ beeps second :=
  List.flatMap_append

namespace Tone

def pending (t : Tone) : List Request := t.heard.map .playForever

/-- Whatever is on, the starts and stops of a command go on in turn. -/
theorem switches_of_alters {t u : Tone} {asked : List Request} (htu : Alters t u asked) :
    ∃ ks, t.pending ++ asked.filter Request.isSwitch = Request.beeps ks ++ u.pending := by
  have hstopped : t.pending ++ (t.heard.map Request.stopSound).filter Request.isSwitch =
      Request.beeps t.heard := by
    unfold pending heard
    cases t.playing <;> rfl
  have hstarted (v : Tone) : (v.heard.map Request.playForever).filter Request.isSwitch =
      v.pending := by
    unfold pending heard
    cases v.playing <;> rfl
  cases htu with
  | nothing => exact ⟨[], List.append_nil _⟩
  | turn _ =>
    refine ⟨t.heard, ?_⟩
    rw [List.filter_append, ← List.append_assoc, hstopped, hstarted]
  | renew _ =>
    refine ⟨t.heard, ?_⟩
    rw [List.filter_append, ← List.append_assoc, hstopped, List.filter_cons_of_neg Bool.false_ne_true,
      hstarted]
    rfl

theorem switches_obeyAll (t : Tone) (commands : List Command) :
    ∃ ks, t.pending ++ Effect.switches (t.obeyAll commands).2 =
      Request.beeps ks ++ (t.obeyAll commands).1.pending := by
  induction commands generalizing t with
  | nil => exact ⟨[], List.append_nil _⟩
  | cons c commands ih =>
    obtain ⟨first, hfirst⟩ := switches_of_alters (t.alters_obey c)
    obtain ⟨rest, hrest⟩ := ih (t.obey c).1
    refine ⟨first ++ rest, ?_⟩
    calc t.pending ++ Effect.switches (t.obeyAll (c :: commands)).2
        = (t.pending ++ Effect.switches (t.obey c).2) ++
            Effect.switches ((t.obey c).1.obeyAll commands).2 := by
          simp only [obeyAll, Effect.switches_append, List.append_assoc]
      _ = Request.beeps first ++
            ((t.obey c).1.pending ++ Effect.switches ((t.obey c).1.obeyAll commands).2) := by
          rw [Effect.switches, hfirst, List.append_assoc]
      _ = Request.beeps (first ++ rest) ++ (t.obeyAll (c :: commands)).1.pending := by
          rw [hrest, Request.beeps_append, List.append_assoc]
          rfl

/-- A tone is on exactly if the last start or stop is a start. -/
theorem playing_iff_getLast? {t : Tone} {switches : List Request} {ks : List Nat}
    (hswitches : switches = Request.beeps ks ++ t.pending) :
    t.playing = true ↔ ∃ k, switches.getLast? = some (.playForever k) := by
  subst hswitches
  unfold pending heard
  cases t.playing with
  | true => simp
  | false =>
    rcases List.eq_nil_or_concat ks with rfl | ⟨earlier, k, rfl⟩
    · simp [Request.beeps]
    · simp [Request.beeps]

end Tone
end Chip8
