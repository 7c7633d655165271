import Chip8.Config
import Chip8.Device
import Chip8.Wave

/-!
# The tone

A sound played over and over while the machine asks for it. The mixer holds the sounds that were
made so far; only the last one is ever played.
-/

namespace Chip8

structure Tone where
  sampleRate : Int
  frequency : Int
  volume : Int
  playing : Bool
  sound : Nat
  frequency_ne_zero : frequency ≠ 0

namespace Tone

def samples (t : Tone) : List Int := Wave.square t.sampleRate t.frequency t.volume

def make (sampleRate frequency volume : Int) : Except Failure (Tone × List Effect) :=
  if h : frequency = 0 then .error .silentFrequency
  else
    let t : Tone := ⟨sampleRate, frequency, volume, false, 1, h⟩
    .ok (t, [.request (.openMixer (some sampleRate)), .request (.addSound t.sound t.samples)])

/-- The tone that some options ask for. It cannot do without a sample rate and a frequency. -/
def ofConfig (c : Config) : Except Failure (Tone × List Effect) :=
  match c.sampleRate, c.frequency with
  | some sampleRate, some frequency => make sampleRate frequency c.volume
  | some _, none => .error (.blank .frequency)
  | none, some _ => .error (.blank .sampleRate)
  | none, none => .error (.blank .tone)

def update (t : Tone) (active : Bool) : Tone × List Effect :=
  if active && !t.playing then
    ({ t with playing := true },
      [.request (.playForever t.sound), .debug "Starting sound."])
  else if !active && t.playing then
    ({ t with playing := false },
      [.request (.stopSound t.sound), .debug "Stopping sound."])
  else (t, [])

def silence (t : Tone) : Tone × List Effect := t.update false

/-- The volume in force after a change by `delta`. -/
def volumeAfter (t : Tone) (delta : Int) : Int := clampVolume (t.volume + delta)

/-- A louder or a softer tone. Unless the volume stays as it is, a new sound replaces the old one,
which is stopped first, and plays on in its place. -/
def adjustVolume (t : Tone) (delta : Int) : Tone × List Effect :=
  let volume := t.volumeAfter delta
  if volume = t.volume then (t, [])
  else
    let silent := { t with volume := volume }.update false
    let renewed := { silent.1 with sound := silent.1.sound + 1 }
    let restored := renewed.update t.playing
    (restored.1,
      silent.2 ++ [.request (.addSound renewed.sound renewed.samples)] ++ restored.2 ++
        [.info s!"Volume is now {volume}."])

@[simp] theorem playing_update (t : Tone) (active : Bool) :
    (t.update active).1.playing = active := by
  unfold update
  cases active <;> cases h : t.playing <;> simp [h]

@[simp] theorem volume_update (t : Tone) (active : Bool) :
    (t.update active).1.volume = t.volume := by
  unfold update
  cases active <;> cases t.playing <;> rfl

@[simp] theorem sound_update (t : Tone) (active : Bool) :
    (t.update active).1.sound = t.sound := by
  unfold update
  cases active <;> cases t.playing <;> rfl

theorem playing_adjustVolume (t : Tone) (delta : Int) :
    (t.adjustVolume delta).1.playing = t.playing := by
  unfold adjustVolume
  simp only
  split
  · rfl
  · simp

end Tone
end Chip8
