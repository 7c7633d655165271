import Chip8.Variant

/-!
# Session options

The choices of a session and their defaults. The fade rate is clamped between one tenth and one, the
volume between zero and the greatest sample. A number may have been left blank; a session does
without it as far as it can.
-/

namespace Chip8

structure Config where
  program : Option String := none
  variant : Variant := .chip8
  width : Int := 64
  height : Int := 32
  /-- Window pixels for each pixel of the machine. -/
  scale : Option Int := some 20
  foreground : Option Int := some 0xffffffff
  background : Option Int := some 0x000000ff
  outlines : Bool := true
  speed : Option Int := some 700
  frequency : Option Int := some 440
  sampleRate : Option Int := some 44100
  volume : Int := 3000
  fadeRate : Float := 0.7
  tall : Bool := false
  debug : Bool := false

abbrev tickRate : Int := 60

abbrev volumeLimit : Int := 32767

def clampVolume (v : Int) : Int := min volumeLimit (max 0 v)

/-- A fade rate brought into range; what is no number becomes the least rate. -/
def clampRate (rate : Float) : Float :=
  if 0.1 ≤ rate then if rate ≤ 1.0 then rate else 1.0 else 0.1

/-- The instructions executed in a tick at a speed, at least one. -/
def budgetAt (speed : Int) : Nat := (max 1 (speed.fdiv tickRate)).toNat

def Config.budget (c : Config) : Option Nat := c.speed.map budgetAt

theorem clampVolume_mem (v : Int) : 0 ≤ clampVolume v ∧ clampVolume v ≤ volumeLimit := by
  unfold clampVolume volumeLimit
  omega

theorem clampVolume_of_mem {v : Int} (h : 0 ≤ v) (h' : v ≤ volumeLimit) : clampVolume v = v := by
  unfold clampVolume
  omega

theorem clampRate_mem (rate : Float) : 0.1 ≤ clampRate rate ∧ clampRate rate ≤ 1.0 := by
  unfold clampRate
  split
  · split
    · constructor <;> assumption
    · decide
  · decide

theorem clampRate_of_mem {rate : Float} (h : 0.1 ≤ rate) (h' : rate ≤ 1.0) :
    clampRate rate = rate := by
  simp [clampRate, h, h']

theorem budgetAt_pos (speed : Int) : 0 < budgetAt speed := by
  unfold budgetAt
  omega

end Chip8
