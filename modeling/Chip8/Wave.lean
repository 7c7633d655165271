import Chip8.Failure

/-!
# Square waves

One second of a tone in signed samples of sixteen bits, low half periods first.
-/

namespace Chip8
namespace Wave

/-- The number within sixteen signed bits that an integer wraps to. -/
def sample (v : Int) : Int := v.bmod 65536

/-- The number of samples in half a period, at least one. -/
def halfPeriod (sampleRate frequency : Int) : Nat := (max 2 (sampleRate.fdiv frequency)).toNat / 2

/-- The samples of a tone whose frequency is not zero. -/
def square (sampleRate frequency volume : Int) : List Int :=
  let half := halfPeriod sampleRate frequency
  let low := sample (-volume)
  let high := sample volume
  (List.range sampleRate.toNat).map fun i => if i / half % 2 = 1 then high else low

def square? (sampleRate frequency volume : Int) : Except Failure (List Int) :=
  if frequency = 0 then .error .silentFrequency else .ok (square sampleRate frequency volume)

@[simp] theorem length_square (sampleRate frequency volume : Int) :
    (square sampleRate frequency volume).length = sampleRate.toNat := by
  simp [square]

end Wave
end Chip8
