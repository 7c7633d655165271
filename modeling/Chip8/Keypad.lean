import Chip8.Failure

/-!
# The keypad

Sixteen keys, each latched while it is held. A key may also be counted from the last one down, by a
negative number.
-/

namespace Chip8

abbrev Key := Fin 16

/-- The key that a number stands for. -/
def Key.ofInt (k : Int) : Except Failure Key :=
  if k < -wideLimit ∨ wideLimit ≤ k then .error .indexTooWide
  else if -16 ≤ k ∧ k < 16 then .ok (Fin.ofNat 16 (k % 16).toNat)
  else .error .keyOutside

structure Keypad where
  latches : Vector Bool 16
  deriving DecidableEq

namespace Keypad

def blank : Keypad := ⟨Vector.replicate 16 false⟩

def latched (p : Keypad) (k : Key) : Bool := p.latches[k]

def latch (p : Keypad) (k : Key) (held : Bool) : Keypad := ⟨p.latches.set k held⟩

/-- The latched key with the least number. -/
def first? (p : Keypad) : Option Key := (List.finRange 16).find? p.latched

@[simp] theorem latched_blank (k : Key) : blank.latched k = false := by
  simp [latched, blank]

theorem latched_latch (p : Keypad) (k : Key) (held : Bool) (l : Key) :
    (p.latch k held).latched l = if k = l then held else p.latched l := by
  simp only [latched, latch, Fin.getElem_fin, Vector.getElem_set, Fin.ext_iff]

theorem first?_eq_none_iff (p : Keypad) : p.first? = none ↔ ∀ k, p.latched k = false := by
  simp [first?, List.find?_eq_none]

theorem first?_eq_some_iff (p : Keypad) (k : Key) :
    p.first? = some k ↔ p.latched k = true ∧ ∀ j, j < k → p.latched j = false := by
  rw [first?, List.find?_eq_some_iff_getElem]
  refine and_congr_right fun _ => ⟨?_, fun hleast => ?_⟩
  · rintro ⟨i, hi, hk, hleast⟩ j hj
    rw [List.getElem_finRange] at hk
    have hji : j.val < i := by rw [← hk] at hj; exact hj
    simpa using hleast j hji
  · refine ⟨k, by simp, by simp, fun j hj => ?_⟩
    simpa using hleast ⟨j, by omega⟩ hj

@[ext] theorem ext {p q : Keypad} (h : ∀ k, p.latched k = q.latched k) : p = q := by
  obtain ⟨latches⟩ := p
  obtain ⟨latches'⟩ := q
  congr 1
  apply Vector.ext
  intro k hk
  exact h ⟨k, hk⟩

end Keypad
end Chip8
