/-!
# Blanks

Two classes are in use: the blanks of Unicode, which colors and non-ASCII numerals may be surrounded
with, and the six of ASCII, which alone surround a numeral written in ASCII.
-/

namespace Chip8
namespace Text

/-- Separators and the control characters that act as white space. -/
def isBlank (c : Char) : Bool :=
  let n := c.toNat
  (0x9 ≤ n && n ≤ 0xd) || (0x1c ≤ n && n ≤ 0x20) || n == 0x85 || n == 0xa0 || n == 0x1680 ||
    (0x2000 ≤ n && n ≤ 0x200a) || n == 0x2028 || n == 0x2029 || n == 0x202f || n == 0x205f ||
    n == 0x3000

def isAsciiBlank (c : Char) : Bool :=
  c == ' ' || ('\t' ≤ c && c ≤ '\r')

/-- What is left of a text when the characters of a class are removed from both ends. -/
def strip (blank : Char → Bool) (s : List Char) : List Char :=
  ((s.dropWhile blank).reverse.dropWhile blank).reverse

section Strip

variable {blank : Char → Bool}

theorem exists_eq_append_strip (blank : Char → Bool) (s : List Char) :
    ∃ front back, s = front ++ strip blank s ++ back ∧ (∀ c ∈ front, blank c = true) ∧
      ∀ c ∈ back, blank c = true := by
  have htaken (t : List Char) : ∀ c ∈ t.takeWhile blank, blank c = true :=
    List.all_eq_true.mp List.all_takeWhile
  let rest := (s.dropWhile blank).reverse
  refine ⟨s.takeWhile blank, (rest.takeWhile blank).reverse, ?_, htaken s, fun c hc => ?_⟩
  · rw [List.append_assoc, strip, ← List.reverse_append, List.takeWhile_append_dropWhile,
      List.reverse_reverse, List.takeWhile_append_dropWhile]
  · exact htaken rest c (List.mem_reverse.mp hc)

theorem dropWhile_append_of_clear {core : List Char} (hcore : core ≠ [])
    (hclear : ∀ c ∈ core, blank c = false) (rest : List Char) :
    (core ++ rest).dropWhile blank = core ++ rest := by
  cases core with
  | nil => contradiction
  | cons c core =>
    have hc : ¬blank c = true := by simp [hclear c List.mem_cons_self]
    exact List.dropWhile_cons_of_neg hc

theorem strip_append {front core back : List Char} (hfront : ∀ c ∈ front, blank c = true)
    (hcore : core ≠ []) (hclear : ∀ c ∈ core, blank c = false)
    (hback : ∀ c ∈ back, blank c = true) : strip blank (front ++ core ++ back) = core := by
  have hleft : (front ++ core ++ back).dropWhile blank = core ++ back := by
    rw [List.append_assoc, List.dropWhile_append_of_pos hfront,
      dropWhile_append_of_clear hcore hclear]
  have hright : (core ++ back).reverse.dropWhile blank = core.reverse := by
    rw [List.reverse_append, List.dropWhile_append_of_pos
      fun c hc => hback c (List.mem_reverse.mp hc)]
    have hclear' : ∀ c ∈ core.reverse, blank c = false := fun c hc =>
      hclear c (List.mem_reverse.mp hc)
    simpa using dropWhile_append_of_clear (List.reverse_ne_nil_iff.mpr hcore) hclear' []
  rw [strip, hleft, hright, List.reverse_reverse]

end Strip

end Text
end Chip8
