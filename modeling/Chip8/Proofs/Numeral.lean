import Chip8.Numeral.Integer
import Mathlib.Algebra.Group.Nat.Defs
import Mathlib.Data.List.TakeWhile

/-!
# Numbers written in decimal

A natural number is read back from its digits, as long as there are not more of them than are read.
-/

namespace Chip8
namespace Numeral

open Text

theorem clear_of_isAsciiDigit {c : Char} (h : isAsciiDigit c = true) :
    isAsciiBlank c = false ∧ c ≠ '_' ∧ c ≠ '-' ∧ c ≠ '+' :=
  forall_ascii (p := fun c => isAsciiDigit c = true →
      isAsciiBlank c = false ∧ c ≠ '_' ∧ c ≠ '-' ∧ c ≠ '+')
    (by decide) (toNat_lt_of_isAsciiDigit h) h

theorem isDigitOrSeparator_of_isAsciiDigit {c : Char} (h : isAsciiDigit c = true) :
    isDigitOrSeparator c = true := by
  rw [isDigitOrSeparator, h, Bool.true_or]

section Digits

variable {d : Char} {ds : List Char}

theorem endsOnDigit_cons (hd : isAsciiDigit d = true) (after : Bool) (s : List Char) :
    endsOnDigit after (d :: s) = endsOnDigit true s := by
  obtain ⟨-, hseparator, -, -⟩ := clear_of_isAsciiDigit hd
  rw [endsOnDigit]
  exact hseparator

theorem endsOnDigit_digits (hds : ∀ c ∈ ds, isAsciiDigit c = true) :
    endsOnDigit true ds = true := by
  induction ds with
  | nil => rfl
  | cons d ds ih =>
    obtain ⟨hd, hrest⟩ := List.forall_mem_cons.mp hds
    rw [endsOnDigit_cons hd, ih hrest]

theorem takeSign_cons (hd : isAsciiDigit d = true) (s : List Char) :
    takeSign (d :: s) = (false, d :: s) := by
  obtain ⟨-, -, hminus, hplus⟩ := clear_of_isAsciiDigit hd
  unfold takeSign
  split
  · rename_i heq
    exact absurd (List.cons.inj heq).1 hminus
  · rename_i heq
    exact absurd (List.cons.inj heq).1 hplus
  · rfl

theorem readInteger_ofList (hds : ∀ c ∈ d :: ds, isAsciiDigit c = true)
    (hcount : (d :: ds).length ≤ maxDigits) :
    readInteger (String.ofList (d :: ds)) = .ok (ofDigits (d :: ds)) := by
  obtain ⟨hd, hrest⟩ := List.forall_mem_cons.mp hds
  have hclear : (d :: ds).dropWhile isAsciiBlank = d :: ds := by
    have hdrop := dropWhile_append_of_clear (List.cons_ne_nil d ds)
      (fun c hc => (clear_of_isAsciiDigit (hds c hc)).1) []
    simpa using hdrop
  have hblock (c : Char) (hc : c ∈ d :: ds) := isDigitOrSeparator_of_isAsciiDigit (hds c hc)
  have htaken : (d :: ds).takeWhile isDigitOrSeparator = d :: ds :=
    List.takeWhile_eq_self_iff.mpr hblock
  have hdropped : (d :: ds).dropWhile isDigitOrSeparator = [] :=
    List.dropWhile_eq_nil_iff.mpr hblock
  have hdigits : (d :: ds).filter isAsciiDigit = d :: ds := List.filter_eq_self.mpr hds
  have hends : endsOnDigit false (d :: ds) = true := by
    rw [endsOnDigit_cons hd, endsOnDigit_digits hrest]
  unfold readInteger
  have hascii : toAscii (d :: ds) = d :: ds :=
    toAscii_of_ascii fun c hc => toNat_lt_of_isAsciiDigit (hds c hc)
  rw [String.toList_ofList, hascii, hclear, takeSign_cons hd]
  simp only [htaken, hdropped, hdigits, hends, if_neg (Nat.not_lt.mpr hcount)]
  rfl

end Digits

theorem isAsciiDigit_of_mem_toDigits {n : Nat} {c : Char} (hc : c ∈ Nat.toDigits 10 n) :
    isAsciiDigit c = true :=
  Nat.isDigit_of_mem_toDigits (by decide) (by decide) hc

theorem ofDigits_toDigits (n : Nat) : ofDigits (Nat.toDigits 10 n) = n := by
  have hfold := Nat.ofDigitChars_ten_toDigits (n := n)
  rwa [Nat.ofDigitChars_eq_foldl] at hfold

/-- A number is read back from its digits. -/
theorem readInteger_toString {n : Nat} (hn : n < 10 ^ maxDigits) :
    readInteger (toString n) = .ok n := by
  have hcount : (Nat.toDigits 10 n).length ≤ maxDigits :=
    (Nat.length_toDigits_le_iff (by decide) (by decide)).mpr hn
  obtain ⟨d, ds, hdigits⟩ := List.exists_cons_of_ne_nil (Nat.toDigits_ne_nil (n := n) (b := 10))
  have hds : ∀ c ∈ d :: ds, isAsciiDigit c = true :=
    hdigits ▸ fun _ => isAsciiDigit_of_mem_toDigits
  have hread := readInteger_ofList hds (hdigits ▸ hcount)
  rw [Nat.toString_eq_ofList_toDigits, hdigits, hread, ← hdigits, ofDigits_toDigits]

end Numeral
end Chip8
