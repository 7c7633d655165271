import Chip8.Config
import Chip8.Wave
import Mathlib.Algebra.BigOperators.Group.List.Basic
import Mathlib.Algebra.Order.Ring.Abs
import Mathlib.Data.List.SplitBy
import Mathlib.Tactic.Linarith
import Mathlib.Tactic.Ring
import Mathlib.Tactic.Zify

/-!
# The shape of a wave

The samples of a tone come in blocks of half a period, low ones and high ones in turn. Cutting the
first block off leaves the same wave the other way up, so what is said of all blocks, of the runs of
equal samples and of their sum, is carried from block to block.
-/

namespace Chip8
namespace Wave

theorem halfPeriod_pos (sampleRate frequency : Int) : 0 < halfPeriod sampleRate frequency := by
  unfold halfPeriod
  omega

/-- Rounding to a whole period and halving it comes to one division. -/
theorem halfPeriod_eq (sampleRate : Int) {frequency : Int} (hfrequency : 1 ≤ frequency) :
    (halfPeriod sampleRate frequency : Int) = max 1 (sampleRate / (2 * frequency)) := by
  have hperiod : sampleRate.fdiv frequency = sampleRate / frequency :=
    Int.fdiv_eq_ediv_of_nonneg sampleRate (by omega)
  have hhalf : sampleRate / (2 * frequency) = sampleRate / frequency / 2 := by
    rw [Int.ediv_ediv_of_nonneg (by omega), Int.mul_comm]
  rw [halfPeriod, hperiod, hhalf]
  omega

theorem sample_of_mem {v : Int} (h : -volumeLimit ≤ v ∧ v ≤ volumeLimit) : sample v = v := by
  unfold volumeLimit at h
  exact Int.bmod_eq_of_le_mul_two (by omega) (by omega)

theorem square_of_mem (sampleRate frequency : Int) {volume : Int}
    (h : 0 ≤ volume ∧ volume ≤ volumeLimit) :
    square sampleRate frequency volume = (List.range sampleRate.toNat).map fun i =>
      if i / halfPeriod sampleRate frequency % 2 = 1 then volume else -volume := by
  have hhigh : sample volume = volume := sample_of_mem (by omega)
  have hlow : sample (-volume) = -volume := sample_of_mem (by omega)
  simp only [square, hhigh, hlow]

def alternating (half : Nat) (first second : Int) (n : Nat) : List Int :=
  (List.range n).map fun i => if i / half % 2 = 1 then second else first

theorem alternating_of_le {half n : Nat} (first second : Int) (hn : n ≤ half) :
    alternating half first second n = List.replicate n first := by
  have hlevel : ∀ i ∈ List.range n, (if i / half % 2 = 1 then second else first) = first := by
    intro i hi
    have hblock : i / half = 0 := Nat.div_eq_of_lt (by simp at hi; omega)
    simp [hblock]
  rw [alternating, List.map_eq_replicate_iff.mpr hlevel, List.length_range]

section Blocks

variable {half : Nat} (hhalf : 0 < half)
include hhalf

theorem alternating_add (first second : Int) (n : Nat) :
    alternating half first second (half + n) =
      List.replicate half first ++ alternating half second first n := by
  rw [alternating, List.range_add, List.map_append, List.map_map]
  congr 1
  · exact alternating_of_le first second le_rfl
  · apply List.map_congr_left
    intro i _
    have hblock : (half + i) / half = i / half + 1 := Nat.add_div_left i hhalf
    rcases Nat.mod_two_eq_zero_or_one (i / half) with heven | hodd
    · simp [hblock, Nat.add_mod, heven]
    · simp [hblock, Nat.add_mod, hodd]

/-- What holds within one block and is handed on by a block in front holds of any number of samples.
-/
theorem blocks_induction {P : Nat → Prop} (within : ∀ n, n ≤ half → P n)
    (behind : ∀ n, 0 < n → P n → P (half + n)) (n : Nat) : P n := by
  induction n using Nat.strong_induction_on with
  | _ n ih =>
    by_cases hn : n ≤ half
    · exact within n hn
    · have hrest := behind (n - half) (by omega) (ih (n - half) (by omega))
      rwa [Nat.add_sub_cancel' (by omega)] at hrest

/-- Blocks of opposite levels cancel, so that not more than one of them counts in the end. -/
theorem sum_alternating (n : Nat) (level : Int) :
    ∃ left : Nat, left ≤ half ∧ (alternating half level (-level) n).sum = left * level := by
  induction n using blocks_induction hhalf generalizing level with
  | within n hn => exact ⟨n, hn, by simp [alternating_of_le _ _ hn]⟩
  | behind n _ ih =>
    obtain ⟨left, hleft, hsum⟩ := ih (-level)
    rw [neg_neg] at hsum
    refine ⟨half - left, Nat.sub_le half left, ?_⟩
    rw [alternating_add hhalf, List.sum_append, hsum, List.sum_replicate, nsmul_eq_mul,
      Nat.cast_sub hleft]
    ring

theorem periods_prefix_alternating (first second : Int) {count n : Nat}
    (hn : count * (2 * half) ≤ n) :
    (List.replicate count (List.replicate half first ++ List.replicate half second)).flatten <+:
      alternating half first second n := by
  induction count generalizing n with
  | zero => exact List.nil_prefix
  | succ count ih =>
    obtain ⟨rest, rfl⟩ : ∃ rest, n = half + (half + rest) :=
      ⟨n - 2 * half, by rw [Nat.succ_mul] at hn; omega⟩
    have hrest : count * (2 * half) ≤ rest := by rw [Nat.succ_mul] at hn; omega
    rw [alternating_add hhalf, alternating_add hhalf, ← List.append_assoc, List.replicate_succ,
      List.flatten_cons]
    exact (List.prefix_append_right_inj _).mpr (ih hrest)

end Blocks

/-- Runs at two levels in turn, all of one length but the last, which may be shorter. -/
inductive Alternate (half : Nat) : Int → Int → List (List Int) → Prop
  | last {first second : Int} {n : Nat} (hpos : 0 < n) (hn : n ≤ half) :
      Alternate half first second [List.replicate n first]
  | next {first second : Int} {runs : List (List Int)} (hrest : Alternate half second first runs) :
      Alternate half first second (List.replicate half first :: runs)

theorem splitBy_replicate {n : Nat} (hn : 0 < n) (level : Int) :
    (List.replicate n level).splitBy (· == ·) = [List.replicate n level] :=
  List.splitBy_of_isChain (by simp; omega)
    (List.isChain_replicate_of_rel n (beq_self_eq_true level))

theorem head?_alternating {half n : Nat} (hn : 0 < n) (first second : Int) :
    (alternating half first second n).head? = some first := by
  obtain ⟨n, rfl⟩ := Nat.exists_eq_add_of_lt hn
  simp [alternating, List.range_succ_eq_map]

theorem alternate_splitBy {half n : Nat} (hhalf : 0 < half) (hn : 0 < n) {first second : Int}
    (hlevels : first ≠ second) :
    Alternate half first second ((alternating half first second n).splitBy (· == ·)) := by
  induction n using blocks_induction hhalf generalizing first second with
  | within n hle =>
    rw [alternating_of_le _ _ hle, splitBy_replicate hn]
    exact .last hn hle
  | behind n hpos ih =>
    have hturn : ∀ x ∈ (List.replicate half first).getLast?,
        ∀ y ∈ (alternating half second first n).head?, (x == y) = false := by
      intro x hx y hy
      obtain rfl := List.eq_of_mem_replicate (List.mem_of_getLast? hx)
      rw [head?_alternating hpos, Option.mem_some_iff] at hy
      exact hy ▸ beq_false_of_ne hlevels
    rw [alternating_add hhalf, List.splitBy_append hturn, splitBy_replicate hhalf]
    exact .next (ih hpos hlevels.symm)

structure Shape (half : Nat) (volume : Int) (samples : List Int) : Prop where
  level : ∀ i, (hi : i < samples.length) →
    samples[i] = if i / half % 2 = 0 then -volume else volume
  unwrapped : sample (-volume) = -volume ∧ sample volume = volume
  runs : 0 < volume → Alternate half (-volume) volume (samples.splitBy (· == ·))
  balance : |samples.sum| ≤ half * volume

theorem shape_alternating {half n : Nat} (hhalf : 0 < half) (hn : 0 < n) {volume : Int}
    (hvolume : 0 ≤ volume ∧ volume ≤ volumeLimit) :
    Shape half volume (alternating half (-volume) volume n) where
  level := by
    intro i hi
    rcases Nat.mod_two_eq_zero_or_one (i / half) with heven | hodd
    · simp [alternating, heven]
    · simp [alternating, hodd]
  unwrapped := ⟨sample_of_mem (by omega), sample_of_mem (by omega)⟩
  runs := fun hloud => alternate_splitBy hhalf hn (by omega)
  balance := by
    obtain ⟨left, hleft, hsum⟩ := sum_alternating hhalf n (-volume)
    rw [neg_neg] at hsum
    rw [hsum, abs_mul, abs_neg, abs_of_nonneg hvolume.1, Nat.abs_cast]
    exact mul_le_mul_of_nonneg_right (by exact_mod_cast hleft) hvolume.1

/-- Whatever the rates, there is a wave, of one sample for each tick of the sample rate. Its blocks
have the length of half a period, rounded down but never to nothing. Unless half a period is too
short for that, a second holds as many whole periods as were asked for at least. -/
theorem square_in_blocks {sampleRate frequency volume : Int} (hrate : 1 ≤ sampleRate)
    (hfrequency : 1 ≤ frequency) (hvolume : 0 ≤ volume ∧ volume ≤ volumeLimit) :
    ∃ (half : Nat) (samples : List Int), (half : Int) = max 1 (sampleRate / (2 * frequency)) ∧
      square? sampleRate frequency volume = .ok samples ∧ (samples.length : Int) = sampleRate ∧
      Shape half volume samples ∧
      (2 * frequency ≤ sampleRate →
        (List.replicate frequency.toNat
          (List.replicate half (-volume) ++ List.replicate half volume)).flatten <+: samples) := by
  have hhalf := halfPeriod_pos sampleRate frequency
  have hformula := halfPeriod_eq sampleRate hfrequency
  have hsquare : square sampleRate frequency volume =
      alternating (halfPeriod sampleRate frequency) (-volume) volume sampleRate.toNat :=
    square_of_mem sampleRate frequency hvolume
  refine ⟨halfPeriod sampleRate frequency, square sampleRate frequency volume, hformula,
    if_neg (by omega), ?_, ?_, fun hslow => ?_⟩
  · rw [length_square]
    omega
  · rw [hsquare]
    exact shape_alternating hhalf (by omega) hvolume
  · rw [hsquare]
    apply periods_prefix_alternating hhalf
    have hone : 1 ≤ sampleRate / (2 * frequency) := Int.le_ediv_of_mul_le (by omega) (by omega)
    have hfits : sampleRate / (2 * frequency) * (2 * frequency) ≤ sampleRate :=
      Int.ediv_mul_le sampleRate (by omega)
    rw [max_eq_right hone] at hformula
    rw [← hformula] at hfits
    zify [Int.toNat_of_nonneg (show 0 ≤ frequency by omega),
      Int.toNat_of_nonneg (show 0 ≤ sampleRate by omega)]
    linarith

/-- Three hertz in a second of twenty samples: blocks of three, and two samples left over. -/
theorem square_in_blocks_left_over :
    (1 : Int) ≤ 20 ∧ (1 : Int) ≤ 3 ∧ ((0 : Int) ≤ 5 ∧ (5 : Int) ≤ volumeLimit) ∧
      ∃ (half : Nat) (samples : List Int), (half : Int) = 3 ∧ square? 20 3 5 = .ok samples ∧
        Shape half 5 samples := by
  have hrate : (1 : Int) ≤ 20 := by decide
  have hfrequency : (1 : Int) ≤ 3 := by decide
  have hvolume : (0 : Int) ≤ 5 ∧ (5 : Int) ≤ volumeLimit := by decide
  obtain ⟨half, samples, hhalf, hsquare, -, hshape, -⟩ := square_in_blocks hrate hfrequency hvolume
  exact ⟨hrate, hfrequency, hvolume, half, samples, hhalf, hsquare, hshape⟩

end Wave
end Chip8
