import Chip8.Framebuffer
import Chip8.Sprite
import Mathlib.Data.List.Induction

/-!
# Pixels

The cells under the set bits of a sprite are all different. So turning them over one after the other
is exclusive or, whatever their order, and the collision is found on the screen as it was before. The
bits of a sprite are those of its bytes in memory, the most significant first.
-/

namespace Chip8
namespace Framebuffer

variable {w h : Nat}

theorem lit_flipAll (f : Framebuffer w h) {cells : List (Nat × Nat)} (hcells : cells.Nodup)
    (hin : ∀ p ∈ cells, p.1 < w ∧ p.2 < h) (x y : Nat) :
    (f.flipAll cells).1.lit x y = (f.lit x y ^^ decide ((x, y) ∈ cells)) := by
  induction cells generalizing f with
  | nil => simp [flipAll]
  | cons p cells ih =>
    obtain ⟨x', y'⟩ := p
    obtain ⟨hnew, hrest⟩ := List.nodup_cons.mp hcells
    have hp : x' < w ∧ y' < h := hin (x', y') List.mem_cons_self
    have hrec := ih (f.flip x' y') hrest fun q hq => hin q (List.mem_cons_of_mem _ hq)
    simp only [flipAll, hrec, lit_flip, List.mem_cons, Prod.mk.injEq]
    by_cases hhere : x = x' ∧ y = y'
    · obtain ⟨rfl, rfl⟩ := hhere
      simp [hnew, hp]
    · have hthere : ¬((x' = x ∧ y' = y) ∧ x' < w ∧ y' < h) := by omega
      simp [hhere, hthere]

/-- A collision means that one of the listed cells was lit before. -/
theorem collision_flipAll (f : Framebuffer w h) {cells : List (Nat × Nat)}
    (hcells : cells.Nodup) :
    (f.flipAll cells).2 = true ↔ ∃ x y, (x, y) ∈ cells ∧ f.lit x y = true := by
  induction cells generalizing f with
  | nil => simp [flipAll]
  | cons p cells ih =>
    obtain ⟨x', y'⟩ := p
    obtain ⟨hnew, hrest⟩ := List.nodup_cons.mp hcells
    have hsame : ∀ x y, (x, y) ∈ cells → (f.flip x' y').lit x y = f.lit x y := by
      intro x y hxy
      have hother : ¬((x' = x ∧ y' = y) ∧ x' < w ∧ y' < h) := by
        rintro ⟨⟨rfl, rfl⟩, _⟩
        exact hnew hxy
      simp [lit_flip, hother]
    simp only [flipAll, Bool.or_eq_true, ih _ hrest, List.mem_cons, Prod.mk.injEq]
    constructor
    · rintro (hlit | ⟨x, y, hxy, hlit⟩)
      · exact ⟨x', y', .inl ⟨rfl, rfl⟩, hlit⟩
      · exact ⟨x, y, .inr hxy, hsame x y hxy ▸ hlit⟩
    · rintro ⟨x, y, ⟨rfl, rfl⟩ | hxy, hlit⟩
      · exact .inl hlit
      · exact .inr ⟨x, y, hxy, (hsame x y hxy).trans hlit⟩

end Framebuffer

namespace Sprite

theorem nodup_cells (s : Sprite) (w h x y : Nat) : (s.cells w h x y).Nodup := by
  refine List.pairwise_flatMap.mpr ⟨fun r _ => ?_, List.nodup_range.imp fun hrows p hp q hq => ?_⟩
  · refine List.pairwise_filterMap.mpr (List.nodup_range.imp fun hcolumns p hp q hq => ?_)
    split at hp <;> split at hq <;> try contradiction
    rw [← Option.some.inj hp, ← Option.some.inj hq]
    intro heq
    have := congrArg Prod.fst heq
    omega
  · obtain ⟨_, _, hp⟩ := List.mem_filterMap.mp hp
    obtain ⟨_, _, hq⟩ := List.mem_filterMap.mp hq
    split at hp <;> split at hq <;> try contradiction
    rw [← Option.some.inj hp, ← Option.some.inj hq]
    intro heq
    have := congrArg Prod.snd heq
    omega

theorem cells_within (s : Sprite) (w h x y : Nat) {p : Nat × Nat} (hp : p ∈ s.cells w h x y) :
    p.1 < w ∧ p.2 < h := by
  obtain ⟨r, c, _, _, _, hx, hy, rfl⟩ := (s.mem_cells w h x y p).mp hp
  exact ⟨hx, hy⟩

theorem bigEndian_concat (bytes : List UInt8) (b : UInt8) :
    bigEndian (bytes ++ [b]) = 256 * bigEndian bytes + b.toNat := by
  simp [bigEndian]

/-- The bits of a block of bytes, the most significant first, are those of its bytes. -/
theorem testBit_bigEndian (bytes : List UInt8) {c : Nat} (hc : c < 8 * bytes.length) :
    (bigEndian bytes).testBit (8 * bytes.length - 1 - c) =
      (bytes[c / 8]?.getD 0).toNat.testBit (7 - c % 8) := by
  induction bytes using List.reverseRecOn with
  | nil => exact absurd hc (Nat.not_lt_zero c)
  | append_singleton bytes b ih =>
    rw [List.length_append, List.length_singleton] at hc ⊢
    have hconcat : bigEndian (bytes ++ [b]) = 2 ^ 8 * bigEndian bytes + b.toNat :=
      bigEndian_concat bytes b
    rw [hconcat, Nat.testBit_two_pow_mul_add _ b.toNat_lt]
    by_cases hlast : 8 * bytes.length ≤ c
    · have hlow : 8 * (bytes.length + 1) - 1 - c = 7 - c % 8 := by omega
      have hbyte : c / 8 = bytes.length := by omega
      rw [hlow, if_pos (by omega), hbyte, List.getElem?_concat_length, Option.getD_some]
    · have hhigh : 8 * (bytes.length + 1) - 1 - c - 8 = 8 * bytes.length - 1 - c := by omega
      rw [if_neg (by omega), hhigh, ih (by omega), List.getElem?_append_left (by omega)]

theorem bit_ofMemory (m : Bytes) {a height bytesPerRow r c : Nat}
    (hin : a + height * bytesPerRow ≤ m.size) (hr : r < height) (hc : c < 8 * bytesPerRow) :
    (ofMemory m a height bytesPerRow).bit r c =
      (m.get (a + r * bytesPerRow + c / 8)).toNat.testBit (7 - c % 8) := by
  have hrow : (r + 1) * bytesPerRow ≤ height * bytesPerRow := Nat.mul_le_mul_right _ hr
  have hblock : a + r * bytesPerRow + bytesPerRow ≤ m.size := by
    rw [Nat.add_mul] at hrow
    omega
  have hlength := m.length_block hblock
  have hbit := testBit_bigEndian (m.block (a + r * bytesPerRow : Nat) bytesPerRow)
    (c := c) (by rw [hlength]; exact hc)
  have hbyte : (m.block (a + r * bytesPerRow : Nat) bytesPerRow)[c / 8]?.getD 0 =
      m.get (a + r * bytesPerRow + c / 8) := by
    rw [m.block_eq hblock, List.getElem?_map, List.getElem?_range (by omega)]
    rfl
  rw [hlength, hbyte] at hbit
  rw [← hbit, bit, width_ofMemory]
  simp [ofMemory, hr]

end Sprite
end Chip8
