import Chip8.Bytes

/-!
# Sprites

A sprite is a block of rows, each a number of one or two bytes whose most significant bit is the
leftmost pixel. Drawing turns over the pixels under its set bits; what sticks out at the right or at
the bottom of the screen is not drawn.
-/

namespace Chip8

structure Sprite where
  width : Nat
  rows : List Nat
  deriving DecidableEq

namespace Sprite

/-- The number that a block of bytes spells, the first byte being the most significant. -/
def bigEndian (bytes : List UInt8) : Nat := bytes.foldl (fun n b => 256 * n + b.toNat) 0

/-- The sprite at an address, of `height` rows with `bytesPerRow` bytes each. -/
def ofMemory (m : Bytes) (a : Int) (height bytesPerRow : Nat) : Sprite where
  width := 8 * bytesPerRow
  rows := (List.range height).map fun r =>
    bigEndian (m.block (a + (r * bytesPerRow : Nat)) bytesPerRow)

def height (s : Sprite) : Nat := s.rows.length

def bit (s : Sprite) (r c : Nat) : Bool := (s.rows[r]?.getD 0).testBit (s.width - 1 - c)

/-- The cells under the set bits when the upper left corner lies at `(x, y)`, row by row. -/
def cells (s : Sprite) (w h x y : Nat) : List (Nat × Nat) :=
  (List.range s.height).flatMap fun r =>
    (List.range s.width).filterMap fun c =>
      if s.bit r c ∧ x + c < w ∧ y + r < h then some (x + c, y + r) else none

@[simp] theorem width_ofMemory (m : Bytes) (a : Int) (height bytesPerRow : Nat) :
    (ofMemory m a height bytesPerRow).width = 8 * bytesPerRow := rfl

@[simp] theorem height_ofMemory (m : Bytes) (a : Int) (height bytesPerRow : Nat) :
    (ofMemory m a height bytesPerRow).height = height := by
  simp [ofMemory, Sprite.height]

theorem mem_cells (s : Sprite) (w h x y : Nat) (p : Nat × Nat) :
    p ∈ s.cells w h x y ↔ ∃ r c, r < s.height ∧ c < s.width ∧ s.bit r c = true ∧
      x + c < w ∧ y + r < h ∧ p = (x + c, y + r) := by
  simp only [cells, List.mem_flatMap, List.mem_range, List.mem_filterMap]
  constructor
  · rintro ⟨r, hr, c, hc, h⟩
    split at h
    · rename_i hb
      exact ⟨r, c, hr, hc, hb.1, hb.2.1, hb.2.2, (Option.some.inj h).symm⟩
    · contradiction
  · rintro ⟨r, c, hr, hc, hb, hx, hy, rfl⟩
    exact ⟨r, hr, c, hc, if_pos ⟨hb, hx, hy⟩⟩

end Sprite
end Chip8
