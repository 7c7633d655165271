/-!
# The framebuffer

A screen of `w` by `h` pixels, lit or not, held column by column. Cells outside the screen are dark
and stay so.
-/

namespace Chip8

structure Framebuffer (w h : Nat) where
  columns : Vector (Vector Bool h) w
  deriving DecidableEq

namespace Framebuffer

variable {w h : Nat}

def full (w h : Nat) (lit : Bool) : Framebuffer w h :=
  ⟨Vector.replicate w (Vector.replicate h lit)⟩

def blank (w h : Nat) : Framebuffer w h := full w h false

def lit (f : Framebuffer w h) (x y : Nat) : Bool :=
  (f.columns[x]?.bind (·[y]?)).getD false

def set (f : Framebuffer w h) (x y : Nat) (b : Bool) : Framebuffer w h :=
  if hx : x < w then ⟨f.columns.set x (f.columns[x].setIfInBounds y b)⟩ else f

def flip (f : Framebuffer w h) (x y : Nat) : Framebuffer w h := f.set x y (!f.lit x y)

/-- The cells of a list turned over one after the other, and whether one of them was lit when its
turn came. -/
def flipAll (f : Framebuffer w h) : List (Nat × Nat) → Framebuffer w h × Bool
  | [] => (f, false)
  | (x, y) :: cells =>
    let rest := (f.flip x y).flipAll cells
    (rest.1, f.lit x y || rest.2)

theorem lit_eq (f : Framebuffer w h) {x y : Nat} (hx : x < w) (hy : y < h) :
    f.lit x y = f.columns[x][y] := by
  simp [lit, hx, hy]

theorem lit_eq_false_of_le (f : Framebuffer w h) {x y : Nat} (hxy : w ≤ x ∨ h ≤ y) :
    f.lit x y = false := by
  by_cases hx : x < w
  · have hy : h ≤ y := by omega
    simp [lit, hx, Vector.getElem?_eq_none hy]
  · simp [lit, Vector.getElem?_eq_none (show w ≤ x by omega)]

theorem lit_full (lit : Bool) {x y : Nat} (hx : x < w) (hy : y < h) :
    (full w h lit).lit x y = lit := by
  simp [lit_eq, full, hx, hy]

@[simp] theorem lit_blank (x y : Nat) : (blank w h).lit x y = false := by
  by_cases hxy : x < w ∧ y < h
  · exact lit_full false hxy.1 hxy.2
  · exact lit_eq_false_of_le _ (by omega)

theorem lit_set (f : Framebuffer w h) (x y : Nat) (b : Bool) (x' y' : Nat) :
    (f.set x y b).lit x' y' = if (x = x' ∧ y = y') ∧ x < w ∧ y < h then b else f.lit x' y' := by
  by_cases hin : x' < w ∧ y' < h
  · obtain ⟨hx', hy'⟩ := hin
    rw [lit_eq _ hx' hy', lit_eq _ hx' hy']
    unfold set
    split
    · rename_i hx
      by_cases hxx : x = x'
      · subst hxx
        by_cases hyy : y = y'
        · subst hyy; simp [hx, hy']
        · simp [hyy]
      · simp [hxx]
    · rename_i hx
      have : ¬((x = x' ∧ y = y') ∧ x < w ∧ y < h) := by omega
      rw [if_neg this]
  · have hout : w ≤ x' ∨ h ≤ y' := by omega
    rw [lit_eq_false_of_le _ hout, lit_eq_false_of_le _ hout, if_neg (by omega)]

theorem lit_flip (f : Framebuffer w h) (x y x' y' : Nat) :
    (f.flip x y).lit x' y' =
      (f.lit x' y' ^^ decide ((x = x' ∧ y = y') ∧ x < w ∧ y < h)) := by
  rw [flip, lit_set]
  by_cases hxy : (x = x' ∧ y = y') ∧ x < w ∧ y < h
  · obtain ⟨⟨rfl, rfl⟩, hx, hy⟩ := hxy
    simp [hx, hy]
  · simp [hxy]

@[ext] theorem ext {f g : Framebuffer w h} (hfg : ∀ x y, x < w → y < h → f.lit x y = g.lit x y) :
    f = g := by
  obtain ⟨columns⟩ := f
  obtain ⟨columns'⟩ := g
  congr 1
  apply Vector.ext
  intro x hx
  apply Vector.ext
  intro y hy
  simpa [lit_eq, hx, hy] using hfg x y hx hy

end Framebuffer
end Chip8
