import Chip8.Color
import Chip8.Framebuffer

/-!
# Fading

The picture on show follows the framebuffer: every channel of every cell moves a part of the way
towards its target and is put on it when less than one away. The rules are the same for every kind
of number that channels may be reckoned in.
-/

namespace Chip8
namespace Fade

section Channel

variable {α : Type} [Add α] [Sub α] [Mul α] [LT α] [DecidableLT α] [OfNat α 1]

/-- The number at the part `t` of the way between two others. -/
def blend (start finish t : α) : α := start + (finish - start) * t

def isNear (a b : α) : Bool := a - b < 1 && b - a < 1

/-- A channel one frame later, and whether it has arrived. -/
def approach (rate target a : α) : α × Bool :=
  let next := blend a target rate
  if isNear next target then (target, true) else (next, false)

def approachColor (rate : α) (target c : Rgb α) : Rgb α × Bool :=
  let red := approach rate target.red c.red
  let green := approach rate target.green c.green
  let blue := approach rate target.blue c.blue
  (⟨red.1, green.1, blue.1⟩, red.2 && green.2 && blue.2)

end Channel

structure Canvas (α : Type) (w h : Nat) where
  colors : Vector (Vector (Rgb α) h) w
  /-- Whether every color has arrived at its target. -/
  settled : Bool

namespace Canvas

variable {α : Type} {w h : Nat}

def plain (w h : Nat) (c : Rgb α) : Canvas α w h :=
  ⟨Vector.replicate w (Vector.replicate h c), true⟩

def cells (v : Canvas α w h) : List (Rgb α) := (v.colors.toList.map Vector.toList).flatten

/-- The color a cell fades to. -/
def target (foreground background : Rgb α) (screen : Framebuffer w h) (x y : Nat) : Rgb α :=
  if screen.lit x y then foreground else background

variable [Add α] [Sub α] [Mul α] [LT α] [DecidableLT α] [OfNat α 1]

def frame (v : Canvas α w h) (rate : α) (foreground background : Rgb α)
    (screen : Framebuffer w h) : Vector (Vector (Rgb α × Bool) h) w :=
  Vector.ofFn fun x => Vector.ofFn fun y =>
    approachColor rate (target foreground background screen x y) v.colors[x][y]

def advance (v : Canvas α w h) (rate : α) (foreground background : Rgb α)
    (screen : Framebuffer w h) : Canvas α w h :=
  let cells := v.frame rate foreground background screen
  ⟨cells.map (·.map Prod.fst), cells.all (·.all Prod.snd)⟩

theorem getElem_advance (v : Canvas α w h) (rate : α) (foreground background : Rgb α)
    (screen : Framebuffer w h) {x y : Nat} (hx : x < w) (hy : y < h) :
    (v.advance rate foreground background screen).colors[x][y] =
      (approachColor rate (target foreground background screen x y) v.colors[x][y]).1 := by
  simp [advance, frame]

theorem settled_advance (v : Canvas α w h) (rate : α) (foreground background : Rgb α)
    (screen : Framebuffer w h) :
    (v.advance rate foreground background screen).settled = true ↔
      ∀ x y, (hx : x < w) → (hy : y < h) →
        (approachColor rate (target foreground background screen x y) v.colors[x][y]).2 = true := by
  simp only [advance, frame, Vector.all_eq_true, Vector.getElem_ofFn]
  constructor
  · intro hall x y hx hy
    exact hall x hx y hy
  · intro hall x hx y hy
    exact hall x y hx hy

end Canvas
end Fade
end Chip8
