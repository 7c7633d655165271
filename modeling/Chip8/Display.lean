import Chip8.Config
import Chip8.Device
import Chip8.Fade

/-!
# The display

A window that shows the framebuffer enlarged, with a fading picture and, if wanted, an outline
around every lit pixel. The fade rate is changed in whole tenths.
-/

namespace Chip8

def Rgb.toFloat (c : Rgb UInt8) : Rgb Float := c.map UInt8.toFloat

def nearestByte (a : Float) : UInt8 :=
  let whole := a.toUInt64
  let rest := a - whole.toFloat
  if 0.5 < rest || (rest == 0.5 && whole % 2 == 1) then (whole + 1).toUInt8 else whole.toUInt8

namespace Tenths

/-- A quotient rounded to the nearest whole number, a half going to the even neighbour. -/
def roundQuotient (n d : Nat) : Nat :=
  let q := n / d
  let r := n % d
  if d < 2 * r ∨ (2 * r = d ∧ q % 2 = 1) then q + 1 else q

/-- The exact value of a positive finite double, as a numerator and a denominator. -/
def exact (bits : Nat) : Nat × Nat :=
  let one := 1 <<< 52
  let fraction := bits % one
  let exponent := bits / one % 2048
  let significand := if exponent = 0 then fraction else one + fraction
  let power := max exponent 1
  if power < 1075 then (significand, 1 <<< (1075 - power)) else (significand <<< (power - 1075), 1)

/-- The whole number of tenths between one and ten that is nearest to a number. -/
def nearest (a : Float) : Nat :=
  if 1.0 < a then 10
  else if 0.0 < a then
    let q := exact a.toBits.toNat
    min 10 (max 1 (roundQuotient (10 * q.1) q.2))
  else 1

def toFloat (k : Nat) : Float := Float.ofScientific k true 1

def text (k : Nat) : String := s!"{k / 10}.{k % 10}"

theorem one_le_nearest (a : Float) : 1 ≤ nearest a := by
  unfold nearest
  dsimp only
  split
  · decide
  · split <;> omega

theorem nearest_le_ten (a : Float) : nearest a ≤ 10 := by
  unfold nearest
  dsimp only
  split
  · decide
  · split <;> omega

theorem toFloat_mem {k : Nat} (h : 1 ≤ k) (h' : k ≤ 10) :
    0.1 ≤ toFloat k ∧ toFloat k ≤ 1.0 := by
  have hall : ∀ i : Fin 10, 0.1 ≤ toFloat (i + 1) ∧ toFloat (i + 1) ≤ 1.0 := by decide
  have hk := hall ⟨k - 1, by omega⟩
  rwa [show k - 1 + 1 = k by omega] at hk

end Tenths

structure Display (w h : Nat) where
  /-- Window pixels for each pixel of the machine, if known. -/
  scale : Option Int
  outlines : Bool
  rate : Float
  foreground : Rgb UInt8
  background : Rgb UInt8
  canvas : Fade.Canvas Float w h

namespace Display

variable {w h : Nat}

def windowSize (d : Display w h) : Option (Int × Int) := d.scale.map fun s => (w * s, h * s)

def clear (d : Display w h) : Display w h × List Effect :=
  ({ d with canvas := .plain w h d.background.toFloat },
    [.request (.fill d.background), .request .present])

def make (w h : Nat) (c : Config) (foreground background : Rgb UInt8) :
    Display w h × List Effect :=
  let d : Display w h :=
    { scale := c.scale
      outlines := c.outlines
      rate := clampRate c.fadeRate
      foreground := foreground
      background := background
      canvas := .plain w h background.toFloat }
  let cleared := d.clear
  (cleared.1,
    [.request (.retitle "chipvm"), .request (.openWindow d.windowSize),
      .request (.makeSurface w h)] ++ cleared.2)

/-- The window that some options ask for. It cannot do without its colors. -/
def ofConfig (w h : Nat) (c : Config) : Except Failure (Display w h × List Effect) :=
  match c.foreground, c.background with
  | some foreground, some background =>
    .ok (make w h c (Color.rgb foreground) (Color.rgb background))
  | _, _ => .error (.blank .color)

def retitle (title : String) : List Effect := [.request (.retitle title)]

def adjustRate (d : Display w h) (delta : Float) : Display w h × List Effect :=
  let tenths := Tenths.nearest (d.rate + delta)
  let text := Tenths.text tenths
  ({ d with rate := Tenths.toFloat tenths }, [.info s!"Color lerp rate is now {text}."])

/-- Whether the picture still changes while the framebuffer stays. -/
def fading (d : Display w h) : Bool := !d.canvas.settled

def litCells (screen : Framebuffer w h) : List (Nat × Nat) :=
  (List.range w).flatMap fun x =>
    ((List.range h).filter (screen.lit x)).map fun y => (x, y)

/-- The outlines around the lit pixels. -/
def outlineRequests (d : Display w h) (screen : Framebuffer w h) : List Effect :=
  (litCells screen).map fun cell =>
    .request (.outline d.background (d.scale.map fun s => ⟨cell.1 * s, cell.2 * s, s⟩))

def draw (d : Display w h) (screen : Framebuffer w h) : Display w h × List Effect :=
  let canvas := d.canvas.advance d.rate d.foreground.toFloat d.background.toFloat screen
  let next := { d with canvas := canvas }
  (next,
    [.request (.paint (canvas.cells.map (·.map nearestByte))),
      .request (.enlarge d.windowSize)] ++
    (if d.outlines then d.outlineRequests screen else []) ++
    [.request .present])

end Display
end Chip8
