import Chip8.Proofs.Picture
import Mathlib.Algebra.Order.Field.Rat
import Mathlib.Algebra.Order.Ring.Abs
import Mathlib.Tactic.Linarith
import Mathlib.Tactic.NormNum
import Mathlib.Tactic.Ring

/-!
# Fades come to an end

Reckoned in rational numbers, a frame leaves the part `1 - rate` of the way that a channel has to
go, and what is left of less than one is dropped. No channel is further than 255 from its target and
no rate is less than one tenth, so 53 frames of one screen are enough, whatever was shown before.
-/

namespace Chip8

inductive Channel
  | red | green | blue

def Rgb.channel {α : Type} (c : Rgb α) : Channel → α
  | .red => c.red
  | .green => c.green
  | .blue => c.blue

namespace Fade

/-- The rates at which a picture may fade. -/
def IsRate (rate : ℚ) : Prop := 1 / 10 ≤ rate ∧ rate ≤ 1

def IsLevel (a : ℚ) : Prop := 0 ≤ a ∧ a ≤ 255

/-- The whole number nearest to a channel is a byte, whichever way a half goes. -/
def FitsByte (a : ℚ) : Prop :=
  ∀ n : Int, |(n : ℚ) - a| ≤ 1 / 2 → ((UInt8.ofInt n).toNat : Int) = n

/-- How a frame takes a channel from `a` to `b`. -/
structure Approaches (rate target a b : ℚ) : Prop where
  between : min a target ≤ b ∧ b ≤ max a target
  /-- A distance of less than one is dropped. -/
  remaining : |b - target| = if (1 - rate) * |a - target| < 1 then 0 else (1 - rate) * |a - target|
  stays : a = target → b = target

theorem isNear_iff (a b : ℚ) : isNear a b = true ↔ |a - b| < 1 := by
  simp only [isNear, Bool.and_eq_true, decide_eq_true_eq, abs_lt]
  constructor
  · rintro ⟨hright, hleft⟩
    exact ⟨by linarith, hright⟩
  · rintro ⟨hleft, hright⟩
    exact ⟨hright, by linarith⟩

theorem blend_sub (rate target a : ℚ) :
    blend a target rate - target = (1 - rate) * (a - target) := by
  unfold blend
  ring

theorem abs_blend_sub {rate : ℚ} (hrate : IsRate rate) (target a : ℚ) :
    |blend a target rate - target| = (1 - rate) * |a - target| := by
  rw [blend_sub, abs_mul, abs_of_nonneg (sub_nonneg.mpr hrate.2)]

theorem approach_eq {rate : ℚ} (hrate : IsRate rate) (target a : ℚ) :
    approach rate target a =
      if (1 - rate) * |a - target| < 1 then (target, true) else (blend a target rate, false) := by
  have hnear : isNear (blend a target rate) target = true ↔ (1 - rate) * |a - target| < 1 := by
    rw [isNear_iff, abs_blend_sub hrate]
  exact if_congr hnear rfl rfl

theorem blend_between {rate : ℚ} (hrate : IsRate rate) (target a : ℚ) :
    min a target ≤ blend a target rate ∧ blend a target rate ≤ max a target := by
  have hpart : 0 ≤ rate := by linarith [hrate.1]
  have hrest : 0 ≤ 1 - rate := sub_nonneg.mpr hrate.2
  have hblend : blend a target rate = (1 - rate) * a + rate * target := by
    unfold blend
    ring
  rw [hblend]
  constructor
  · calc min a target = (1 - rate) * min a target + rate * min a target := by ring
      _ ≤ (1 - rate) * a + rate * target :=
        add_le_add (mul_le_mul_of_nonneg_left (min_le_left a target) hrest)
          (mul_le_mul_of_nonneg_left (min_le_right a target) hpart)
  · calc (1 - rate) * a + rate * target ≤ (1 - rate) * max a target + rate * max a target :=
        add_le_add (mul_le_mul_of_nonneg_left (le_max_left a target) hrest)
          (mul_le_mul_of_nonneg_left (le_max_right a target) hpart)
      _ = max a target := by ring

theorem approaches_approach {rate : ℚ} (hrate : IsRate rate) (target a : ℚ) :
    Approaches rate target a (approach rate target a).1 := by
  rw [approach_eq hrate]
  by_cases hnear : (1 - rate) * |a - target| < 1
  · rw [if_pos hnear]
    exact ⟨⟨min_le_right a target, le_max_right a target⟩, by simp [if_pos hnear], fun _ => rfl⟩
  · rw [if_neg hnear]
    refine ⟨blend_between hrate target a, ?_, fun hsame => ?_⟩
    · rw [if_neg hnear, abs_blend_sub hrate]
    · -- A channel on its target is near it.
      rw [hsame, sub_self, abs_zero, mul_zero] at hnear
      exact absurd one_pos hnear

theorem arrived_iff {rate : ℚ} (hrate : IsRate rate) (target a : ℚ) :
    (approach rate target a).2 = true ↔ (1 - rate) * |a - target| < 1 := by
  rw [approach_eq hrate]
  split <;> simp_all

namespace Approaches

variable {rate target a b : ℚ}

theorem isLevel (hab : Approaches rate target a b) (ha : IsLevel a) (htarget : IsLevel target) :
    IsLevel b :=
  ⟨(le_min ha.1 htarget.1).trans hab.between.1, hab.between.2.trans (max_le ha.2 htarget.2)⟩

theorem distance_le (hab : Approaches rate target a b) (hrate : IsRate rate) {d : ℚ}
    (hd : |a - target| ≤ d) : |b - target| ≤ 9 / 10 * d := by
  have hshrunk : (1 - rate) * |a - target| ≤ 9 / 10 * d :=
    mul_le_mul (by linarith [hrate.1]) hd (abs_nonneg _) (by norm_num)
  have hrest : 0 ≤ (1 - rate) * |a - target| :=
    mul_nonneg (sub_nonneg.mpr hrate.2) (abs_nonneg _)
  rw [hab.remaining]
  split
  · exact hrest.trans hshrunk
  · exact hshrunk

end Approaches

theorem fitsByte_of_isLevel {a : ℚ} (ha : IsLevel a) : FitsByte a := by
  intro n hn
  obtain ⟨hlow, hhigh⟩ := abs_le.mp hn
  have hpos : ((-1 : Int) : ℚ) < n := by push_cast; linarith [ha.1]
  have hlt : (n : ℚ) < (256 : Int) := by push_cast; linarith [ha.2]
  have hpos' : -1 < n := Int.cast_lt.mp hpos
  have hlt' : n < 256 := Int.cast_lt.mp hlt
  rw [Color.toNat_ofInt]
  exact Int.emod_eq_of_lt (by omega) hlt'

theorem channel_approachColor (rate : ℚ) (target c : Rgb ℚ) (k : Channel) :
    (approachColor rate target c).1.channel k =
      (approach rate (target.channel k) (c.channel k)).1 := by
  cases k <;> rfl

theorem arrived_approachColor_iff (rate : ℚ) (target c : Rgb ℚ) :
    (approachColor rate target c).2 = true ↔
      ∀ k, (approach rate (target.channel k) (c.channel k)).2 = true := by
  simp only [approachColor, Bool.and_eq_true]
  constructor
  · rintro ⟨⟨hred, hgreen⟩, hblue⟩ k
    cases k with
    | red => exact hred
    | green => exact hgreen
    | blue => exact hblue
  · intro hall
    exact ⟨⟨hall .red, hall .green⟩, hall .blue⟩

namespace Canvas

variable {w h : Nat}

/-- The picture several frames later. Each frame has a rate and a screen of its own. -/
def advanceAll (v : Canvas ℚ w h) (foreground background : Rgb ℚ)
    (frames : List (ℚ × Framebuffer w h)) : Canvas ℚ w h :=
  frames.foldl (fun v frame => v.advance frame.1 foreground background frame.2) v

def InRange (v : Canvas ℚ w h) : Prop :=
  ∀ x y, (hx : x < w) → (hy : y < h) → ∀ k, IsLevel (v.colors[x][y].channel k)

/-- Every channel is no further than `d` from its target. -/
def Within (v : Canvas ℚ w h) (foreground background : Rgb ℚ) (screen : Framebuffer w h) (d : ℚ) :
    Prop :=
  ∀ x y, (hx : x < w) → (hy : y < h) → ∀ k,
    |v.colors[x][y].channel k - (target foreground background screen x y).channel k| ≤ d

section Frames

variable {foreground background : Rgb ℚ} {v : Canvas ℚ w h}

theorem approaches_advance {rate : ℚ} (hrate : IsRate rate) (screen : Framebuffer w h) {x y : Nat}
    (hx : x < w) (hy : y < h) (k : Channel) :
    Approaches rate ((target foreground background screen x y).channel k)
      (v.colors[x][y].channel k)
      ((v.advance rate foreground background screen).colors[x][y].channel k) := by
  rw [getElem_advance v rate foreground background screen hx hy, channel_approachColor]
  exact approaches_approach hrate _ _

theorem within_advance {rate : ℚ} (hrate : IsRate rate) {screen : Framebuffer w h} {d : ℚ}
    (hd : v.Within foreground background screen d) :
    (v.advance rate foreground background screen).Within foreground background screen
      (9 / 10 * d) :=
  fun x y hx hy k => (approaches_advance hrate screen hx hy k).distance_le hrate (hd x y hx hy k)

theorem within_advanceAll {rates : List ℚ} (hrates : ∀ rate ∈ rates, IsRate rate)
    {screen : Framebuffer w h} {d : ℚ} (hd : v.Within foreground background screen d) :
    (v.advanceAll foreground background (rates.map (·, screen))).Within foreground background screen
      ((9 / 10) ^ rates.length * d) := by
  induction rates generalizing v d with
  | nil => simpa [advanceAll] using hd
  | cons rate rates ih =>
    obtain ⟨hrate, hrest⟩ := List.forall_mem_cons.mp hrates
    have hnext := ih hrest (within_advance hrate hd)
    rwa [← mul_assoc, ← pow_succ] at hnext

theorem settled_of_within {rate : ℚ} (hrate : IsRate rate) {screen : Framebuffer w h} {d : ℚ}
    (hd : v.Within foreground background screen d) (hsmall : 9 / 10 * d < 1) :
    (v.advance rate foreground background screen).settled = true := by
  rw [settled_advance]
  intro x y hx hy
  rw [arrived_approachColor_iff]
  intro k
  rw [arrived_iff hrate]
  calc (1 - rate) * _ ≤ 9 / 10 * d :=
        mul_le_mul (by linarith [hrate.1]) (hd x y hx hy k) (abs_nonneg _) (by norm_num)
    _ < 1 := hsmall

section Levels

variable (hforeground : ∀ k, IsLevel (foreground.channel k))
  (hbackground : ∀ k, IsLevel (background.channel k))
include hforeground hbackground

theorem isLevel_target (screen : Framebuffer w h) (x y : Nat) (k : Channel) :
    IsLevel ((target foreground background screen x y).channel k) := by
  unfold target
  split
  · exact hforeground k
  · exact hbackground k

theorem inRange_advance {rate : ℚ} (hrate : IsRate rate) (hv : v.InRange)
    (screen : Framebuffer w h) : (v.advance rate foreground background screen).InRange :=
  fun x y hx hy k => (approaches_advance hrate screen hx hy k).isLevel (hv x y hx hy k)
    (isLevel_target hforeground hbackground screen x y k)

theorem inRange_advanceAll {frames : List (ℚ × Framebuffer w h)}
    (hframes : ∀ frame ∈ frames, IsRate frame.1) (hv : v.InRange) :
    (v.advanceAll foreground background frames).InRange := by
  induction frames generalizing v with
  | nil => exact hv
  | cons frame frames ih =>
    obtain ⟨hframe, hrest⟩ := List.forall_mem_cons.mp hframes
    exact ih hrest (inRange_advance hforeground hbackground hframe hv frame.2)

theorem within_of_inRange (hv : v.InRange) (screen : Framebuffer w h) :
    v.Within foreground background screen 255 := by
  intro x y hx hy k
  have hlevel := hv x y hx hy k
  have htarget := isLevel_target hforeground hbackground screen x y k
  rw [abs_le]
  constructor
  · linarith [hlevel.1, htarget.2]
  · linarith [hlevel.2, htarget.1]

/-- Fifty-three frames of one screen settle a picture. -/
theorem settled_advanceAll (hv : v.InRange) (screen : Framebuffer w h) {rates : List ℚ}
    (hrates : ∀ rate ∈ rates, IsRate rate) (hlong : 53 ≤ rates.length) :
    (v.advanceAll foreground background (rates.map (·, screen))).settled = true ∧
      (v.advanceAll foreground background (rates.map (·, screen))).Shows foreground background
        screen := by
  obtain rfl | ⟨early, rate, rfl⟩ := rates.eq_nil_or_concat
  · contradiction
  · rw [List.concat_eq_append] at hrates hlong ⊢
    obtain ⟨hearly, hlast⟩ := List.forall_mem_append.mp hrates
    have hrate : IsRate rate := hlast rate (List.mem_singleton_self rate)
    have hconcat : v.advanceAll foreground background ((early ++ [rate]).map (·, screen)) =
        (v.advanceAll foreground background (early.map (·, screen))).advance rate foreground
          background screen := by
      simp [advanceAll]
    have hwithin := within_advanceAll hearly
      (within_of_inRange hforeground hbackground hv screen)
    have hsmall : 9 / 10 * ((9 / 10) ^ early.length * 255) < (1 : ℚ) := by
      have hcount : 52 ≤ early.length := by simpa using hlong
      calc (9 / 10 : ℚ) * ((9 / 10) ^ early.length * 255) ≤ 9 / 10 * ((9 / 10) ^ 52 * 255) := by
            have hpow := pow_le_pow_of_le_one (a := (9 / 10 : ℚ)) (by norm_num) (by norm_num) hcount
            linarith
        _ < 1 := by norm_num
    have hsettled := settled_of_within hrate hwithin hsmall
    rw [hconcat]
    exact ⟨hsettled, shows_of_settled_advance hsettled⟩

end Levels

/-- Every frame takes every channel of a picture closer to its target and not beyond it, and what is
shown fits into bytes. Whatever frames there have been, 53 more of one screen bring every channel to
its target. -/
theorem fades_settle (hforeground : ∀ k, IsLevel (foreground.channel k))
    (hbackground : ∀ k, IsLevel (background.channel k)) (hv : v.InRange) :
    (∀ rate, IsRate rate → ∀ (screen : Framebuffer w h) x y, (hx : x < w) → (hy : y < h) → ∀ k,
      Approaches rate ((target foreground background screen x y).channel k)
          (v.colors[x][y].channel k)
          ((v.advance rate foreground background screen).colors[x][y].channel k) ∧
        FitsByte ((v.advance rate foreground background screen).colors[x][y].channel k)) ∧
    ∀ frames : List (ℚ × Framebuffer w h), (∀ frame ∈ frames, IsRate frame.1) →
      (v.advanceAll foreground background frames).InRange ∧
      ∀ (screen : Framebuffer w h) (rates : List ℚ), (∀ rate ∈ rates, IsRate rate) →
        53 ≤ rates.length →
        (v.advanceAll foreground background (frames ++ rates.map (·, screen))).settled = true ∧
          (v.advanceAll foreground background (frames ++ rates.map (·, screen))).Shows foreground
            background screen := by
  refine ⟨fun rate hrate screen x y hx hy k => ⟨approaches_advance hrate screen hx hy k, ?_⟩,
    fun frames hframes => ?_⟩
  · exact fitsByte_of_isLevel
      (inRange_advance hforeground hbackground hrate hv screen x y hx hy k)
  · have hreached := inRange_advanceAll hforeground hbackground hframes hv
    refine ⟨hreached, fun screen rates hrates hlong => ?_⟩
    have happend : v.advanceAll foreground background (frames ++ rates.map (·, screen)) =
        (v.advanceAll foreground background frames).advanceAll foreground background
          (rates.map (·, screen)) := List.foldl_append
    rw [happend]
    exact settled_advanceAll hforeground hbackground hreached screen hrates hlong

end Frames

/-- One pixel that is turned off in the middle of its way from black to white. -/
theorem fades_settle_turned_off :
    (∀ k, IsLevel ((Rgb.mk 255 255 255 : Rgb ℚ).channel k)) ∧
    (∀ k, IsLevel ((Rgb.mk 0 0 0 : Rgb ℚ).channel k)) ∧
    (plain 1 1 (Rgb.mk 0 0 0 : Rgb ℚ)).InRange ∧ IsRate (1 / 2) ∧ IsRate (1 / 10) ∧
    ((plain 1 1 (Rgb.mk 0 0 0 : Rgb ℚ)).advanceAll ⟨255, 255, 255⟩ ⟨0, 0, 0⟩
      ([(1 / 2, Framebuffer.full 1 1 true)] ++
        (List.replicate 53 (1 / 10)).map (·, Framebuffer.blank 1 1))).settled = true := by
  have hforeground : ∀ k, IsLevel ((Rgb.mk 255 255 255 : Rgb ℚ).channel k) := by
    rintro (_ | _ | _) <;> exact ⟨by decide, by decide⟩
  have hbackground : ∀ k, IsLevel ((Rgb.mk 0 0 0 : Rgb ℚ).channel k) := by
    rintro (_ | _ | _) <;> exact ⟨by decide, by decide⟩
  have hplain : (plain 1 1 (Rgb.mk 0 0 0 : Rgb ℚ)).InRange := by
    intro x y hx hy k
    simpa [plain] using hbackground k
  have hhalf : IsRate (1 / 2) := ⟨by norm_num, by norm_num⟩
  have hslow : IsRate (1 / 10) := ⟨by norm_num, by norm_num⟩
  refine ⟨hforeground, hbackground, hplain, hhalf, hslow, ?_⟩
  obtain ⟨-, hframes⟩ := fades_settle (w := 1) (h := 1) hforeground hbackground hplain
  obtain ⟨-, hsettle⟩ := hframes [(1 / 2, Framebuffer.full 1 1 true)] (by simpa using hhalf)
  exact (hsettle (Framebuffer.blank 1 1) (List.replicate 53 (1 / 10))
    (fun rate hrate => List.eq_of_mem_replicate hrate ▸ hslow) (by simp)).1

end Canvas
end Fade
end Chip8
