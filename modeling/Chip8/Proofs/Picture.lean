import Chip8.Proofs.Course

/-!
# The picture at rest

A session redraws its picture while the screen is marked to be shown or the picture still fades.
That is enough: where neither is the case, each cell of the picture has exactly the color that the
pixel of the machine asks for. The marks that the machine sets, the pictures that are cleared with
it, and the colors that have arrived keep each other company through every course of a session.
-/

namespace Chip8
namespace Fade

section Channel

variable {α : Type} [Add α] [Sub α] [Mul α] [LT α] [DecidableLT α] [OfNat α 1]

theorem approach_of_arrived {rate target a : α} (harrived : (approach rate target a).2 = true) :
    (approach rate target a).1 = target := by
  simp only [approach] at harrived ⊢
  split at harrived
  · rename_i hnear
    rw [if_pos hnear]
  · contradiction

theorem approachColor_of_arrived {rate : α} {target c : Rgb α}
    (harrived : (approachColor rate target c).2 = true) :
    (approachColor rate target c).1 = target := by
  simp only [approachColor, Bool.and_eq_true] at harrived ⊢
  obtain ⟨⟨hred, hgreen⟩, hblue⟩ := harrived
  rw [approach_of_arrived hred, approach_of_arrived hgreen, approach_of_arrived hblue]

end Channel

namespace Canvas

variable {α : Type} {w h : Nat}

def Shows (v : Canvas α w h) (foreground background : Rgb α) (screen : Framebuffer w h) : Prop :=
  ∀ x y, (hx : x < w) → (hy : y < h) →
    v.colors[x][y] = target foreground background screen x y

theorem shows_plain (foreground background : Rgb α) :
    (plain w h background).Shows foreground background (.blank w h) := by
  intro x y hx hy
  simp [plain, target]

theorem shows_of_settled_advance [Add α] [Sub α] [Mul α] [LT α] [DecidableLT α] [OfNat α 1]
    {v : Canvas α w h} {rate : α} {foreground background : Rgb α} {screen : Framebuffer w h}
    (hsettled : (v.advance rate foreground background screen).settled = true) :
    (v.advance rate foreground background screen).Shows foreground background screen := by
  intro x y hx hy
  have harrived := (settled_advance v rate foreground background screen).mp hsettled x y hx hy
  rw [getElem_advance v rate foreground background screen hx hy]
  exact approachColor_of_arrived harrived

end Canvas
end Fade

namespace Console

variable {w h : Nat}

/-- A step that leaves no mark on the screen has found none and has changed no pixel. -/
theorem unmarked_step {c : Console w h} (hc : c.machine.InRange)
    (hunmarked : c.step.state.machine.redraw = false) :
    c.machine.redraw = false ∧ c.step.state.machine.screen = c.machine.screen := by
  rcases step_cases hc.toWellFormed hc.counter_mem.1 with
    ⟨_, hstep⟩ | ⟨_, why, _, hstep⟩ | ⟨_, _, hstep⟩ <;> rw [hstep] at hunmarked ⊢
  · exact ⟨hunmarked, rfl⟩
  · exact ⟨hunmarked, rfl⟩
  · have hredraw := Machine.redraw_result c.machine.advance c.tall c.noise.next c.machine.current
    have hboth : (c.machine.current.draws || c.machine.advance.redraw) = false :=
      hredraw.symm.trans hunmarked
    obtain ⟨hdraws, hbefore⟩ := Bool.or_eq_false_iff.mp hboth
    exact ⟨hbefore, Machine.screen_result c.machine.advance c.tall c.noise.next hdraws⟩

end Console

namespace Display

variable {w h : Nat}

theorem exists_colors_of_ofConfig {c : Config} {d : Display w h} {effects : List Effect}
    (hd : ofConfig w h c = .ok (d, effects)) :
    ∃ foreground background, c.foreground = some foreground ∧ c.background = some background ∧
      d.foreground = Color.rgb foreground ∧ d.background = Color.rgb background ∧
      d.canvas = .plain w h (Color.rgb background).toFloat := by
  unfold ofConfig at hd
  split at hd
  · rename_i foreground background hforeground hbackground
    obtain ⟨rfl, _⟩ := Prod.mk.inj (Except.ok.inj hd)
    exact ⟨foreground, background, hforeground, hbackground, rfl, rfl, rfl⟩
  · contradiction

end Display

namespace Session

variable {w h : Nat}

/-- Every cell of the picture has the color of its pixel: the first of two colors where the pixel is
lit, the second where it is not. -/
def Depicts (s : Session w h) (foreground background : Int) : Prop :=
  ∀ x y, (hx : x < w) → (hy : y < h) →
    s.display.canvas.colors[x][y] =
      (Color.rgb (if s.machine.screen.lit x y then foreground else background)).toFloat

/-- A session in two colors whose picture is right unless it is going to be drawn. -/
structure Presents (foreground background : Int) (s : Session w h) : Prop where
  inRange : s.machine.InRange
  foreground_eq : s.display.foreground = Color.rgb foreground
  background_eq : s.display.background = Color.rgb background
  shows : s.machine.redraw = false → s.display.canvas.settled = true →
    s.display.canvas.Shows s.display.foreground.toFloat s.display.background.toFloat
      s.machine.screen

section Presents

variable {foreground background : Int} {s : Session w h}

theorem presents_reacts {t : Session w h} (hs : Presents foreground background s)
    (hst : Reacts s t) : Presents foreground background t := by
  have hrange := inRange_reacts hs.inRange hst
  cases hst with
  | restart hreset | replace hreset =>
    refine ⟨hrange, hs.foreground_eq, hs.background_eq, fun hmark => ?_⟩
    exact absurd ((Machine.redraw_of_reset hreset).symm.trans hmark) (by decide)
  | _ => exact ⟨hrange, hs.foreground_eq, hs.background_eq, hs.shows⟩

theorem presents_instruction (hs : Presents foreground background s) :
    Presents foreground background s.instruction.state := by
  have hrange := inRange_instruction hs.inRange
  simp only [instruction, Act.state, Outcome.state_map] at hrange ⊢
  refine ⟨hrange, hs.foreground_eq, hs.background_eq, fun hmark hsettled => ?_⟩
  obtain ⟨hbefore, hscreen⟩ := Console.unmarked_step hs.inRange hmark
  have hshows := hs.shows hbefore hsettled
  simp only [machine] at hshows ⊢
  rwa [hscreen]

theorem presents_timers (hs : Presents foreground background s) :
    Presents foreground background s.timers.1 :=
  ⟨Machine.inRange_decay hs.inRange, hs.foreground_eq, hs.background_eq, hs.shows⟩

/-- A picture that is drawn is right once it is settled; one that is not drawn was right before. -/
theorem presents_refresh (hs : Presents foreground background s) :
    Presents foreground background s.refresh.1 := by
  have hrange := inRange_refresh hs.inRange
  unfold refresh at hrange ⊢
  by_cases hshow : s.machine.redraw || s.display.fading
  · rw [if_pos hshow] at hrange ⊢
    exact ⟨hrange, hs.foreground_eq, hs.background_eq, fun _ hsettled =>
      Fade.Canvas.shows_of_settled_advance hsettled⟩
  · rw [if_neg hshow]
    exact hs

theorem presents_respond (hs : Presents foreground background s) (a : Stimulus) :
    Presents foreground background (s.respond a).state := by
  cases a with
  | event e => exact handle_keeps (fun _ _ => presents_reacts) hs e
  | tick =>
    exact tick_keeps (fun _ => presents_instruction) (fun _ => presents_timers)
      (fun _ => presents_refresh) hs

theorem presents_course (hs : Presents foreground background s) (stimuli : List Stimulus) :
    Presents foreground background (s.course stimuli) :=
  course_keeps (fun _ a _ _ ht => presents_respond ht a) hs

theorem depicts_of_presents (hs : Presents foreground background s)
    (hmark : s.machine.redraw = false) (hfading : s.display.fading = false) :
    s.Depicts foreground background := by
  intro x y hx hy
  have hsettled : s.display.canvas.settled = true := by simpa [Display.fading] using hfading
  have hcell := hs.shows hmark hsettled x y hx hy
  rw [hs.foreground_eq, hs.background_eq, Fade.Canvas.target] at hcell
  rw [hcell, apply_ite Color.rgb, apply_ite Rgb.toFloat]

end Presents

/-- On a session with a machine as it is built and a new display, a picture at rest is the screen:
whatever has come in and however many ticks have passed, once the screen is not marked to be shown
and the picture does not fade, every cell has the color of its pixel. Every completed tick takes the
mark away, so that no change of the screen is left undrawn. -/
theorem depicts_at_rest {s : Session w h} {v : Variant} {program : List UInt8} {c : Config}
    {effects : List Effect} (hmachine : Machine.create w h v program = .ok s.machine)
    (hdisplay : Display.ofConfig w h c = .ok (s.display, effects)) (stimuli : List Stimulus) :
    ∃ foreground background, c.foreground = some foreground ∧ c.background = some background ∧
      ((s.course stimuli).machine.redraw = false → (s.course stimuli).display.fading = false →
        (s.course stimuli).Depicts foreground background) ∧
      ∀ t, (s.course stimuli).tick.outcome = .done t →
        t.machine.redraw = false ∧
          (t.display.fading = false → t.Depicts foreground background) := by
  obtain ⟨hp, hloaded⟩ := Machine.eq_loaded_of_create hmachine
  obtain ⟨foreground, background, hforeground, hbackground, hfore, hback, hcanvas⟩ :=
    Display.exists_colors_of_ofConfig hdisplay
  have hpresents (hw : 0 < w) (hh : 0 < h) : Presents foreground background s := by
    refine ⟨?_, hfore, hback, fun _ _ => ?_⟩
    · rw [hloaded]
      exact Machine.inRange_loaded hw hh v hp false
    · rw [hcanvas, hback, hloaded]
      exact Fade.Canvas.shows_plain _ _
  have hrest (stimuli : List Stimulus) (hmark : (s.course stimuli).machine.redraw = false)
      (hfading : (s.course stimuli).display.fading = false) :
      (s.course stimuli).Depicts foreground background := by
    intro x y hx hy
    have hs := presents_course (hpresents (Nat.zero_lt_of_lt hx) (Nat.zero_lt_of_lt hy)) stimuli
    exact depicts_of_presents hs hmark hfading x y hx hy
  refine ⟨foreground, background, hforeground, hbackground, hrest stimuli, fun t hticked => ?_⟩
  have hmark := redraw_of_tick hticked
  have hcourse : s.course (stimuli ++ [.tick]) = t := by
    rw [course_concat]
    simp only [respond, Act.state, hticked, Outcome.state_done]
  refine ⟨hmark, fun hfading => ?_⟩
  subst hcourse
  exact hrest _ hmark hfading

/-- A program started again between two ticks, in white on black. -/
theorem depicts_at_rest_reset :
    ∃ (s : Session 64 32) (effects : List Effect),
      Machine.create 64 32 .chip8 [0x12, 0x00] = .ok s.machine ∧
      Display.ofConfig 64 32 {} = .ok (s.display, effects) ∧
      ∀ t, (s.course [.tick, .event (.key true 42 0)]).tick.outcome = .done t →
        t.machine.redraw = false ∧
          (t.display.fading = false → t.Depicts 0xffffffff 0x000000ff) := by
  obtain ⟨s, launched, _, hstart, _⟩ := start_standstill
  obtain ⟨hp, tone, display, _, hdisplay, hs⟩ := eq_ofMachine_of_start hstart
  have hmachine : Machine.create 64 32 .chip8 [0x12, 0x00] = .ok s.machine := by
    rw [Machine.create_eq .chip8 hp, hs]
    rfl
  have hshown : Display.ofConfig 64 32 {} = .ok (s.display, display.2) := by
    rw [hdisplay, hs]
    rfl
  obtain ⟨foreground, background, hforeground, hbackground, _, hticked⟩ :=
    depicts_at_rest hmachine hshown [.tick, .event (.key true 42 0)]
  obtain rfl := Option.some.inj hforeground
  obtain rfl := Option.some.inj hbackground
  exact ⟨s, display.2, hmachine, hshown, hticked⟩

end Session
end Chip8
