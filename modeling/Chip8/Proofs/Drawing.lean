import Chip8.Proofs.Decoding
import Chip8.Proofs.Move
import Chip8.Proofs.Pixel
import Chip8.Proofs.Transition

/-!
# Drawings

A drawing turns over the cells under its set bits and touches neither the memory in which its bytes
lie nor what decides its shape. So after any drawings a cell has changed exactly if an odd number of
them covers it: their order does not matter, and two equal ones cancel out. The flag only tells about
the last of them.
-/

namespace Chip8

/-- A sprite at an address in memory, and the coordinates at which it is drawn. -/
structure Drawing where
  index : Nat
  column : UInt8
  row : UInt8
  rows : Fin 16

/-- A drawing and the two registers that take its coordinates. -/
structure DrawRequest extends Drawing where
  x : Register
  y : Register
  apart : x ≠ y

namespace Machine

variable {w h : Nat}

/-- A machine with pixels, with all its memory and registers. -/
structure Drawable (m : Machine w h) : Prop where
  width_pos : 0 < w
  height_pos : 0 < h
  memory_size : m.memory.size = memorySize
  registers_size : m.registers.size = registerCount

def prepare (m : Machine w h) (r : DrawRequest) : Machine w h :=
  ({ m with index := r.index }.setRegister r.x r.column).setRegister r.y r.row

theorem WellFormed.drawable {m : Machine w h} (hm : m.WellFormed) : m.Drawable :=
  ⟨hm.width_pos, hm.height_pos, hm.memory_size, hm.registers_size⟩

theorem get_fresh (v : Variant) (k : Nat) :
    (fresh w h v).memory.get k = digitRows[k]?.getD 0 := by
  have hfit : 0 + digitRows.length ≤ (Bytes.blank memorySize).size := by
    rw [Bytes.size_blank]
    decide
  refine (Bytes.get_replace _ hfit rfl k).trans ?_
  by_cases hk : k < digitRows.length
  · rw [if_pos ⟨Nat.zero_le k, by omega⟩, Nat.sub_zero]
  · rw [if_neg (by omega), Bytes.get_blank, List.getElem?_eq_none (by omega), Option.getD_none]

theorem drawable_fresh (hw : 0 < w) (hh : 0 < h) (v : Variant) : (fresh w h v).Drawable where
  width_pos := hw
  height_pos := hh
  memory_size := by
    have hfit : 0 + digitRows.length ≤ (Bytes.blank memorySize).size := by
      rw [Bytes.size_blank]
      decide
    exact (Bytes.size_replace _ hfit rfl).trans (Bytes.size_blank memorySize)
  registers_size := Bytes.size_blank registerCount

theorem memory_prepare (m : Machine w h) (r : DrawRequest) :
    (m.prepare r).memory = m.memory := rfl

theorem variant_prepare (m : Machine w h) (r : DrawRequest) :
    (m.prepare r).variant = m.variant := rfl

theorem flag_result_draw {m : Machine w h} (hm : m.registers.size = registerCount) (tall : Bool)
    (random : UInt8) (x y : Register) (rows : Fin 16) :
    (m.result tall random (.draw x y rows)).register Register.flag =
      flagOf (m.drawn tall x y rows).2 := by
  have hscreen : ({ m with screen := (m.drawn tall x y rows).1 } : Machine w h).registers.size =
      registerCount := hm
  exact (register_setRegister hscreen Register.flag _ Register.flag).trans (if_pos rfl)

variable {m : Machine w h} (hm : m.Drawable) (r : DrawRequest)
include hm

theorem wellFormed_prepare : (m.prepare r).WellFormed where
  width_pos := hm.width_pos
  height_pos := hm.height_pos
  memory_size := hm.memory_size
  registers_size := by simpa [prepare, setRegister] using hm.registers_size
  index_nonneg := Int.natCast_nonneg r.index

theorem register_prepare :
    (m.prepare r).register r.x = r.column ∧ (m.prepare r).register r.y = r.row := by
  have hsize : ({ m with index := r.index } : Machine w h).registers.size = registerCount :=
    hm.registers_size
  have hsize' : (({ m with index := r.index } : Machine w h).setRegister r.x
      r.column).registers.size = registerCount := by
    simpa [setRegister] using hm.registers_size
  constructor
  · rw [prepare, register_setRegister hsize', if_neg r.apart.symm, register_setRegister hsize,
      if_pos rfl]
  · rw [prepare, register_setRegister hsize', if_pos rfl]

end Machine

namespace Console

variable {w h : Nat}

def draw (c : Console w h) (r : DrawRequest) : Outcome (Console w h) :=
  (c.mapMachine (·.prepare r)).execute (Instruction.draw r.x r.y r.rows).toOpcode

def drawAll (c : Console w h) : List DrawRequest → Outcome (Console w h)
  | [] => .done c
  | r :: requests => (c.draw r).andThen (·.drawAll requests)

def shape (c : Console w h) (d : Drawing) : Nat × Nat := c.machine.spriteShape c.tall d.rows

def InMemory (c : Console w h) (d : Drawing) : Prop :=
  d.index + (c.shape d).1 * (c.shape d).2 ≤ memorySize

/-- A set bit of a drawing falls on a cell of the screen. The coordinates of the first bit wrap
around the screen, those of the others do not. -/
def Covers (c : Console w h) (d : Drawing) (x y : Nat) : Prop :=
  ∃ row column, row < (c.shape d).1 ∧ column < 8 * (c.shape d).2 ∧
    (c.machine.memory.get (d.index + row * (c.shape d).2 + column / 8)).toNat.testBit
      (7 - column % 8) = true ∧
    d.column.toNat % w + column < w ∧ d.row.toNat % h + row < h ∧
    (x, y) = (d.column.toNat % w + column, d.row.toNat % h + row)

/-- The cells that a drawing turns over, in their order. -/
def footprint (c : Console w h) (d : Drawing) : List (Nat × Nat) :=
  (Sprite.ofMemory c.machine.memory d.index (c.shape d).1 (c.shape d).2).cells w h
    (d.column.toNat % w) (d.row.toNat % h)

def covering (c : Console w h) (drawings : List Drawing) (x y : Nat) : Nat :=
  drawings.countP fun d => (x, y) ∈ c.footprint d

/-- The flag is set if something is the case, and cleared if not. -/
def Signals (c : Console w h) (p : Prop) : Prop :=
  (p → c.machine.register Register.flag = 1) ∧ (¬p → c.machine.register Register.flag = 0)

variable {c : Console w h}

theorem signals_of_flagOf {b : Bool} {p : Prop}
    (hflag : c.machine.register Register.flag = Machine.flagOf b) (hp : b = true ↔ p) :
    c.Signals p := by
  rw [Machine.flagOf] at hflag
  exact ⟨fun h => hflag.trans (if_pos (hp.mpr h)), fun h => hflag.trans (if_neg (mt hp.mp h))⟩

theorem mem_footprint (hc : c.machine.Drawable) {d : Drawing} (hin : c.InMemory d) (x y : Nat) :
    (x, y) ∈ c.footprint d ↔ c.Covers d x y := by
  have hbits : d.index + (c.shape d).1 * (c.shape d).2 ≤ c.machine.memory.size := by
    rw [hc.memory_size]
    exact hin
  rw [footprint, Sprite.mem_cells]
  simp only [Sprite.height_ofMemory, Sprite.width_ofMemory]
  refine exists_congr fun row => exists_congr fun column => ?_
  refine and_congr_right fun hrow => and_congr_right fun hcolumn => ?_
  rw [Sprite.bit_ofMemory _ hbits hrow hcolumn]

/-- Some drawings have been made: each cell has been turned over by those that cover it, and what
drawings depend on is as before. -/
structure Drawn (c : Console w h) (drawings : List Drawing) (after : Console w h) : Prop where
  drawable : after.machine.Drawable
  memory : after.machine.memory = c.machine.memory
  variant : after.machine.variant = c.machine.variant
  tall : after.tall = c.tall
  lit : ∀ x y, after.machine.screen.lit x y =
    (c.machine.screen.lit x y ^^ decide (c.covering drawings x y % 2 = 1))

section Drawn

variable {drawings : List Drawing} {after : Console w h} (hdrawn : c.Drawn drawings after)
include hdrawn

theorem shape_of_drawn (d : Drawing) : after.shape d = c.shape d := by
  simp only [shape, Machine.spriteShape, hdrawn.variant, hdrawn.tall]

theorem inMemory_of_drawn {d : Drawing} (hin : c.InMemory d) : after.InMemory d := by
  simpa only [InMemory, shape_of_drawn hdrawn] using hin

theorem footprint_of_drawn (d : Drawing) : after.footprint d = c.footprint d := by
  simp only [footprint, shape_of_drawn hdrawn, hdrawn.memory]

theorem covers_of_drawn (d : Drawing) (x y : Nat) : after.Covers d x y ↔ c.Covers d x y := by
  simp only [Covers, shape_of_drawn hdrawn, hdrawn.memory]

end Drawn

theorem drawn_nil (hc : c.machine.Drawable) : c.Drawn [] c :=
  ⟨hc, rfl, rfl, rfl, fun _ _ => by simp [covering]⟩

theorem drawn_append {drawings later : List Drawing} {mid after : Console w h}
    (hfirst : c.Drawn drawings mid) (hthen : mid.Drawn later after) :
    c.Drawn (drawings ++ later) after where
  drawable := hthen.drawable
  memory := hthen.memory.trans hfirst.memory
  variant := hthen.variant.trans hfirst.variant
  tall := hthen.tall.trans hfirst.tall
  lit := by
    intro x y
    have hlater : mid.covering later x y = c.covering later x y := by
      simp only [covering, footprint_of_drawn hfirst]
    have hsum : c.covering (drawings ++ later) x y =
        c.covering drawings x y + c.covering later x y := List.countP_append
    rw [hthen.lit, hfirst.lit, hlater, hsum, Bool.xor_assoc]
    congr 1
    rcases Nat.mod_two_eq_zero_or_one (c.covering drawings x y) with ha | ha <;>
      rcases Nat.mod_two_eq_zero_or_one (c.covering later x y) with hb | hb <;>
      simp [Nat.add_mod, ha, hb]

theorem execute_draw_eq (hc : c.machine.Drawable) {x y : Register} {rows : Fin 16}
    (hfree : c.machine.advance.obstacle? c.tall (.draw x y rows) = none) :
    c.execute (Instruction.draw x y rows).toOpcode = .done { c with
      machine := c.machine.advance.result c.tall c.noise.next (.draw x y rows) } := by
  have hword : Instruction.ofOpcode (Instruction.draw x y rows).toOpcode = .draw x y rows :=
    Instruction.ofOpcode_toOpcode rfl
  have hperform := Machine.perform_draw (m := c.machine.advance) hc.width_pos hc.height_pos
    hc.registers_size c.tall c.noise.next x y rows
  rw [hfree, Option.elim_none] at hperform
  simp only [execute, Machine.execute, hword, hperform]
  rfl

theorem obstacle?_draw (hc : c.machine.Drawable) {r : DrawRequest} (hin : c.InMemory r.toDrawing) :
    (c.machine.prepare r).advance.obstacle? c.tall (.draw r.x r.y r.rows) = none := by
  refine Machine.overrun?_eq_none_iff.mpr ?_
  rw [(Machine.wellFormed_advance (Machine.wellFormed_prepare hc r)).memory_size]
  have hnat : ((r.index + (c.shape r.toDrawing).1 * (c.shape r.toDrawing).2 : Nat) : Int) ≤
      memorySize := Int.ofNat_le.mpr hin
  rwa [Int.natCast_add] at hnat

theorem draw_eq (hc : c.machine.Drawable) {r : DrawRequest} (hin : c.InMemory r.toDrawing) :
    c.draw r = .done { c with
      machine := (c.machine.prepare r).advance.result c.tall c.noise.next
        (.draw r.x r.y r.rows) } :=
  execute_draw_eq (c := c.mapMachine (·.prepare r)) (Machine.wellFormed_prepare hc r).drawable
    (obstacle?_draw hc hin)

theorem drawn_prepare (hc : c.machine.Drawable) (r : DrawRequest) :
    (c.machine.prepare r).advance.drawn c.tall r.x r.y r.rows =
      c.machine.screen.flipAll (c.footprint r.toDrawing) := by
  obtain ⟨hx, hy⟩ := Machine.register_prepare hc r
  have horigin : (c.machine.prepare r).advance.spriteOrigin r.x r.y =
      (r.column.toNat % w, r.row.toNat % h) := by
    rw [← hx, ← hy]
    rfl
  rw [Machine.drawn, horigin]
  rfl

theorem covering_singleton (d : Drawing) (x y : Nat) :
    c.covering [d] x y = if (x, y) ∈ c.footprint d then 1 else 0 := by
  simp [covering]

/-- A drawing whose bytes lie in memory is made, and the flag tells whether it covers a cell that
was lit. -/
theorem draw_done (hc : c.machine.Drawable) {r : DrawRequest} (hin : c.InMemory r.toDrawing) :
    ∃ after, c.draw r = .done after ∧ c.Drawn [r.toDrawing] after ∧
      after.Signals (∃ x y, c.Covers r.toDrawing x y ∧ c.machine.screen.lit x y = true) := by
  have hnodup : (c.footprint r.toDrawing).Nodup := Sprite.nodup_cells _ _ _ _ _
  have hwithin : ∀ p ∈ c.footprint r.toDrawing, p.1 < w ∧ p.2 < h :=
    fun p hp => Sprite.cells_within _ _ _ _ _ hp
  have hdrawn := drawn_prepare hc r
  have hm := Machine.wellFormed_advance (Machine.wellFormed_prepare hc r)
  have hresult := Machine.wellFormed_result hm (obstacle?_draw hc hin) c.noise.next
  refine ⟨_, draw_eq hc hin, ⟨hresult.drawable, ?_, ?_, rfl, ?_⟩, ?_⟩
  · exact (Machine.memory_result _ _ _ rfl).trans (Machine.memory_prepare c.machine r)
  · exact (Machine.variant_result _ _ _ _).trans (Machine.variant_prepare c.machine r)
  · intro x y
    show ((c.machine.prepare r).advance.drawn c.tall r.x r.y r.rows).1.lit x y = _
    rw [hdrawn, Framebuffer.lit_flipAll _ hnodup hwithin, covering_singleton]
    by_cases hxy : (x, y) ∈ c.footprint r.toDrawing <;> simp [hxy]
  · have hcollision := Framebuffer.collision_flipAll c.machine.screen hnodup
    simp only [mem_footprint hc hin] at hcollision
    have hflag := Machine.flag_result_draw hm.registers_size c.tall c.noise.next r.x r.y r.rows
    rw [hdrawn] at hflag
    exact signals_of_flagOf hflag hcollision

theorem drawAll_append (c : Console w h) (requests later : List DrawRequest) :
    c.drawAll (requests ++ later) = (c.drawAll requests).andThen (·.drawAll later) := by
  induction requests generalizing c with
  | nil => rfl
  | cons r requests ih =>
    simp only [List.cons_append, drawAll]
    cases c.draw r with
    | done mid => exact ih mid
    | failed why mid => rfl

theorem drawAll_done (hc : c.machine.Drawable) {requests : List DrawRequest}
    (hin : ∀ r ∈ requests, c.InMemory r.toDrawing) :
    ∃ after, c.drawAll requests = .done after ∧
      c.Drawn (requests.map DrawRequest.toDrawing) after := by
  induction requests generalizing c with
  | nil => exact ⟨c, rfl, drawn_nil hc⟩
  | cons r requests ih =>
    obtain ⟨mid, hdraw, hdrawn, _⟩ := draw_done hc (hin r List.mem_cons_self)
    obtain ⟨after, hrest, hlater⟩ := ih hdrawn.drawable fun r' hr' =>
      inMemory_of_drawn hdrawn (hin r' (List.mem_cons_of_mem r hr'))
    refine ⟨after, ?_, drawn_append hdrawn hlater⟩
    rw [drawAll, hdraw]
    exact hrest

theorem drawAll_concat (hc : c.machine.Drawable) {before : List DrawRequest} {r : DrawRequest}
    (hbefore : ∀ r' ∈ before, c.InMemory r'.toDrawing) (hin : c.InMemory r.toDrawing) :
    ∃ earlier after, c.drawAll before = .done earlier ∧
      c.Drawn (before.map DrawRequest.toDrawing) earlier ∧
      c.drawAll (before ++ [r]) = .done after ∧ earlier.Drawn [r.toDrawing] after ∧
      after.Signals
        (∃ x y, c.Covers r.toDrawing x y ∧ earlier.machine.screen.lit x y = true) := by
  obtain ⟨earlier, hall, hdrawn⟩ := drawAll_done hc hbefore
  obtain ⟨after, hdraw, hlast, hflag⟩ := draw_done hdrawn.drawable (inMemory_of_drawn hdrawn hin)
  simp only [covers_of_drawn hdrawn] at hflag
  refine ⟨earlier, after, hall, hdrawn, ?_, hlast, hflag⟩
  rw [drawAll_append, hall, Outcome.andThen, drawAll, hdraw]
  rfl

/-- Where a drawing is made twice, the second one collides on the cells that were dark in front of
the first. -/
theorem drawAll_concat_twice (hc : c.machine.Drawable) {before : List DrawRequest}
    {r r' : DrawRequest} (hbefore : ∀ r' ∈ before, c.InMemory r'.toDrawing)
    (hin : c.InMemory r.toDrawing) (hequal : r.toDrawing = r'.toDrawing) :
    ∃ earlier after, c.drawAll before = .done earlier ∧
      c.drawAll (before ++ [r, r']) = .done after ∧
      after.Signals
        (∃ x y, c.Covers r.toDrawing x y ∧ earlier.machine.screen.lit x y = false) := by
  obtain ⟨earlier, mid, hall, hdrawn, honce, hfirst, _⟩ := drawAll_concat hc hbefore hin
  have honeMore : ∀ r' ∈ before ++ [r], c.InMemory r'.toDrawing := by
    intro r' hr'
    rcases List.mem_append.mp hr' with hr' | hr'
    · exact hbefore r' hr'
    · exact List.mem_singleton.mp hr' ▸ hin
  obtain ⟨mid', after, honce', _, htwice, _, hflag⟩ := drawAll_concat hc honeMore (hequal ▸ hin)
  obtain rfl : mid = mid' := Outcome.done.inj (honce.symm.trans honce')
  rw [← hequal] at hflag
  rw [List.append_assoc] at htwice
  refine ⟨earlier, after, hall, htwice, ?_⟩
  have hturned : ∀ x y, c.Covers r.toDrawing x y →
      mid.machine.screen.lit x y = !earlier.machine.screen.lit x y := by
    intro x y hcovers
    have hmem := (mem_footprint hdrawn.drawable (inMemory_of_drawn hdrawn hin) x y).mpr
      ((covers_of_drawn hdrawn _ x y).mpr hcovers)
    rw [hfirst.lit, covering_singleton, if_pos hmem]
    exact Bool.xor_true _
  have hcollides : (∃ x y, c.Covers r.toDrawing x y ∧ mid.machine.screen.lit x y = true) ↔
      ∃ x y, c.Covers r.toDrawing x y ∧ earlier.machine.screen.lit x y = false := by
    refine exists_congr fun x => exists_congr fun y => and_congr_right fun hcovers => ?_
    rw [hturned x y hcovers, Bool.not_eq_true']
  rwa [hcollides] at hflag

/-- A screen depends on how often its cells are covered, and on this only up to an even number. -/
theorem screen_eq_of_drawn {drawings drawings' : List Drawing} {after after' : Console w h}
    (hdrawn : c.Drawn drawings after) (hdrawn' : c.Drawn drawings' after')
    (hcovering : ∀ x y, c.covering drawings x y % 2 = c.covering drawings' x y % 2) :
    after.machine.screen = after'.machine.screen := by
  ext x y
  rw [hdrawn.lit, hdrawn'.lit, hcovering]

theorem covering_perm {drawings drawings' : List Drawing} (hperm : drawings.Perm drawings')
    (x y : Nat) : c.covering drawings x y = c.covering drawings' x y :=
  hperm.countP_eq _

theorem covering_twice (front middle back : List Drawing) (d : Drawing) (x y : Nat) :
    c.covering (front ++ d :: middle ++ d :: back) x y % 2 =
      c.covering (front ++ middle ++ back) x y % 2 := by
  simp only [covering, List.countP_append, List.countP_cons]
  omega

/-- Drawings whose bytes lie in memory are all made. The screen that they give does not depend on
their order, nor on the registers that were used, and two equal ones among them may be left out. The
flag tells about the last one only; where the last two are equal, it tells whether they cover a cell
that was dark in front of them. -/
theorem drawAll_perm_and_cancel (hc : c.machine.Drawable) {requests : List DrawRequest}
    (hin : ∀ r ∈ requests, c.InMemory r.toDrawing) :
    ∃ after, c.drawAll requests = .done after ∧
      (∀ others : List DrawRequest,
        (others.map DrawRequest.toDrawing).Perm (requests.map DrawRequest.toDrawing) →
        ∃ after', c.drawAll others = .done after' ∧
          after'.machine.screen = after.machine.screen) ∧
      (∀ front r middle r' back, requests = front ++ r :: middle ++ r' :: back →
        r.toDrawing = r'.toDrawing →
        ∃ after', c.drawAll (front ++ middle ++ back) = .done after' ∧
          after'.machine.screen = after.machine.screen) ∧
      (∀ before r, requests = before ++ [r] →
        ∃ earlier, c.drawAll before = .done earlier ∧
          after.Signals
            (∃ x y, c.Covers r.toDrawing x y ∧ earlier.machine.screen.lit x y = true)) ∧
      ∀ before r r', requests = before ++ [r, r'] → r.toDrawing = r'.toDrawing →
        ∃ earlier, c.drawAll before = .done earlier ∧
          after.Signals
            (∃ x y, c.Covers r.toDrawing x y ∧ earlier.machine.screen.lit x y = false) := by
  obtain ⟨after, hall, hdrawn⟩ := drawAll_done hc hin
  refine ⟨after, hall, ?_, ?_, ?_, ?_⟩
  · intro others hperm
    have hothers : ∀ r ∈ others, c.InMemory r.toDrawing := by
      intro r hr
      obtain ⟨r', hr', heq⟩ := List.mem_map.mp (hperm.subset (List.mem_map_of_mem hr))
      exact heq ▸ hin r' hr'
    obtain ⟨after', hall', hdrawn'⟩ := drawAll_done hc hothers
    exact ⟨after', hall', screen_eq_of_drawn hdrawn' hdrawn
      fun x y => congrArg (· % 2) (covering_perm hperm x y)⟩
  · rintro front r middle r' back rfl hequal
    have hothers : ∀ r ∈ front ++ middle ++ back, c.InMemory r.toDrawing := by
      intro r hr
      refine hin r ?_
      simp only [List.mem_append, List.mem_cons] at hr ⊢
      tauto
    obtain ⟨after', hall', hdrawn'⟩ := drawAll_done hc hothers
    refine ⟨after', hall', screen_eq_of_drawn hdrawn' hdrawn fun x y => ?_⟩
    simp only [List.map_append, List.map_cons, ← hequal]
    exact (covering_twice _ _ _ _ x y).symm
  · rintro before r rfl
    obtain ⟨earlier, after', hearlier, _, hall', _, hflag⟩ := drawAll_concat hc
      (fun r' hr' => hin r' (List.mem_append_left [r] hr')) (hin r List.mem_concat_self)
    obtain rfl : after = after' := Outcome.done.inj (hall.symm.trans hall')
    exact ⟨earlier, hearlier, hflag⟩
  · rintro before r r' rfl hequal
    obtain ⟨earlier, after', hearlier, hall', hflag⟩ := drawAll_concat_twice hc
      (fun s hs => hin s (List.mem_append_left [r, r'] hs)) (hin r (by simp)) hequal
    obtain rfl : after = after' := Outcome.done.inj (hall.symm.trans hall')
    exact ⟨earlier, hearlier, hflag⟩

/-- A digit drawn twice at the lower right corner, where most of it is not seen. -/
theorem drawAll_perm_and_cancel_corner :
    let c : Console 64 32 := ⟨Machine.fresh 64 32 .superchip, Noise.cycle [0], true⟩
    let r : DrawRequest :=
      { index := 0, column := 126, row := 95, rows := 5, x := 1, y := 2, apart := by decide }
    c.machine.Drawable ∧ (∀ s ∈ [r, r], c.InMemory s.toDrawing) ∧
      ∃ after, c.drawAll [r, r] = .done after ∧ after.machine.screen = c.machine.screen ∧
        after.machine.register Register.flag = 1 := by
  intro c r
  have hc : c.machine.Drawable := Machine.drawable_fresh (by decide) (by decide) .superchip
  have hshape : c.shape r.toDrawing = (5, 1) := rfl
  have hin : ∀ s ∈ [r, r], c.InMemory s.toDrawing := by
    intro s hs
    have hs' : s = r := by simpa using hs
    rw [hs', InMemory, hshape]
    decide
  have hcovers : c.Covers r.toDrawing 62 31 := by
    have hbyte : c.machine.memory.get 0 = 0xf0 := Machine.get_fresh .superchip 0
    have hbit : (c.machine.memory.get 0).toNat.testBit 7 = true := by
      rw [hbyte]
      rfl
    rw [Covers, hshape]
    exact ⟨0, 0, by decide, by decide, hbit, by decide, by decide, by decide⟩
  obtain ⟨after, hall, _, hcancel, _, htwice⟩ := drawAll_perm_and_cancel hc hin
  obtain ⟨after', hnone, hscreen⟩ := hcancel [] r [] r [] rfl rfl
  obtain ⟨earlier, hnone', hflag⟩ := htwice [] r r rfl rfl
  obtain rfl : c = after' := Outcome.done.inj hnone
  obtain rfl : c = earlier := Outcome.done.inj hnone'
  refine ⟨hc, hin, after, hall, hscreen.symm, hflag.1 ⟨62, 31, hcovers, ?_⟩⟩
  exact Framebuffer.lit_blank 62 31

end Console
end Chip8
