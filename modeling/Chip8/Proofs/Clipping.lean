import Chip8.Proofs.Drawing

/-!
# One drawing, cell by cell

A sprite is laid over the screen with its upper left corner on a cell of the screen, and what sticks
out at the right or at the bottom is cut off. In what is left each cell is turned over whose bit is
set, and no other. The flag tells whether one of them was lit. Nothing but the bytes of the sprite
is read from memory, and the corner is found before the flag is written.
-/

namespace Chip8

/-- A rectangle of bits, given by row and column, with its upper left corner on a cell. -/
structure Stencil where
  x : Nat
  y : Nat
  width : Nat
  height : Nat
  bit : Nat → Nat → Bool

def Stencil.Contains (s : Stencil) (w h i j : Nat) : Prop :=
  (s.x ≤ i ∧ i < min (s.x + s.width) w) ∧ s.y ≤ j ∧ j < min (s.y + s.height) h

namespace Sprite

def stencil (s : Sprite) (x y : Nat) : Stencil := ⟨x, y, s.width, s.height, s.bit⟩

theorem mem_cells_iff (s : Sprite) (w h x y : Nat) (i j : Nat) :
    (i, j) ∈ s.cells w h x y ↔
      (s.stencil x y).Contains w h i j ∧ s.bit (j - y) (i - x) = true := by
  rw [Sprite.mem_cells]
  constructor
  · rintro ⟨r, c, hr, hc, hbit, hx, hy, heq⟩
    obtain ⟨rfl, rfl⟩ := Prod.mk.inj heq
    rw [Nat.add_sub_cancel_left, Nat.add_sub_cancel_left]
    refine ⟨⟨?_, ?_⟩, hbit⟩
    · show x ≤ x + c ∧ x + c < min (x + s.width) w
      omega
    · show y ≤ y + r ∧ y + r < min (y + s.height) h
      omega
  · rintro ⟨⟨hcolumn, hrow⟩, hbit⟩
    have hcolumn' : x ≤ i ∧ i < min (x + s.width) w := hcolumn
    have hrow' : y ≤ j ∧ j < min (y + s.height) h := hrow
    refine ⟨j - y, i - x, by omega, by omega, hbit, by omega, by omega, Prod.ext ?_ ?_⟩
    · show i = x + (i - x)
      omega
    · show j = y + (j - y)
      omega

/-- Two memories that agree on the bytes of a sprite hold the same sprite. -/
theorem ofMemory_congr {b b' : Bytes} {a height bytesPerRow : Nat}
    (hin : a + height * bytesPerRow ≤ b.size) (hin' : a + height * bytesPerRow ≤ b'.size)
    (hsame : ∀ k, a ≤ k → k < a + height * bytesPerRow → b.get k = b'.get k) :
    ofMemory b a height bytesPerRow = ofMemory b' a height bytesPerRow := by
  have hrows : ∀ r ∈ List.range height, b.block (a + r * bytesPerRow : Nat) bytesPerRow =
      b'.block (a + r * bytesPerRow : Nat) bytesPerRow := by
    intro r hr
    have hnext : (r + 1) * bytesPerRow ≤ height * bytesPerRow :=
      Nat.mul_le_mul_right _ (List.mem_range.mp hr)
    rw [Nat.add_mul] at hnext
    rw [b.block_eq (by omega), b'.block_eq (by omega)]
    refine List.map_congr_left fun k hk => hsame _ (by omega) ?_
    have := List.mem_range.mp hk
    omega
  unfold ofMemory
  congr 1
  exact List.map_congr_left fun r hr => congrArg bigEndian (hrows r hr)

end Sprite

namespace Framebuffer

variable {w h : Nat} (f : Framebuffer w h) (s : Sprite)

theorem lit_flipAll_cells {x y i j : Nat} (hin : (s.stencil x y).Contains w h i j) :
    (f.flipAll (s.cells w h x y)).1.lit i j = (f.lit i j ^^ s.bit (j - y) (i - x)) := by
  rw [lit_flipAll f (s.nodup_cells w h x y) fun p => s.cells_within w h x y]
  simp only [Sprite.mem_cells_iff, hin, true_and, Bool.decide_eq_true]

theorem lit_flipAll_cells_of_not_contains {x y i j : Nat}
    (hout : ¬(s.stencil x y).Contains w h i j) :
    (f.flipAll (s.cells w h x y)).1.lit i j = f.lit i j := by
  rw [lit_flipAll f (s.nodup_cells w h x y) fun p => s.cells_within w h x y]
  simp only [Sprite.mem_cells_iff, hout, false_and, decide_false, Bool.xor_false]

theorem collision_flipAll_cells (x y : Nat) :
    (f.flipAll (s.cells w h x y)).2 = true ↔
      ∃ i j, (s.stencil x y).Contains w h i j ∧ s.bit (j - y) (i - x) = true ∧
        f.lit i j = true := by
  rw [collision_flipAll f (s.nodup_cells w h x y)]
  simp only [Sprite.mem_cells_iff, and_assoc]

end Framebuffer

namespace Machine

variable {w h : Nat} {m : Machine w h} {tall : Bool} {rows : Fin 16} {height bytesPerRow : Nat}

theorem spriteShape_of_size {width : Nat}
    (hsize : if rows = 0 ∧ tall = true ∧ m.variant = .xochip then height = 16 ∧ width = 16
      else height = rows ∧ width = 8) :
    m.spriteShape tall rows = (height, width / 8) ∧ 8 * (width / 8) = width := by
  rw [spriteShape]
  split at hsize
  case isTrue hlarge =>
    obtain ⟨rfl, rfl⟩ := hsize
    exact ⟨if_pos hlarge, rfl⟩
  case isFalse hsmall =>
    obtain ⟨rfl, rfl⟩ := hsize
    exact ⟨if_neg hsmall, rfl⟩

theorem drawn_eq (hshape : m.spriteShape tall rows = (height, bytesPerRow)) (x y : Register) :
    m.drawn tall x y rows = m.screen.flipAll
      ((Sprite.ofMemory m.memory m.index height bytesPerRow).cells w h
        ((m.register x).toNat % w) ((m.register y).toNat % h)) := by
  rw [drawn, hshape]
  rfl

theorem result_draw_of_sprite {memory : Bytes}
    (hshape : m.spriteShape tall rows = (height, bytesPerRow))
    (hsprite : Sprite.ofMemory memory m.index height bytesPerRow =
      Sprite.ofMemory m.memory m.index height bytesPerRow) (random : UInt8) (x y : Register) :
    ({ m with memory := memory } : Machine w h).result tall random (.draw x y rows) =
      { m.result tall random (.draw x y rows) with memory := memory } := by
  have hshape' : ({ m with memory := memory } : Machine w h).spriteShape tall rows =
      (height, bytesPerRow) := hshape
  have hdrawn : ({ m with memory := memory } : Machine w h).drawn tall x y rows =
      m.drawn tall x y rows := by
    rw [drawn_eq hshape, drawn_eq hshape', hsprite]
    rfl
  simp only [result, hdrawn]
  rfl

end Machine

namespace Console

variable {w h : Nat} {c : Console w h}

/-- What is left behind when the cells under the set bits of a stencil are turned over. Of the
machine only the screen, the flag, the mark for the renderer and the program counter change. -/
structure Stamps (c : Console w h) (s : Stencil) (after : Console w h) : Prop where
  inside : ∀ i j, s.Contains w h i j → after.machine.screen.lit i j =
    (c.machine.screen.lit i j ^^ s.bit (j - s.y) (i - s.x))
  outside : ∀ i j, ¬s.Contains w h i j →
    after.machine.screen.lit i j = c.machine.screen.lit i j
  collision : after.Signals (∃ i j, s.Contains w h i j ∧ s.bit (j - s.y) (i - s.x) = true ∧
    c.machine.screen.lit i j = true)
  redraw : after.machine.redraw = true
  rest : after = { c with machine := { c.machine.advance.setRegister Register.flag
    (after.machine.register Register.flag) with
      screen := after.machine.screen, redraw := true } }

section Draw

variable {x y : Register} {rows : Fin 16} {height bytesPerRow : Nat}
  (hc : c.machine.Drawable)
  (hshape : c.machine.spriteShape c.tall rows = (height, bytesPerRow))
include hc hshape

theorem obstacle?_draw_eq_none (hin : c.machine.index + (height * bytesPerRow : Nat) ≤ memorySize) :
    c.machine.advance.obstacle? c.tall (.draw x y rows) = none := by
  refine Machine.overrun?_eq_none_iff.mpr ?_
  show c.machine.index + ((c.machine.spriteShape c.tall rows).1 *
    (c.machine.spriteShape c.tall rows).2 : Nat) ≤ (c.machine.memory.size : Int)
  rw [hc.memory_size, hshape]
  exact hin

variable (hfree : c.machine.advance.obstacle? c.tall (.draw x y rows) = none)
include hfree

theorem stamps_of_execute :
    ∃ after, c.execute (Instruction.draw x y rows).toOpcode = .done after ∧
      c.Stamps ((Sprite.ofMemory c.machine.memory c.machine.index height bytesPerRow).stencil
        ((c.machine.register x).toNat % w) ((c.machine.register y).toNat % h)) after := by
  have hdrawn := Machine.drawn_eq (m := c.machine.advance) hshape x y
  have hflag := Machine.flag_result_draw (m := c.machine.advance) hc.registers_size c.tall
    c.noise.next x y rows
  refine ⟨_, execute_draw_eq hc hfree, ?_⟩
  constructor
  case inside =>
    intro i j hin
    show (c.machine.advance.drawn c.tall x y rows).1.lit i j = _
    rw [hdrawn]
    exact c.machine.screen.lit_flipAll_cells _ hin
  case outside =>
    intro i j hout
    show (c.machine.advance.drawn c.tall x y rows).1.lit i j = _
    rw [hdrawn]
    exact c.machine.screen.lit_flipAll_cells_of_not_contains _ hout
  case collision =>
    rw [hdrawn] at hflag
    exact signals_of_flagOf hflag (c.machine.screen.collision_flipAll_cells _ _ _)
  case redraw => rfl
  case rest =>
    show _ = _
    rw [hflag]
    rfl

/-- The bytes of a sprite are all that a drawing reads from memory. -/
theorem execute_draw_of_memory {after : Console w h}
    (hafter : c.execute (Instruction.draw x y rows).toOpcode = .done after) {memory : Bytes}
    (hsize : memory.size = memorySize)
    (hsprite : Sprite.ofMemory memory c.machine.index height bytesPerRow =
      Sprite.ofMemory c.machine.memory c.machine.index height bytesPerRow) :
    execute { c with machine := { c.machine with memory := memory } }
        (Instruction.draw x y rows).toOpcode =
      .done { after with machine := { after.machine with memory := memory } } := by
  have hc' : ({ c.machine with memory := memory } : Machine w h).Drawable :=
    ⟨hc.width_pos, hc.height_pos, hsize, hc.registers_size⟩
  have hfit := Machine.overrun?_eq_none_iff.mp hfree
  have hfree' : ({ c.machine with memory := memory } : Machine w h).advance.obstacle? c.tall
      (.draw x y rows) = none := by
    refine Machine.overrun?_eq_none_iff.mpr ?_
    show _ ≤ (memory.size : Int)
    rw [hsize, ← hc.memory_size]
    exact hfit
  have hresult := Machine.result_draw_of_sprite (m := c.machine.advance) hshape hsprite
    c.noise.next x y
  obtain rfl := Outcome.done.inj ((execute_draw_eq hc hfree).symm.trans hafter)
  rw [execute_draw_eq hc' hfree']
  exact congrArg (fun m => Outcome.done { c with machine := m }) hresult

end Draw

/-- The word `DXYN` draws `N` rows of eight bits, or sixteen rows of sixteen where `N` is zero and
the machine has large sprites, if their bytes lie in memory. The upper left corner wraps around the
screen, and what sticks out is cut off. The bits are those of the bytes from the address register
on, the most significant first, and no other byte of memory makes a difference. -/
theorem execute_draw (hc : c.machine.Drawable) {word : Opcode} {x y : Register} {rows : Fin 16}
    (hword : word.toNat = 0xd000 + 0x100 * x + 0x10 * y + rows) {height width : Nat}
    (hsize : if rows = 0 ∧ c.tall = true ∧ c.machine.variant = .xochip
      then height = 16 ∧ width = 16 else height = rows ∧ width = 8)
    (hin : c.machine.index + (height * width / 8 : Nat) ≤ 4096) :
    ∃ after, c.execute word = .done after ∧
      c.Stamps ⟨(c.machine.register x).toNat % w, (c.machine.register y).toNat % h, width, height,
        (Sprite.ofMemory c.machine.memory c.machine.index height (width / 8)).bit⟩ after ∧
      ∀ a : Nat, c.machine.index = a →
        (∀ row column, row < height → column < width →
          (Sprite.ofMemory c.machine.memory c.machine.index height (width / 8)).bit row column =
            (c.machine.memory.get (a + row * (width / 8) + column / 8)).toNat.testBit
              (7 - column % 8)) ∧
        ∀ memory : Bytes, memory.size = 4096 →
          (∀ k, a ≤ k → k < a + height * width / 8 → memory.get k = c.machine.memory.get k) →
          execute { c with machine := { c.machine with memory := memory } } word =
            .done { after with machine := { after.machine with memory := memory } } := by
  obtain ⟨hshape, hwidth⟩ := Machine.spriteShape_of_size hsize
  have hbytes : height * width / 8 = height * (width / 8) := by
    conv_lhs => rw [← hwidth, Nat.mul_left_comm, Nat.mul_div_cancel_left _ (by decide)]
  rw [hbytes] at hin ⊢
  obtain rfl : (Instruction.draw x y rows).toOpcode = word := by
    have hdraw : Instruction.ofOpcode word = .draw x y rows :=
      Instruction.ofOpcode_of_code rfl (hword.trans (by rw [Instruction.code, Instruction.wordXY]))
    rw [← hdraw, Instruction.toOpcode_ofOpcode]
  have hfree := obstacle?_draw_eq_none (x := x) (y := y) hc hshape hin
  obtain ⟨after, hafter, hstamps⟩ := stamps_of_execute hc hshape hfree
  rw [Sprite.stencil, Sprite.width_ofMemory, Sprite.height_ofMemory, hwidth] at hstamps
  refine ⟨after, hafter, hstamps, fun a ha => ?_⟩
  have hfit : a + height * (width / 8) ≤ memorySize := by
    rw [ha] at hin
    exact Int.ofNat_le.mp hin
  constructor
  · intro row column hrow hcolumn
    rw [ha]
    exact Sprite.bit_ofMemory _ (hc.memory_size ▸ hfit) hrow (hwidth.symm ▸ hcolumn)
  · intro memory hmemory hsame
    have hsprite : Sprite.ofMemory memory c.machine.index height (width / 8) =
        Sprite.ofMemory c.machine.memory c.machine.index height (width / 8) := by
      rw [ha]
      exact Sprite.ofMemory_congr (hmemory ▸ hfit) (hc.memory_size ▸ hfit) hsame
    exact execute_draw_of_memory hc hshape hfree hafter hmemory hsprite

/-- A large sprite, of which a screen of four by three cells shows the upper left corner. Its rows
there are those of the bytes 0xf0, 0x90 and 0xf0, which lie two apart. The first coordinate is held
by the flag register. -/
theorem execute_draw_large :
    let c : Console 4 3 :=
      ⟨(Machine.fresh 4 3 .xochip).setRegister Register.flag 5, Noise.cycle [0], true⟩
    c.machine.Drawable ∧ ∃ after, c.execute ⟨0xdf20⟩ = .done after ∧
      (∀ i j, i < 4 → j < 3 →
        (after.machine.screen.lit i j = true ↔ i = 1 ∨ (2 ≤ i ∧ j ≠ 1))) ∧
      after.machine.register Register.flag = 0 := by
  intro c
  have hfresh : (Machine.fresh 4 3 .xochip).Drawable :=
    Machine.drawable_fresh (by decide) (by decide) .xochip
  have hc : c.machine.Drawable :=
    ⟨hfresh.width_pos, hfresh.height_pos, hfresh.memory_size, rfl⟩
  have hbyte (k : Nat) : c.machine.memory.get k = Machine.digitRows[k]?.getD 0 :=
    Machine.get_fresh .xochip k
  have hdark (i j : Nat) : c.machine.screen.lit i j = false := Framebuffer.lit_blank i j
  have hword : Opcode.toNat ⟨0xdf20⟩ =
      0xd000 + 0x100 * Register.flag + 0x10 * (2 : Register) + (0 : Fin 16) := rfl
  have hsize : if (0 : Fin 16) = 0 ∧ c.tall = true ∧ c.machine.variant = .xochip
      then 16 = 16 ∧ 16 = 16 else 16 = 0 ∧ 16 = 8 := by decide
  obtain ⟨after, hafter, hstamps, hread⟩ := execute_draw hc hword hsize (by decide)
  obtain ⟨hbits, -⟩ := hread 0 rfl
  have hleft : (c.machine.register Register.flag).toNat % 4 = 1 := by decide
  have htop : (c.machine.register 2).toNat % 3 = 0 := by decide
  rw [hleft, htop] at hstamps
  have hcell (row column : Fin 3) :
      (Sprite.ofMemory c.machine.memory c.machine.index 16 (16 / 8)).bit row column = true ↔
        column.val = 0 ∨ row.val ≠ 1 := by
    have haddress : 0 + row.val * (16 / 8) + column / 8 = 2 * row := by omega
    rw [hbits row column (by omega) (by omega), haddress, hbyte]
    revert row column
    decide
  refine ⟨hc, after, hafter, ?_, ?_⟩
  · intro i j hi hj
    by_cases hedge : i = 0
    · have hout : ¬(1 ≤ i ∧ i < min (1 + 16) 4) := by omega
      rw [hstamps.outside i j fun hin => hout hin.1, hdark]
      simp [hedge]
    · have hcolumn : 1 ≤ i ∧ i < min (1 + 16) 4 := by omega
      have hrow : 0 ≤ j ∧ j < min (0 + 16) 3 := by omega
      rw [hstamps.inside i j ⟨hcolumn, hrow⟩, hdark, Bool.false_xor]
      refine (hcell ⟨j, hj⟩ ⟨i - 1, by omega⟩).trans ?_
      show i - 1 = 0 ∨ j ≠ 1 ↔ _
      omega
  · refine hstamps.collision.2 ?_
    rintro ⟨i, j, -, -, hlit⟩
    rw [hdark] at hlit
    exact Bool.false_ne_true hlit

end Console
end Chip8
