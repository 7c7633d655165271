import Chip8.Proofs.Fault

/-!
# What a word may change

The instruction set is a table of thirty-four forms of words. A word that is carried out changes no
more than its form allows, in every field of the console, and a word of none of the forms only moves
the program counter.
-/

namespace Chip8

/-- The form of a family of words. -/
inductive Form
  | word (n : Nat)
  | family (f : Nat)
  | lastDigit (f n : Nat)
  | lastByte (f b : Nat)
  deriving DecidableEq

namespace Form

/-- Whether a word has the form. -/
def Holds (c : Opcode) : Form → Prop
  | .word n => c.toNat = n
  | .family f => c.toNat / 0x1000 = f
  | .lastDigit f n => c.toNat / 0x1000 = f ∧ c.toNat % 0x10 = n
  | .lastByte f b => c.toNat / 0x1000 = f ∧ c.toNat % 0x100 = b

instance (c : Opcode) : DecidablePred (Holds c)
  | .word n => inferInstanceAs (Decidable (c.toNat = n))
  | .family f => inferInstanceAs (Decidable (c.toNat / 0x1000 = f))
  | .lastDigit f n => inferInstanceAs (Decidable (c.toNat / 0x1000 = f ∧ c.toNat % 0x10 = n))
  | .lastByte f b => inferInstanceAs (Decidable (c.toNat / 0x1000 = f ∧ c.toNat % 0x100 = b))

def table : List Form :=
  [.word 0x00e0, .word 0x00ee, .family 0x1, .family 0x2, .family 0x3, .family 0x4,
   .lastDigit 0x5 0x0, .family 0x6, .family 0x7, .lastDigit 0x8 0x0, .lastDigit 0x8 0x1,
   .lastDigit 0x8 0x2, .lastDigit 0x8 0x3, .lastDigit 0x8 0x4, .lastDigit 0x8 0x5,
   .lastDigit 0x8 0x6, .lastDigit 0x8 0x7, .lastDigit 0x8 0xe, .lastDigit 0x9 0x0, .family 0xa,
   .family 0xb, .family 0xc, .family 0xd, .lastByte 0xe 0x9e, .lastByte 0xe 0xa1,
   .lastByte 0xf 0x07, .lastByte 0xf 0x0a, .lastByte 0xf 0x15, .lastByte 0xf 0x18,
   .lastByte 0xf 0x1e, .lastByte 0xf 0x29, .lastByte 0xf 0x33, .lastByte 0xf 0x55,
   .lastByte 0xf 0x65]

example : table.length = 34 := rfl

end Form

def Opcode.Has (c : Opcode) (forms : List Form) : Prop := ∃ f ∈ forms, f.Holds c

instance (c : Opcode) (forms : List Form) : Decidable (c.Has forms) :=
  inferInstanceAs (Decidable (∃ f ∈ forms, f.Holds c))

@[simp] theorem Opcode.not_has_nil (c : Opcode) : ¬c.Has [] := by simp [Opcode.Has]

@[simp] theorem Opcode.has_cons (c : Opcode) (f : Form) (forms : List Form) :
    c.Has (f :: forms) ↔ f.Holds c ∨ c.Has forms := by
  simp [Opcode.Has]

namespace Instruction

/-- The form of the words that an instruction is read from. -/
def form? : Instruction → Option Form
  | .clear => some (.word 0x00e0)
  | .leave => some (.word 0x00ee)
  | .jump _ => some (.family 0x1)
  | .call _ => some (.family 0x2)
  | .skip (.equal _ _) => some (.family 0x3)
  | .skip (.different _ _) => some (.family 0x4)
  | .skip (.same _ _) => some (.lastDigit 0x5 0x0)
  | .set _ _ => some (.family 0x6)
  | .add _ _ => some (.family 0x7)
  | .copy _ _ => some (.lastDigit 0x8 0x0)
  | .logic .or _ _ => some (.lastDigit 0x8 0x1)
  | .logic .and _ _ => some (.lastDigit 0x8 0x2)
  | .logic .xor _ _ => some (.lastDigit 0x8 0x3)
  | .sum _ _ => some (.lastDigit 0x8 0x4)
  | .subtract _ _ => some (.lastDigit 0x8 0x5)
  | .shift .right _ _ => some (.lastDigit 0x8 0x6)
  | .subtractFrom _ _ => some (.lastDigit 0x8 0x7)
  | .shift .left _ _ => some (.lastDigit 0x8 0xe)
  | .skip (.distinct _ _) => some (.lastDigit 0x9 0x0)
  | .setIndex _ => some (.family 0xa)
  | .jumpPlus _ => some (.family 0xb)
  | .random _ _ => some (.family 0xc)
  | .draw _ _ _ => some (.family 0xd)
  | .skip (.pressed _) => some (.lastByte 0xe 0x9e)
  | .skip (.released _) => some (.lastByte 0xe 0xa1)
  | .readDelay _ => some (.lastByte 0xf 0x07)
  | .awaitKey _ => some (.lastByte 0xf 0x0a)
  | .setDelay _ => some (.lastByte 0xf 0x15)
  | .setSound _ => some (.lastByte 0xf 0x18)
  | .addIndex _ => some (.lastByte 0xf 0x1e)
  | .pointDigit _ => some (.lastByte 0xf 0x29)
  | .storeDecimal _ => some (.lastByte 0xf 0x33)
  | .dump _ => some (.lastByte 0xf 0x55)
  | .restore _ => some (.lastByte 0xf 0x65)
  | .ignored _ => none

theorem holds_of_form? {i : Instruction} {c : Opcode} (hcode : i.code = c.toNat) {f : Form}
    (h : i.form? = some f) : f.Holds c := by
  cases i with
  | skip condition =>
    cases condition with
    | equal x b | different x b =>
      have hb := b.toNat_lt
      obtain rfl := Option.some.inj h
      simp only [code, wordXB] at hcode
      simp only [Form.Holds]
      omega
    | _ =>
      obtain rfl := Option.some.inj h
      simp only [code, wordXB, wordXY] at hcode
      simp only [Form.Holds]
      omega
  | set x b | add x b | random x b =>
    have hb := b.toNat_lt
    obtain rfl := Option.some.inj h
    simp only [code, wordXB] at hcode
    simp only [Form.Holds]
    omega
  | logic op x y | shift op x y =>
    cases op <;> obtain rfl := Option.some.inj h <;> simp only [code, wordXY] at hcode <;>
      simp only [Form.Holds] <;> omega
  | ignored c => contradiction
  | _ =>
    obtain rfl := Option.some.inj h
    simp only [code, wordXB, wordXY] at hcode
    simp only [Form.Holds]
    omega

theorem has_of_form? {i : Instruction} {c : Opcode} (hcode : i.code = c.toNat) {f : Form}
    (h : i.form? = some f) {forms : List Form} (hmem : f ∈ forms) : c.Has forms :=
  ⟨f, hmem, holds_of_form? hcode h⟩

theorem exists_form? {i : Instruction} (h : i.isDefined = true) :
    ∃ f ∈ Form.table, i.form? = some f := by
  cases i with
  | skip condition => cases condition <;> exact ⟨_, by decide, rfl⟩
  | logic op _ _ | shift op _ _ => cases op <;> exact ⟨_, by decide, rfl⟩
  | ignored c => contradiction
  | _ => exact ⟨_, by decide, rfl⟩

/-- A word of none of the forms is ignored. -/
theorem ofOpcode_of_formless {c : Opcode} (h : ¬c.Has Form.table) :
    ofOpcode c = .ignored c := by
  have hcode := code_ofOpcode c
  have hundefined : ¬(ofOpcode c).isDefined = true := by
    intro hi
    obtain ⟨f, hmem, hf⟩ := exists_form? hi
    exact h (has_of_form? hcode hf hmem)
  cases hi : ofOpcode c with
  | ignored c' =>
    rw [hi] at hcode
    have hword : c'.word = c.word := UInt16.toNat_inj.mp hcode
    rw [show c' = c from congrArg Opcode.mk hword]
  | _ =>
    rw [hi] at hundefined
    exact absurd rfl hundefined

end Instruction

namespace Machine

variable {w h : Nat}

def targets (m : Machine w h) : Instruction → List Register
  | .set x _ | .add x _ | .copy x _ | .random x _ | .readDelay x => [x]
  | .logic _ x _ => if m.variant = .chip8 then [x, Register.flag] else [x]
  | .sum x _ | .subtract x _ | .shift _ x _ => [x, Register.flag]
  | .subtractFrom _ y => [y, Register.flag]
  | .draw _ _ _ => [Register.flag]
  | .awaitKey x => if m.keys.first? = none then [] else [x]
  | .restore x => (List.finRange 16).filter (· ≤ x)
  | _ => []

theorem register_setRegister_of_ne {m : Machine w h} {r s : Register} (hne : r ≠ s) (b : UInt8) :
    (m.setRegister r b).register s = m.register s :=
  m.registers.get_set_of_ne b fun heq => hne (Fin.ext heq)

theorem register_writeFlagged_of_ne {m : Machine w h} {r s : Register} (hne : r ≠ s)
    (hflag : Register.flag ≠ s) (b flag : UInt8) :
    (m.writeFlagged r b flag).register s = m.register s := by
  rw [writeFlagged, register_setRegister_of_ne hflag, register_setRegister_of_ne hne]

theorem register_result {m : Machine w h} (hm : m.WellFormed) {tall : Bool} {i : Instruction}
    (hfree : m.obstacle? tall i = none) (random : UInt8) {r : Register} (hr : r ∉ m.targets i) :
    (m.result tall random i).register r = m.register r := by
  cases i with
  | set x _ | add x _ | copy x _ | random x _ | readDelay x =>
    have hne : x ≠ r := fun h => hr (by simp [targets, h])
    exact register_setRegister_of_ne hne _
  | logic op x y =>
    simp only [targets] at hr
    simp only [result]
    split at hr
    · rename_i hchip
      simp only [List.mem_cons, List.not_mem_nil, or_false, not_or] at hr
      rw [if_pos hchip]
      exact register_writeFlagged_of_ne (Ne.symm hr.1) (Ne.symm hr.2) _ _
    · rename_i hother
      rw [if_neg hother]
      exact register_setRegister_of_ne (fun h => hr (by simp [h])) _
  | sum x _ | subtract x _ | shift _ x _ | subtractFrom _ x =>
    have hne : x ≠ r := fun h => hr (by simp [targets, h])
    have hflag : Register.flag ≠ r := fun h => hr (by simp [targets, h])
    exact register_writeFlagged_of_ne hne hflag _ _
  | draw x y rows =>
    have hne : Register.flag ≠ r := fun h => hr (by simp [targets, h])
    exact m.registers.get_set_of_ne _ fun heq => hne (Fin.ext heq)
  | awaitKey x =>
    simp only [targets] at hr
    simp only [result]
    cases hkey : m.keys.first? with
    | none => rfl
    | some k =>
      have hne : x ≠ r := fun h => hr (by simp [hkey, h])
      exact register_setRegister_of_ne hne _
  | restore x =>
    have hgt : ¬(r : Nat) ≤ x := fun h =>
      hr (List.mem_filter.mpr ⟨List.mem_finRange r, decide_eq_true (Fin.le_def.mpr h)⟩)
    obtain ⟨k, hk⟩ := Int.eq_ofNat_of_zero_le hm.index_nonneg
    have hfit := overrun?_eq_none_iff.mp hfree
    have hlen : (m.memory.block m.index (x + 1)).length = x + 1 := by
      rw [hk]
      exact m.memory.length_block (by omega)
    have hsize : m.registers.size = 16 := hm.registers_size
    have hget := m.registers.get_replace (a := 0) (by omega) hlen r
    rw [if_neg (by omega)] at hget
    exact hget
  | skip condition =>
    simp only [result]
    split <;> rfl
  | _ => rfl

theorem memory_get_result {m : Machine w h} (hm : m.WellFormed) {tall : Bool} {i : Instruction}
    (hfree : m.obstacle? tall i = none) (random : UInt8) {k : Nat}
    (hk : (m.result tall random i).memory.get k ≠ m.memory.get k) :
    (∃ x, i = .storeDecimal x ∧ m.index ≤ k ∧ k ≤ m.index + 2) ∨
      ∃ x, i = .dump x ∧ m.index ≤ k ∧ k ≤ m.index + x := by
  obtain ⟨a, ha⟩ := Int.eq_ofNat_of_zero_le hm.index_nonneg
  cases i with
  | storeDecimal x =>
    have hfit := overrun?_eq_none_iff.mp hfree
    have hlen : (decimalDigits (m.register x)).length = 3 := rfl
    have hget := m.memory.get_replace (a := a) (by omega) hlen k
    simp only [result, ha, hget] at hk
    have hin : a ≤ k ∧ k < a + 3 := Decidable.byContradiction fun hout => hk (if_neg hout)
    exact .inl ⟨x, rfl, by omega, by omega⟩
  | dump x =>
    have hfit := overrun?_eq_none_iff.mp hfree
    have hsize : m.registers.size = 16 := hm.registers_size
    have hlen : (m.registers.block 0 (x + 1)).length = x + 1 :=
      m.registers.length_block (a := 0) (by omega)
    have hget := m.memory.get_replace (a := a) (by omega) hlen k
    simp only [result, ha, hget] at hk
    have hin : a ≤ k ∧ k < a + (x + 1) := Decidable.byContradiction fun hout => hk (if_neg hout)
    exact .inr ⟨x, rfl, by omega, by omega⟩
  | _ => exact absurd (congrArg (Bytes.get · k) (memory_result m tall random rfl)) hk

end Machine

/-- The registers that a word may write. -/
inductive Machine.Writes {w h : Nat} (m : Machine w h) (c : Opcode) : Register → Prop
  | own (hform : c.Has [.family 0x6, .family 0x7, .lastDigit 0x8 0x0, .family 0xc,
      .lastByte 0xf 0x07]) : Writes m c c.x
  | key (hform : c.Has [.lastByte 0xf 0x0a]) (hheld : ∃ k, m.keys.latched k = true) :
      Writes m c c.x
  | logic (hform : c.Has [.lastDigit 0x8 0x1, .lastDigit 0x8 0x2, .lastDigit 0x8 0x3]) :
      Writes m c c.x
  | logicFlag (hform : c.Has [.lastDigit 0x8 0x1, .lastDigit 0x8 0x2, .lastDigit 0x8 0x3])
      (hchip : m.variant = .chip8) : Writes m c Register.flag
  | first (hform : c.Has [.lastDigit 0x8 0x4, .lastDigit 0x8 0x5, .lastDigit 0x8 0x6,
      .lastDigit 0x8 0xe]) : Writes m c c.x
  | firstFlag (hform : c.Has [.lastDigit 0x8 0x4, .lastDigit 0x8 0x5, .lastDigit 0x8 0x6,
      .lastDigit 0x8 0xe]) : Writes m c Register.flag
  | second (hform : c.Has [.lastDigit 0x8 0x7]) : Writes m c c.y
  | secondFlag (hform : c.Has [.lastDigit 0x8 0x7]) : Writes m c Register.flag
  | collision (hform : c.Has [.family 0xd]) : Writes m c Register.flag
  | block (hform : c.Has [.lastByte 0xf 0x65]) {r : Register} (hr : r ≤ c.x) : Writes m c r

/-- All that may be different on a console after a word, the program counter aside. -/
structure Console.WritesOnly {w h : Nat} (c : Console w h) (word : Opcode)
    (after : Console w h) : Prop where
  variant : after.machine.variant = c.machine.variant
  tall : after.tall = c.tall
  keys : after.machine.keys = c.machine.keys
  memory_size : after.machine.memory.size = c.machine.memory.size
  memory : ∀ k, after.machine.memory.get k ≠ c.machine.memory.get k →
    word.Has [.lastByte 0xf 0x33] ∧ c.machine.index ≤ k ∧ k ≤ c.machine.index + 2 ∨
    word.Has [.lastByte 0xf 0x55] ∧ c.machine.index ≤ k ∧ k ≤ c.machine.index + word.x
  registers_size : after.machine.registers.size = c.machine.registers.size
  registers : ∀ r, after.machine.register r ≠ c.machine.register r → c.machine.Writes word r
  index : after.machine.index ≠ c.machine.index →
    word.Has [.family 0xa, .lastByte 0xf 0x1e, .lastByte 0xf 0x29] ∨
    word.Has [.lastByte 0xf 0x55, .lastByte 0xf 0x65] ∧ c.machine.variant = .chip8
  stack : after.machine.stack ≠ c.machine.stack → word.Has [.family 0x2, .word 0x00ee]
  delay : after.machine.delay ≠ c.machine.delay → word.Has [.lastByte 0xf 0x15]
  sound : after.machine.sound ≠ c.machine.sound → word.Has [.lastByte 0xf 0x18]
  screen : after.machine.screen ≠ c.machine.screen → word.Has [.word 0x00e0, .family 0xd]
  redraw : after.machine.redraw ≠ c.machine.redraw →
    word.Has [.word 0x00e0, .family 0xd] ∧ after.machine.redraw = true
  noise : after.noise = if word.Has [.family 0xc] then c.noise.advance else c.noise

namespace Instruction

variable {w h : Nat} {m : Machine w h} {i : Instruction} {c : Opcode}

theorem writes_of_mem_targets (hcode : i.code = c.toNat) {r : Register} (hr : r ∈ m.targets i) :
    m.Writes c r := by
  have hform {f : Form} (hf : i.form? = some f) {forms : List Form} (hmem : f ∈ forms) :
      c.Has forms := has_of_form? hcode hf hmem
  cases i with
  | set x b | add x b | random x b =>
    obtain rfl : r = x := by simpa [Machine.targets] using hr
    obtain ⟨-, rfl, -⟩ := fields_wordXB b.toNat_lt hcode.symm
    exact .own (hform rfl (by decide))
  | copy x y =>
    obtain rfl : r = x := by simpa [Machine.targets] using hr
    obtain ⟨-, rfl, -⟩ := fields_wordXY (n := 0x0) (by decide) hcode.symm
    exact .own (hform rfl (by decide))
  | readDelay x =>
    obtain rfl : r = x := by simpa [Machine.targets] using hr
    obtain ⟨-, rfl, -⟩ := fields_wordXB (b := 0x07) (by decide) hcode.symm
    exact .own (hform rfl (by decide))
  | logic op x y =>
    have hmem : ∃ f ∈ [Form.lastDigit 0x8 0x1, .lastDigit 0x8 0x2, .lastDigit 0x8 0x3],
        (logic op x y).form? = some f := by
      cases op <;> exact ⟨_, by decide, rfl⟩
    obtain ⟨f, hmem, hf⟩ := hmem
    have hx : c.x = x := by cases op <;> exact (fields_wordXY (by decide) hcode.symm).2.1
    simp only [Machine.targets] at hr
    split at hr
    · rename_i hchip
      have hpair : r = x ∨ r = Register.flag := by simpa using hr
      rcases hpair with rfl | rfl
      · exact hx ▸ .logic (hform hf hmem)
      · exact .logicFlag (hform hf hmem) hchip
    · obtain rfl := List.mem_singleton.mp hr
      exact hx ▸ .logic (hform hf hmem)
  | sum x y | subtract x y =>
    obtain ⟨-, rfl, -⟩ := fields_wordXY (by decide) hcode.symm
    have hpair : r = c.x ∨ r = Register.flag := by simpa [Machine.targets] using hr
    rcases hpair with rfl | rfl
    · exact .first (hform rfl (by decide))
    · exact .firstFlag (hform rfl (by decide))
  | shift op x y =>
    cases op with
    | right | left =>
      obtain ⟨-, rfl, -⟩ := fields_wordXY (by decide) hcode.symm
      have hpair : r = c.x ∨ r = Register.flag := by simpa [Machine.targets] using hr
      rcases hpair with rfl | rfl
      · exact .first (hform rfl (by decide))
      · exact .firstFlag (hform rfl (by decide))
  | subtractFrom x y =>
    obtain ⟨-, -, rfl, -⟩ := fields_wordXY (by decide) hcode.symm
    have hpair : r = c.y ∨ r = Register.flag := by simpa [Machine.targets] using hr
    rcases hpair with rfl | rfl
    · exact .second (hform rfl (by decide))
    · exact .secondFlag (hform rfl (by decide))
  | draw x y rows =>
    obtain rfl := List.mem_singleton.mp hr
    exact .collision (hform rfl (by decide))
  | awaitKey x =>
    obtain ⟨-, rfl, -⟩ := fields_wordXB (by decide) hcode.symm
    simp only [Machine.targets] at hr
    split at hr
    · contradiction
    · rename_i hkey
      obtain rfl := List.mem_singleton.mp hr
      rw [Keypad.first?_eq_none_iff] at hkey
      exact .key (hform rfl (by decide)) (by simpa using hkey)
  | restore x =>
    obtain ⟨-, rfl, -⟩ := fields_wordXB (by decide) hcode.symm
    exact .block (hform rfl (by decide)) (by simpa [Machine.targets] using hr)
  | _ => contradiction

theorem form?_of_usesStack (hi : i.usesStack = true) :
    ∃ f ∈ [Form.family 0x2, .word 0x00ee], i.form? = some f := by
  cases i with
  | call _ | leave => exact ⟨_, by decide, rfl⟩
  | _ => contradiction

theorem form?_of_setsDelay (hi : i.setsDelay = true) :
    ∃ f ∈ [Form.lastByte 0xf 0x15], i.form? = some f := by
  cases i with
  | setDelay _ => exact ⟨_, by decide, rfl⟩
  | _ => contradiction

theorem form?_of_setsSound (hi : i.setsSound = true) :
    ∃ f ∈ [Form.lastByte 0xf 0x18], i.form? = some f := by
  cases i with
  | setSound _ => exact ⟨_, by decide, rfl⟩
  | _ => contradiction

theorem form?_of_draws (hi : i.draws = true) :
    ∃ f ∈ [Form.word 0x00e0, .family 0xd], i.form? = some f := by
  cases i with
  | clear | draw _ _ _ => exact ⟨_, by decide, rfl⟩
  | _ => contradiction

theorem form?_of_index_ne {tall : Bool} {random : UInt8}
    (hne : (m.result tall random i).index ≠ m.index) :
    (∃ f ∈ [Form.family 0xa, .lastByte 0xf 0x1e, .lastByte 0xf 0x29], i.form? = some f) ∨
      (∃ f ∈ [Form.lastByte 0xf 0x55, .lastByte 0xf 0x65], i.form? = some f) ∧
        m.variant = .chip8 := by
  cases i with
  | setIndex _ | addIndex _ | pointDigit _ => exact .inl ⟨_, by decide, rfl⟩
  | dump x | restore x =>
    have hchip : m.variant = .chip8 := Decidable.byContradiction fun h => hne (if_neg h)
    exact .inr ⟨⟨_, by decide, rfl⟩, hchip⟩
  | _ => exact absurd (Machine.index_result m tall random rfl) hne

/-- Where only some instructions make a difference, it takes a word of one of their forms. -/
theorem has_of_ne {α : Type} {a b : α} {p : Instruction → Bool} {forms : List Form}
    (hcode : i.code = c.toNat) (hp : p i = true → ∃ f ∈ forms, i.form? = some f)
    (hframe : p i = false → a = b) (hne : a ≠ b) : c.Has forms := by
  cases hi : p i with
  | false => exact absurd (hframe hi) hne
  | true =>
    obtain ⟨f, hmem, hf⟩ := hp hi
    exact has_of_form? hcode hf hmem

theorem isRandom_ofOpcode (c : Opcode) :
    (ofOpcode c).isRandom = decide (c.Has [.family 0xc]) := by
  have hiff : (ofOpcode c).isRandom = true ↔ c.Has [.family 0xc] := by
    constructor
    · intro hi
      have hcode := code_ofOpcode c
      cases h : ofOpcode c with
      | random x mask => exact has_of_form? (h ▸ hcode) rfl (by decide)
      | _ =>
        rw [h] at hi
        contradiction
    · rintro ⟨f, hmem, hf⟩
      obtain rfl := List.mem_singleton.mp hmem
      rw [(ofOpcode_eq_iff (i := .random c.x c.nn) rfl).mpr ?_]
      · rfl
      · have hnn : c.nn.toNat = c.toNat % 256 := UInt8.toNat_ofNat'
        rw [code, hnn]
        exact toNat_eq_wordXB hf rfl
  exact Bool.eq_iff_iff.mpr (by rw [decide_eq_true_iff]; exact hiff)

end Instruction

namespace Console

variable {w h : Nat} {c : Console w h}

/-- A word meets its obstacle, or it has its effect behind the place where it stands. -/
theorem execute_eq (hm : c.machine.WellFormed) (word : Opcode) :
    c.execute word =
      (c.machine.advance.obstacle? c.tall (.ofOpcode word)).elim
        (.done { c with
          machine := c.machine.advance.result c.tall c.noise.next (.ofOpcode word)
          noise := c.noiseAfter (.ofOpcode word) })
        fun why => .failed why { c with machine := c.machine.advance } := by
  have hperform := Machine.perform_eq (Machine.wellFormed_advance hm) c.tall c.noise.next
    (.ofOpcode word)
  rw [execute, Machine.execute, hperform]
  cases hobs : c.machine.advance.obstacle? c.tall (.ofOpcode word) with
  | none => rfl
  | some why =>
    have hnoise : c.noiseAfter (.ofOpcode word) = c.noise := by
      simp [noiseAfter, Machine.isRandom_of_obstacle hobs]
    simp only [Option.elim_some, Outcome.map, hnoise]

/-- A word that is carried out changes only what its form allows. -/
theorem writesOnly_of_execute (hm : c.machine.WellFormed) {word : Opcode} {after : Console w h}
    (hafter : c.execute word = .done after) : c.WritesOnly word after := by
  have hcode := Instruction.code_ofOpcode word
  have hrandom := Instruction.isRandom_ofOpcode word
  have hadvance := Machine.wellFormed_advance hm
  rw [execute_eq hm] at hafter
  generalize Instruction.ofOpcode word = i at hafter hcode hrandom
  cases hfree : c.machine.advance.obstacle? c.tall i with
  | some why =>
    rw [hfree] at hafter
    contradiction
  | none =>
    rw [hfree] at hafter
    injection hafter with hafter
    subst hafter
    have hform {f : Form} (hf : i.form? = some f) {forms : List Form} (hmem : f ∈ forms) :
        word.Has forms := Instruction.has_of_form? hcode hf hmem
    constructor
    case variant => exact Machine.variant_result _ _ _ _
    case tall => rfl
    case keys => exact Machine.keys_result _ _ _ _
    case memory_size =>
      exact (Machine.memory_size_result hadvance hfree _).trans hm.memory_size.symm
    case memory =>
      intro k hk
      rcases Machine.memory_get_result hadvance hfree _ hk with ⟨x, rfl, hin⟩ | ⟨x, rfl, hin⟩
      · exact .inl ⟨hform rfl (by decide), hin⟩
      · obtain ⟨-, rfl, -⟩ := Instruction.fields_wordXB (by decide) hcode.symm
        exact .inr ⟨hform rfl (by decide), hin⟩
    case registers_size =>
      exact (Machine.registers_size_result hadvance hfree _).trans hm.registers_size.symm
    case registers =>
      intro r hr
      have hmem : r ∈ c.machine.advance.targets i :=
        Decidable.byContradiction fun hout => hr (Machine.register_result hadvance hfree _ hout)
      exact Instruction.writes_of_mem_targets hcode hmem
    case index =>
      intro hne
      rcases Instruction.form?_of_index_ne hne with ⟨f, hmem, hf⟩ | ⟨⟨f, hmem, hf⟩, hchip⟩
      · exact .inl (hform hf hmem)
      · exact .inr ⟨hform hf hmem, hchip⟩
    case stack =>
      exact Instruction.has_of_ne hcode Instruction.form?_of_usesStack
        (Machine.stack_result _ _ _)
    case delay =>
      exact Instruction.has_of_ne hcode Instruction.form?_of_setsDelay
        (Machine.delay_result _ _ _)
    case sound =>
      exact Instruction.has_of_ne hcode Instruction.form?_of_setsSound
        (Machine.sound_result _ _ _)
    case screen =>
      exact Instruction.has_of_ne hcode Instruction.form?_of_draws (Machine.screen_result _ _ _)
    case redraw =>
      intro hne
      have hdraws : i.draws = true := by
        cases hi : i.draws with
        | true => rfl
        | false => exact absurd (by simp [Machine.redraw_result, hi, Machine.advance]) hne
      obtain ⟨f, hmem, hf⟩ := Instruction.form?_of_draws hdraws
      exact ⟨hform hf hmem, by simp [Machine.redraw_result, hdraws]⟩
    case noise => simp only [noiseAfter, hrandom, decide_eq_true_iff]

/-- Neither an addition of a byte to another register nor one to the address register touches the
flag. -/
theorem flag_of_writesOnly {word : Opcode} {after : Console w h} (hwrites : c.WritesOnly word after)
    (hword : word.Has [.family 0x7] ∧ word.x ≠ Register.flag ∨ word.Has [.lastByte 0xf 0x1e]) :
    after.machine.register Register.flag = c.machine.register Register.flag := by
  refine Decidable.byContradiction fun hne => ?_
  have hwritten := hwrites.registers _ hne
  generalize hr : Register.flag = r at hwritten
  simp only [Opcode.has_cons, Opcode.not_has_nil, or_false, Form.Holds] at hword
  cases hwritten with
  | own hform =>
    simp only [Opcode.has_cons, Opcode.not_has_nil, or_false, Form.Holds] at hform
    rcases hword with ⟨-, hx⟩ | hword
    · exact hx hr.symm
    · omega
  | key hform | logic hform | logicFlag hform | first hform | firstFlag hform | second hform
  | secondFlag hform | collision hform | block hform =>
    simp only [Opcode.has_cons, Opcode.not_has_nil, or_false, Form.Holds] at hform
    omega

/-- Every word that is carried out changes only what its form allows; a word of none of the forms is
always carried out and moves the program counter alone; and the two additions without a carry leave
the flag. -/
theorem execute_writes_only (hm : c.machine.WellFormed) (word : Opcode) :
    (∀ after, c.execute word = .done after → c.WritesOnly word after) ∧
      (¬word.Has Form.table →
        c.execute word = .done { c with
          machine := { c.machine with counter := (c.machine.counter + 2) % 65536 } }) ∧
      (word.Has [.family 0x7] ∧ word.x ≠ Register.flag ∨ word.Has [.lastByte 0xf 0x1e] →
        ∀ after, c.execute word = .done after →
          after.machine.register Register.flag = c.machine.register Register.flag) := by
  refine ⟨fun after => writesOnly_of_execute hm, fun hword => ?_, fun hword after hafter => ?_⟩
  · rw [execute_eq hm, Instruction.ofOpcode_of_formless hword]
    rfl
  · exact flag_of_writesOnly (writesOnly_of_execute hm hafter) hword

/-- Five added to the second register, and a word of none of the forms. -/
theorem execute_writes_only_add :
    let c : Console 64 32 := ⟨Machine.ofWord 64 32 .chip8 0x71 0x05, Noise.cycle [7], false⟩
    let add : Opcode := ⟨0x7105⟩
    let strange : Opcode := ⟨0x5001⟩
    c.machine.WellFormed ∧
      (∃ after, c.execute add = .done after ∧ c.WritesOnly add after ∧
        after.machine.register Register.flag = c.machine.register Register.flag) ∧
      c.execute strange = .done { c with
        machine := { c.machine with counter := (c.machine.counter + 2) % 65536 } } := by
  intro c add strange
  have hm : c.machine.WellFormed :=
    Machine.wellFormed_ofWord (by decide) (by decide) .chip8 0x71 0x05
  have hi : Instruction.ofOpcode add = .add 1 5 := by decide
  obtain ⟨after, hadd⟩ : ∃ after, c.execute add = .done after := by
    rw [execute_eq hm add, hi]
    exact ⟨_, rfl⟩
  obtain ⟨hwrites, -, hflag⟩ := execute_writes_only hm add
  obtain ⟨-, hstrange, -⟩ := execute_writes_only hm strange
  exact ⟨hm, ⟨after, hadd, hwrites after hadd, hflag (by decide) after hadd⟩, hstrange (by decide)⟩

end Console
end Chip8
