import Chip8.Proofs.Decoding
import Chip8.Proofs.Transition

/-!
# Arithmetic on the registers

The nine instructions `8XYN` read their operands before they write anything. Then they write the
register of the result, and most of them the flag behind it. So one table of results and flags says
what they do, whichever of the two operands and the flag are the same register.
-/

namespace Chip8

inductive Arithmetic
  | copy
  | logic (op : Logic)
  | sum
  | subtract
  | shift (op : Shift)
  | subtractFrom
  deriving DecidableEq

namespace Arithmetic

def digit : Arithmetic → Nat
  | .copy => 0x0
  | .logic .or => 0x1
  | .logic .and => 0x2
  | .logic .xor => 0x3
  | .sum => 0x4
  | .subtract => 0x5
  | .shift .right => 0x6
  | .subtractFrom => 0x7
  | .shift .left => 0xe

def word (k : Arithmetic) (x y : Register) : Opcode :=
  ⟨.ofNat (Instruction.wordXY 0x8 x y k.digit)⟩

def instruction (k : Arithmetic) (x y : Register) : Instruction :=
  match k with
  | .copy => .copy x y
  | .logic op => .logic op x y
  | .sum => .sum x y
  | .subtract => .subtract x y
  | .shift op => .shift op x y
  | .subtractFrom => .subtractFrom x y

def target (k : Arithmetic) (x y : Register) : Register :=
  match k with
  | .subtractFrom => y
  | _ => x

/-- The operand that a shift reads. -/
def shifted (v : Variant) (a b : Nat) : Nat := if v = .chip8 then b else a

def result (k : Arithmetic) (v : Variant) (a b : Nat) : Nat :=
  match k with
  | .copy => b
  | .logic .or => a ||| b
  | .logic .and => a &&& b
  | .logic .xor => a ^^^ b
  | .sum => (a + b) % 256
  | .subtract => (((a : Int) - b) % 256).toNat
  | .shift .right => shifted v a b / 2
  | .subtractFrom => (((b : Int) - a) % 256).toNat
  | .shift .left => 2 * shifted v a b % 256

/-- The flag, if it is written, where the two registers hold `a` and `b`. -/
def flag? (k : Arithmetic) (v : Variant) (a b : Nat) : Option Nat :=
  match k with
  | .copy => none
  | .logic _ => if v = .chip8 then some 0 else none
  | .sum => some (if 255 < a + b then 1 else 0)
  | .subtract => some (if b ≤ a then 1 else 0)
  | .shift .right => some (shifted v a b % 2)
  | .subtractFrom => some (if a ≤ b then 1 else 0)
  | .shift .left => some (shifted v a b / 128)

theorem ofOpcode_word (k : Arithmetic) (x y : Register) :
    Instruction.ofOpcode (k.word x y) = k.instruction x y := by
  have hword : k.word x y = (k.instruction x y).toOpcode := by
    cases k with
    | logic op | shift op => cases op <;> rfl
    | _ => rfl
  have hdefined : (k.instruction x y).isDefined = true := by cases k <;> rfl
  rw [hword, Instruction.ofOpcode_toOpcode hdefined]

end Arithmetic

theorem Logic.toNat_eval (op : Logic) (v : Variant) (a b : UInt8) :
    (op.eval a b).toNat = (Arithmetic.logic op).result v a.toNat b.toNat := by
  cases op with
  | or => exact UInt8.toNat_or a b
  | and => exact UInt8.toNat_and a b
  | xor => exact UInt8.toNat_xor a b

theorem Shift.toNat_eval (op : Shift) (a : UInt8) :
    (op.eval a).toNat =
      match op with
      | .right => a.toNat / 2
      | .left => 2 * a.toNat % 256 := by
  cases op with
  | right =>
    show (a >>> 1).toNat = a.toNat / 2
    rw [UInt8.toNat_shiftRight]
    exact Nat.shiftRight_eq_div_pow _ 1
  | left =>
    show (a <<< 1).toNat = 2 * a.toNat % 256
    rw [UInt8.toNat_shiftLeft, Nat.mul_comm]
    exact congrArg (· % 256) (Nat.shiftLeft_eq _ 1)

theorem Shift.toNat_lost (op : Shift) (a : UInt8) :
    (op.lost a).toNat =
      match op with
      | .right => a.toNat % 2
      | .left => a.toNat / 128 := by
  cases op with
  | right =>
    show (a &&& 1).toNat = a.toNat % 2
    rw [UInt8.toNat_and]
    exact Nat.and_one_is_mod _
  | left =>
    show (a >>> 7).toNat = a.toNat / 128
    rw [UInt8.toNat_shiftRight]
    exact Nat.shiftRight_eq_div_pow _ 7

namespace Machine

variable {w h : Nat}

theorem toNat_flagOf (p : Prop) [Decidable p] : (flagOf p).toNat = if p then 1 else 0 := by
  by_cases hp : p <;> simp [flagOf, hp]

/-- A difference is taken modulo 256, and the flag tells that nothing was borrowed. -/
theorem toNat_byteDifference (a b : Nat) :
    (UInt8.ofNat (byteDifference a b).1).toNat = (((a : Int) - b) % 256).toNat ∧
      (UInt8.ofNat (byteDifference a b).2).toNat = if b ≤ a then 1 else 0 := by
  constructor
  · rw [UInt8.toNat_ofNat', byteDifference]
    omega
  · rw [byteDifference]
    by_cases hab : b ≤ a
    · rw [if_pos hab, if_pos (by omega)]
      rfl
    · rw [if_neg hab, if_neg (by omega)]
      rfl

theorem register_shiftSource (m : Machine w h) (x y : Register) :
    (m.register (m.shiftSource x y)).toNat =
      Arithmetic.shifted m.variant (m.register x).toNat (m.register y).toNat := by
  unfold shiftSource Arithmetic.shifted
  split <;> rfl

def computed (m : Machine w h) (k : Arithmetic) (x y : Register) : Nat :=
  k.result m.variant (m.register x).toNat (m.register y).toNat

/-- The flag that an instruction `8XYN` writes, if it writes one. -/
def computedFlag? (m : Machine w h) (k : Arithmetic) (x y : Register) : Option Nat :=
  k.flag? m.variant (m.register x).toNat (m.register y).toNat

/-- A register written, and behind it the flag if there is one to write. -/
def writeBoth (m : Machine w h) (r : Register) (b : UInt8) : Option UInt8 → Machine w h
  | none => m.setRegister r b
  | some flag => m.writeFlagged r b flag

theorem register_writeBoth {m : Machine w h} (hm : m.registers.size = registerCount) (r : Register)
    (b : UInt8) (flag? : Option UInt8) (s : Register) :
    (m.writeBoth r b flag?).register s =
      if s = Register.flag then flag?.getD (if r = s then b else m.register s)
      else if r = s then b else m.register s := by
  cases flag? with
  | none =>
    rw [writeBoth, register_setRegister hm, Option.getD_none, ite_self]
  | some flag =>
    have hset : (m.setRegister r b).registers.size = registerCount := by
      simpa [setRegister] using hm
    rw [writeBoth, writeFlagged, register_setRegister hset, register_setRegister hm]
    simp only [Option.getD_some, eq_comm]

theorem perform_arithmetic {m : Machine w h} (hm : m.registers.size = registerCount) (tall : Bool)
    (random : UInt8) (k : Arithmetic) (x y : Register) :
    ∃ b flag?, m.perform tall random (k.instruction x y) =
        .done (m.writeBoth (k.target x y) b flag?) ∧
      b.toNat = m.computed k x y ∧ flag?.map UInt8.toNat = m.computedFlag? k x y := by
  have hneed := need_of_size hm
  cases k with
  | copy => exact ⟨m.register y, none, hneed _ _, rfl, rfl⟩
  | logic op =>
    have hx : (m.setRegister x (op.eval (m.register x) (m.register y))).registers.size =
        registerCount := by simpa [setRegister] using hm
    refine ⟨op.eval (m.register x) (m.register y),
      if m.variant = .chip8 then some 0 else none, ?_, op.toNat_eval _ _ _, ?_⟩
    · simp only [Arithmetic.instruction, perform, hneed, setFlag_of_size hx]
      split <;> rfl
    · simp only [computedFlag?, Arithmetic.flag?]
      split <;> rfl
  | sum =>
    have hflag := toNat_flagOf (255 < (m.register x).toNat + (m.register y).toNat)
    refine ⟨_, some _, ?_, UInt8.toNat_add _ _, congrArg some hflag⟩
    simp only [Arithmetic.instruction, perform, hneed, setWithFlag_eq hm]
    rfl
  | subtract =>
    obtain ⟨hresult, hflag⟩ := toNat_byteDifference (m.register x).toNat (m.register y).toNat
    refine ⟨_, some _, ?_, hresult, congrArg some hflag⟩
    simp only [Arithmetic.instruction, perform, hneed, setWithFlag_eq hm]
    rfl
  | subtractFrom =>
    obtain ⟨hresult, hflag⟩ := toNat_byteDifference (m.register y).toNat (m.register x).toNat
    refine ⟨_, some _, ?_, hresult, congrArg some hflag⟩
    simp only [Arithmetic.instruction, perform, hneed, setWithFlag_eq hm]
    rfl
  | shift op =>
    refine ⟨op.eval (m.register (m.shiftSource x y)),
      some (op.lost (m.register (m.shiftSource x y))), ?_, ?_, ?_⟩
    · simp only [Arithmetic.instruction, perform, hneed, setWithFlag_eq hm]
      rfl
    · rw [op.toNat_eval, register_shiftSource]
      cases op <;> rfl
    · rw [Option.map_some, op.toNat_lost, register_shiftSource]
      cases op <;> rfl

end Machine

namespace Console

variable {w h : Nat} {c : Console w h}

/-- What an instruction `8XYN` leaves behind: the flag where it is written, the result unless the
flag has overwritten it, and everything else as it was. -/
structure Computes (c : Console w h) (k : Arithmetic) (x y : Register) (after : Console w h) :
    Prop where
  registers_size : after.machine.registers.size = registerCount
  flag : ∀ f, c.machine.computedFlag? k x y = some f →
    (after.machine.register Register.flag).toNat = f
  target : k.target x y ≠ Register.flag ∨ c.machine.computedFlag? k x y = none →
    (after.machine.register (k.target x y)).toNat = c.machine.computed k x y
  others : ∀ r, r ≠ k.target x y → r ≠ Register.flag ∨ c.machine.computedFlag? k x y = none →
    after.machine.register r = c.machine.register r
  rest : after = { c with
    machine := { c.machine.advance with registers := after.machine.registers } }

theorem execute_word (hm : c.machine.registers.size = registerCount) (k : Arithmetic)
    (x y : Register) :
    ∃ after, c.execute (k.word x y) = .done after ∧ c.Computes k x y after := by
  obtain ⟨b, flag?, hperform, hb, hflag⟩ := Machine.perform_arithmetic (m := c.machine.advance) hm
    c.tall c.noise.next k x y
  have hregister := Machine.register_writeBoth (m := c.machine.advance) hm (k.target x y) b flag?
  have hnoise : c.noiseAfter (k.instruction x y) = c.noise := by cases k <;> rfl
  have hnone : c.machine.computedFlag? k x y = none → flag? = none := by
    intro hno
    rw [← Option.map_eq_none_iff (f := UInt8.toNat), hflag]
    exact hno
  refine ⟨{ c with machine := c.machine.advance.writeBoth (k.target x y) b flag? }, ?_, ?_⟩
  · rw [execute, Machine.execute, k.ofOpcode_word, hperform, Outcome.map, hnoise]
  · constructor
    case registers_size =>
      cases flag? <;>
        simpa [Machine.writeBoth, Machine.writeFlagged, Machine.setRegister, Machine.advance]
          using hm
    case flag =>
      intro f hf
      obtain ⟨flag, rfl, rfl⟩ := Option.map_eq_some_iff.mp (hflag.trans hf)
      rw [hregister, if_pos rfl, Option.getD_some]
    case target =>
      rintro (hne | hno)
      · rw [hregister, if_neg hne, if_pos rfl]
        exact hb
      · rw [hregister, hnone hno, Option.getD_none, ite_self, if_pos rfl]
        exact hb
    case others =>
      rintro r hr (hne | hno)
      · rw [hregister, if_neg hne, if_neg hr.symm]
        rfl
      · rw [hregister, hnone hno, Option.getD_none, ite_self, if_neg hr.symm]
        rfl
    case rest => cases flag? <;> rfl

/-- A register added to another and taken away again: the sum is undone, and the flag of the
difference is set if the sum had no carry. -/
theorem execute_sum_subtract (hm : c.machine.registers.size = registerCount) {x y : Register}
    (hxy : x ≠ y) (hx : x ≠ Register.flag) (hy : y ≠ Register.flag) :
    ∃ mid after, c.execute (Arithmetic.sum.word x y) = .done mid ∧
      mid.execute (Arithmetic.subtract.word x y) = .done after ∧
      after.machine.register x = c.machine.register x ∧
      (after.machine.register Register.flag = 1 ↔
        (c.machine.register x).toNat + (c.machine.register y).toNat ≤ 255) := by
  obtain ⟨mid, hsum, hfirst⟩ := execute_word hm .sum x y
  obtain ⟨after, hsubtract, hsecond⟩ := execute_word hfirst.registers_size .subtract x y
  have ha := (c.machine.register x).toNat_lt
  have hb := (c.machine.register y).toNat_lt
  have hmid : (mid.machine.register x).toNat =
      ((c.machine.register x).toNat + (c.machine.register y).toNat) % 256 := hfirst.target (.inl hx)
  have hkept : mid.machine.register y = c.machine.register y :=
    hfirst.others y (Ne.symm hxy) (.inl hy)
  have hresult : (after.machine.register x).toNat =
      (((mid.machine.register x).toNat - (mid.machine.register y).toNat : Int) % 256).toNat :=
    hsecond.target (.inl hx)
  have hflag : (after.machine.register Register.flag).toNat =
      if (mid.machine.register y).toNat ≤ (mid.machine.register x).toNat then 1 else 0 :=
    hsecond.flag _ rfl
  rw [hkept, hmid] at hresult hflag
  refine ⟨mid, after, hsum, hsubtract, UInt8.toNat_inj.mp (by omega), ?_⟩
  rw [← UInt8.toNat_inj, hflag, UInt8.toNat_one]
  split <;> omega

/-- The instructions `8XYN` follow their table, whichever registers they name and on every variant;
and on two registers other than the flag a sum and a difference undo each other. -/
theorem execute_arithmetic (hm : c.machine.registers.size = registerCount) (x y : Register) :
    (∀ k : Arithmetic, ∃ after, c.execute (k.word x y) = .done after ∧ c.Computes k x y after) ∧
      (x ≠ y → x ≠ Register.flag → y ≠ Register.flag →
        ∃ mid after, c.execute (Arithmetic.sum.word x y) = .done mid ∧
          mid.execute (Arithmetic.subtract.word x y) = .done after ∧
          after.machine.register x = c.machine.register x ∧
          (after.machine.register Register.flag = 1 ↔
            (c.machine.register x).toNat + (c.machine.register y).toNat ≤ 255)) :=
  ⟨fun k => execute_word hm k x y, execute_sum_subtract hm⟩

/-- Two bytes added with a carry, once into the flag register itself and once to be taken apart
again. -/
theorem execute_arithmetic_carry :
    let c : Console 64 32 :=
      ⟨((Machine.fresh 64 32 .superchip).setRegister 1 200).setRegister Register.flag 100,
        Noise.cycle [0], false⟩
    c.machine.registers.size = registerCount ∧
      (∃ after, c.execute ⟨0x8f14⟩ = .done after ∧
        (after.machine.register Register.flag).toNat = 1) ∧
      ∃ mid after, c.execute ⟨0x8124⟩ = .done mid ∧ mid.execute ⟨0x8125⟩ = .done after ∧
        after.machine.register 1 = 200 ∧ after.machine.register Register.flag = 1 := by
  intro c
  have hc : c.machine.registers.size = registerCount := rfl
  obtain ⟨after, hsum, hcomputes⟩ := (execute_arithmetic hc Register.flag 1).1 .sum
  obtain ⟨mid, after', hmid, hafter, hx, hflag⟩ :=
    (execute_arithmetic hc 1 2).2 (by decide) (by decide) (by decide)
  exact ⟨hc, ⟨after, hsum, hcomputes.flag 1 (by decide)⟩, mid, after', hmid, hafter, hx,
    hflag.mpr (by decide)⟩

end Console
end Chip8
