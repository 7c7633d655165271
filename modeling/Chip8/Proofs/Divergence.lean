import Chip8.Proofs.Fault
import Chip8.Proofs.Operation
import Chip8.Proofs.Recast

/-!
# Where the variants diverge

Two variants carry a word out alike unless it is a bitwise operation, a shift between two registers
or a block of registers, which set the first variant apart, or a large sprite, which the last one
has. Of these, the bitwise operations differ in the flag at most, the shifts in the shifted register
and the flag, and the blocks in where they leave the address register. So runs of two variants are
alike up to the first such word.
-/

namespace Chip8
namespace Machine

variable {w h : Nat}

/-- The variant and the values of some registers are all that two machines may differ in. -/
structure AgreeOutside (rs : List Register) (m m' : Machine w h) : Prop where
  rest : m' = { m with variant := m'.variant, registers := m'.registers }
  size : m'.registers.size = m.registers.size
  register : ∀ r, r ∉ rs → m'.register r = m.register r

section AgreeOutside

variable {rs : List Register} {m m' : Machine w h}

theorem AgreeOutside.symm (hagree : AgreeOutside rs m m') : AgreeOutside rs m' m where
  rest := by rw [hagree.rest]
  size := hagree.size.symm
  register r hr := (hagree.register r hr).symm

theorem AgreeOutside.set_right (hagree : AgreeOutside rs m m')
    (hm : m.registers.size = registerCount) {r : Register} (hr : r ∈ rs) (b : UInt8) :
    AgreeOutside rs m (m'.setRegister r b) where
  rest := congrArg (·.setRegister r b) hagree.rest
  size := (Bytes.size_set _ _ _).trans hagree.size
  register s hs := by
    have hne : r ≠ s := fun heq => hs (heq ▸ hr)
    rw [register_setRegister (hagree.size.trans hm), if_neg hne]
    exact hagree.register s hs

theorem AgreeOutside.set_left (hagree : AgreeOutside rs m m')
    (hm : m.registers.size = registerCount) {r : Register} (hr : r ∈ rs) (b : UInt8) :
    AgreeOutside rs (m.setRegister r b) m' :=
  (hagree.symm.set_right (hagree.size.trans hm) hr b).symm

theorem AgreeOutside.set (hagree : AgreeOutside rs m m')
    (hm : m.registers.size = registerCount) {r : Register} (hr : r ∈ rs) (b b' : UInt8) :
    AgreeOutside rs (m.setRegister r b) (m'.setRegister r b') :=
  (hagree.set_left hm hr b).set_right ((Bytes.size_set _ _ _).trans hm) hr b'

theorem agreeOutside_withVariant (rs : List Register) (m : Machine w h) (v v' : Variant) :
    AgreeOutside rs (m.withVariant v) (m.withVariant v') :=
  ⟨rfl, rfl, fun _ _ => rfl⟩

end AgreeOutside

theorem wellFormed_withVariant {m : Machine w h} (hm : m.WellFormed) (v : Variant) :
    (m.withVariant v).WellFormed :=
  ⟨hm.width_pos, hm.height_pos, hm.memory_size, hm.registers_size, hm.index_nonneg⟩

theorem overrun?_withVariant (m : Machine w h) (v : Variant) (i : Instruction) (size : Nat) :
    (m.withVariant v).overrun? i size = m.overrun? i size := rfl

section Execute

variable {m : Machine w h} (hm : m.WellFormed) (tall : Bool) (random : UInt8) {word : Opcode}
include hm

theorem execute_withVariant (v : Variant) :
    (m.withVariant v).execute tall random word =
      ((m.advance.withVariant v).obstacle? tall (.ofOpcode word)).elim
        (.done ((m.advance.withVariant v).result tall random (.ofOpcode word)))
        (.failed · (m.advance.withVariant v)) :=
  perform_eq (wellFormed_withVariant (wellFormed_advance hm) v) tall random (.ofOpcode word)

theorem execute_logic {op : Logic} {x y : Register}
    (hword : Instruction.ofOpcode word = .logic op x y) (v v' : Variant) :
    ∃ after after', (m.withVariant v).execute tall random word = .done after ∧
      (m.withVariant v').execute tall random word = .done after' ∧
      AgreeOutside [Register.flag] after after' := by
  have hdone (u : Variant) : (m.withVariant u).execute tall random word =
      .done ((m.advance.withVariant u).result tall random (.logic op x y)) := by
    rw [execute_withVariant hm, hword]
    rfl
  let stored := m.advance.setRegister x (op.eval (m.advance.register x) (m.advance.register y))
  have hsize : stored.registers.size = registerCount :=
    (Bytes.size_set _ _ _).trans hm.registers_size
  have hsame := agreeOutside_withVariant [Register.flag] stored v v'
  have hflag : Register.flag ∈ [Register.flag] := List.mem_singleton_self _
  refine ⟨_, _, hdone v, hdone v', ?_⟩
  simp only [result]
  split <;> split
  · exact hsame.set hsize hflag 0 0
  · exact hsame.set_left hsize hflag 0
  · exact hsame.set_right hsize hflag 0
  · exact hsame

theorem execute_shift {op : Shift} {x y : Register}
    (hword : Instruction.ofOpcode word = .shift op x y) (v v' : Variant) :
    ∃ after after', (m.withVariant v).execute tall random word = .done after ∧
      (m.withVariant v').execute tall random word = .done after' ∧
      AgreeOutside [x, Register.flag] after after' := by
  have hdone (u : Variant) : (m.withVariant u).execute tall random word =
      .done ((m.advance.withVariant u).result tall random (.shift op x y)) := by
    rw [execute_withVariant hm, hword]
    rfl
  have hsize : m.advance.registers.size = registerCount := hm.registers_size
  have hsame := agreeOutside_withVariant [x, Register.flag] m.advance v v'
  refine ⟨_, _, hdone v, hdone v', ?_⟩
  exact (hsame.set hsize (by simp) _ _).set ((Bytes.size_set _ _ _).trans hsize) (by simp) _ _

/-- A block of registers is moved alike or not at all, but the first variant leaves the address
register behind the block. -/
theorem execute_block {x : Register}
    (hword : Instruction.ofOpcode word = .dump x ∨ Instruction.ofOpcode word = .restore x)
    {v : Variant} (hv : v ≠ .chip8) :
    (∃ why after, (m.withVariant v).execute tall random word = .failed why after ∧
      (m.withVariant .chip8).execute tall random word =
        .failed why (after.withVariant .chip8)) ∨
    ∃ after, (m.withVariant v).execute tall random word = .done after ∧
      (m.withVariant .chip8).execute tall random word =
        .done { after.withVariant .chip8 with index := after.index + (x + 1 : Nat) } := by
  have hbehind : (m.advance.withVariant .chip8).indexAfterBlock x =
      (m.advance.withVariant v).indexAfterBlock x + (x + 1 : Nat) := by
    have hstays : (m.advance.withVariant v).indexAfterBlock x = m.advance.index := if_neg hv
    rw [hstays, Int.natCast_add, ← Int.add_assoc]
    rfl
  rw [execute_withVariant hm, execute_withVariant hm]
  cases hover : m.advance.overrun? (.ofOpcode word) (x + 1) with
  | some why =>
    left
    refine ⟨why, m.advance.withVariant v, ?_⟩
    rcases hword with hword | hword <;> rw [hword] at hover ⊢ <;>
      simp only [obstacle?, overrun?_withVariant, hover, Option.elim_some, true_and] <;> rfl
  | none =>
    right
    refine ⟨(m.advance.withVariant v).result tall random (.ofOpcode word), ?_⟩
    rcases hword with hword | hword <;> rw [hword] at hover ⊢ <;>
      simp only [obstacle?, overrun?_withVariant, hover, Option.elim_none, true_and] <;>
      simp only [result, hbehind] <;> rfl

end Execute

theorem create_withVariant (v v' : Variant) (program : List UInt8) :
    create w h v' program = (create w h v program).map (·.withVariant v') := by
  by_cases hp : program.length ≤ programCapacity
  · rw [create_eq v hp, create_eq v' hp]
    rfl
  · rw [create_of_lt v (Nat.lt_of_not_le hp), create_of_lt v' (Nat.lt_of_not_le hp)]
    rfl

theorem perform_tall {m : Machine w h} (hm : m.variant ≠ .xochip) (tall tall' : Bool)
    (random : UInt8) (i : Instruction) :
    m.perform tall' random i = m.perform tall random i := by
  cases i with
  | draw x y rows =>
    have hshape (t : Bool) : m.spriteShape t rows = ((rows : Nat), 1) :=
      if_neg fun hlarge => hm hlarge.2.2
    simp only [perform, drawSprite, drawn, hshape]
  | _ => rfl

end Machine

theorem Instruction.not_deviates_superchip_xochip (i : Instruction) :
    ¬i.Deviates false .superchip .xochip := by
  cases i <;> simp [Deviates]

namespace Console

variable {w h : Nat}

def withVariant (c : Console w h) (v : Variant) : Console w h := c.mapMachine (·.withVariant v)

def withTall (c : Console w h) (tall : Bool) : Console w h := { c with tall := tall }

/-- Two variants have the same history up to the first instruction that they carry out
differently. -/
theorem history_withVariant (c : Console w h) {v v' : Variant} {moves : List Move}
    (hsame : ∀ earlier later, moves = earlier ++ .step :: later →
      ((c.withVariant v).play earlier).Undivided v v') :
    (c.withVariant v').history moves =
      ((c.withVariant v).history moves).map (Outcome.map (·.withVariant v')) :=
  history_recast (f := fun _ => v') (b := false) (c := c.withVariant v) hsame

theorem history_superchip_xochip {c : Console w h} (hc : c.tall = false) (moves : List Move) :
    (c.withVariant .xochip).history moves =
      ((c.withVariant .superchip).history moves).map (Outcome.map (·.withVariant .xochip)) := by
  refine c.history_withVariant fun earlier later _ word _ => ?_
  have htall : ((c.withVariant .superchip).play earlier).tall = false :=
    (tall_play _ earlier).trans hc
  rw [htall]
  exact (Instruction.ofOpcode word).not_deviates_superchip_xochip

theorem move_withTall {c : Console w h} (hc : c.machine.variant ≠ .xochip) (tall : Bool)
    (a : Move) : (c.withTall tall).move a = (c.move a).map (·.withTall tall) := by
  cases a with
  | step =>
    simp only [move, step, withTall]
    cases c.machine.fetch with
    | error why => rfl
    | ok word =>
      have hexecute : c.machine.execute tall c.noise.next word =
          c.machine.execute c.tall c.noise.next word :=
        Machine.perform_tall (m := c.machine.advance) hc c.tall tall c.noise.next _
      simp only [execute, hexecute, Outcome.map_map]
      rfl
  | decay => rfl
  | press k held =>
    simp only [move, onMachine, withTall, Outcome.map_map]

theorem history_withTall {c : Console w h} (hc : c.machine.variant ≠ .xochip) (tall : Bool)
    (moves : List Move) :
    (c.withTall tall).history moves = (c.history moves).map (Outcome.map (·.withTall tall)) := by
  refine history_map (f := (·.withTall tall)) fun earlier a later _ => move_withTall ?_ tall a
  rwa [variant_play]

end Console

/-- On two machines that differ in their variants only, every word has the same outcome but for the
listed differences. So runs without large sprites are the same under the last two variants, large
sprites make no difference under the first two, and runs under the first two are the same up to the
first word that they carry out differently. -/
theorem variants_diverge_as_listed {w h : Nat} {m : Machine w h} (hm : m.WellFormed) (tall : Bool)
    (random : UInt8) (word : Opcode) (v v' : Variant) :
    (¬(Instruction.ofOpcode word).Deviates tall v v' →
      (m.withVariant v').execute tall random word =
        ((m.withVariant v).execute tall random word).map (·.withVariant v')) ∧
    (∀ op x y, Instruction.ofOpcode word = .logic op x y →
      ∃ after after', (m.withVariant v).execute tall random word = .done after ∧
        (m.withVariant v').execute tall random word = .done after' ∧
        Machine.AgreeOutside [Register.flag] after after') ∧
    (∀ op x y, Instruction.ofOpcode word = .shift op x y →
      ∃ after after', (m.withVariant v).execute tall random word = .done after ∧
        (m.withVariant v').execute tall random word = .done after' ∧
        Machine.AgreeOutside [x, Register.flag] after after') ∧
    (∀ x, Instruction.ofOpcode word = .dump x ∨ Instruction.ofOpcode word = .restore x →
      v ≠ .chip8 →
      (∃ why after, (m.withVariant v).execute tall random word = .failed why after ∧
        (m.withVariant .chip8).execute tall random word =
          .failed why (after.withVariant .chip8)) ∨
      ∃ after, (m.withVariant v).execute tall random word = .done after ∧
        (m.withVariant .chip8).execute tall random word =
          .done { after.withVariant .chip8 with index := after.index + (x + 1 : Nat) }) ∧
    (∀ program : List UInt8,
      Machine.create w h v' program = (Machine.create w h v program).map (·.withVariant v')) ∧
    ∀ (c : Console w h) (moves : List Move),
      (c.tall = false →
        (c.withVariant .xochip).history moves =
          ((c.withVariant .superchip).history moves).map
            (Outcome.map (·.withVariant .xochip))) ∧
      (c.machine.variant ≠ .xochip →
        ∀ tall, (c.withTall tall).history moves =
          (c.history moves).map (Outcome.map (·.withTall tall))) ∧
      ((∀ earlier later, moves = earlier ++ .step :: later →
          ((c.withVariant .chip8).play earlier).Undivided .chip8 .superchip) →
        (c.withVariant .superchip).history moves =
          ((c.withVariant .chip8).history moves).map
            (Outcome.map (·.withVariant .superchip))) := by
  refine ⟨?_, ?_, ?_, ?_, Machine.create_withVariant v v', ?_⟩
  · intro hsame
    exact Machine.perform_recast (f := fun _ => v') (b := false)
      (m := (m.withVariant v).advance) hsame random
  · intro op x y hword
    exact Machine.execute_logic hm tall random hword v v'
  · intro op x y hword
    exact Machine.execute_shift hm tall random hword v v'
  · intro x hword hv
    exact Machine.execute_block hm tall random hword hv
  · intro c moves
    exact ⟨fun hc => Console.history_superchip_xochip hc moves,
      fun hc tall => Console.history_withTall hc tall moves, c.history_withVariant⟩

/-- A shift from another register, which the first variant carries out in its own way. -/
theorem variants_diverge_as_listed_shift :
    let m := Machine.ofWord 64 32 .chip8 0x81 0x26
    let word := Opcode.ofBytes 0x81 0x26
    let c : Console 64 32 := ⟨m, Noise.cycle [7], false⟩
    m.WellFormed ∧ Instruction.ofOpcode word = .shift .right 1 2 ∧
      (∃ after after', (m.withVariant .chip8).execute true 0 word = .done after ∧
        (m.withVariant .superchip).execute true 0 word = .done after' ∧
        Machine.AgreeOutside [1, Register.flag] after after') ∧
      (c.withVariant .xochip).history [.step, .decay, .step] =
        ((c.withVariant .superchip).history [.step, .decay, .step]).map
          (Outcome.map (·.withVariant .xochip)) := by
  intro m word c
  have hm : m.WellFormed := Machine.wellFormed_ofWord (by decide) (by decide) .chip8 0x81 0x26
  have hword : Instruction.ofOpcode word = .shift .right 1 2 := by decide
  obtain ⟨_, _, hshift, _, _, hruns⟩ :=
    variants_diverge_as_listed hm true 0 word .chip8 .superchip
  exact ⟨hm, hword, hshift .right 1 2 hword, (hruns c [.step, .decay, .step]).1 rfl⟩

end Chip8
