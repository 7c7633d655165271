import Chip8.Proofs.Move
import Chip8.Proofs.Transition

/-!
# Grounded machines

A well-formed machine whose program counter and return addresses are not below zero stays so through
every move. Each of its steps finds the word under the program counter or no word at all.
-/

namespace Chip8
namespace Machine

variable {w h : Nat}

/-- A well-formed machine that has no address below zero to go to. -/
structure Grounded (m : Machine w h) : Prop extends WellFormed m where
  counter_nonneg : 0 ≤ m.counter
  stack_nonneg : ∀ a ∈ m.stack, 0 ≤ a

/-- The program counter does not fall below zero behind a word: only a wait takes it back, by as much
as it has moved. -/
theorem counter_result_nonneg {m : Machine w h} (hpc : 2 ≤ m.counter)
    (hstack : ∀ a ∈ m.stack, 0 ≤ a) {tall : Bool} {i : Instruction}
    (hfree : m.obstacle? tall i = none) (random : UInt8) :
    0 ≤ (m.result tall random i).counter := by
  cases i with
  | leave =>
    cases hs : m.stack with
    | nil => exact absurd hs (obstacle?_leave_eq_none_iff.mp hfree)
    | cons a rest =>
      simp only [result, hs, List.headD_cons]
      exact hstack a (by simp [hs])
  | jump a | call a | jumpPlus a =>
    simp only [result]
    omega
  | skip condition =>
    simp only [result]
    split
    · show 0 ≤ m.counter + 2
      omega
    · omega
  | awaitKey x =>
    simp only [result]
    split
    · show 0 ≤ m.counter
      omega
    · show 0 ≤ m.counter - 2
      omega
  | _ =>
    rw [counter_result m tall random rfl]
    omega

theorem stack_result_nonneg {m : Machine w h} (hpc : 0 ≤ m.counter)
    (hstack : ∀ a ∈ m.stack, 0 ≤ a) (tall : Bool) (random : UInt8) (i : Instruction) :
    ∀ a ∈ (m.result tall random i).stack, 0 ≤ a := by
  cases i with
  | leave => exact fun a ha => hstack a (List.mem_of_mem_tail ha)
  | call a =>
    intro b hb
    rcases List.mem_cons.mp hb with rfl | hb
    · exact hpc
    · exact hstack b hb
  | _ =>
    rw [stack_result m tall random rfl]
    exact hstack

section Grounded

variable {m : Machine w h} (hm : m.Grounded)
include hm

theorem grounded_advance : m.advance.Grounded where
  toWellFormed := wellFormed_advance hm.toWellFormed
  counter_nonneg := Int.emod_nonneg _ (by decide)
  stack_nonneg := hm.stack_nonneg

theorem grounded_result (hin : m.counter + 1 < memorySize) {tall : Bool} {i : Instruction}
    (hfree : m.advance.obstacle? tall i = none) (random : UInt8) :
    (m.advance.result tall random i).Grounded where
  toWellFormed := wellFormed_result (wellFormed_advance hm.toWellFormed) hfree random
  counter_nonneg := by
    refine counter_result_nonneg (m := m.advance) ?_ hm.stack_nonneg hfree random
    have hlow := hm.counter_nonneg
    rw [advance_eq hlow hin]
    show 2 ≤ m.counter + 2
    omega
  stack_nonneg :=
    stack_result_nonneg (grounded_advance hm).counter_nonneg hm.stack_nonneg tall random i

theorem grounded_decay : m.decay.Grounded :=
  { hm with toWellFormed := { hm.toWellFormed with } }

theorem grounded_latch (k : Key) (held : Bool) : (m.latch k held).Grounded :=
  { hm with toWellFormed := { hm.toWellFormed with } }

end Grounded

end Machine

namespace Console

variable {w h : Nat}

theorem grounded_step {c : Console w h} (hc : c.machine.Grounded) :
    c.step.state.machine.Grounded := by
  rcases step_cases hc.toWellFormed hc.counter_nonneg with
    ⟨_, hstep⟩ | ⟨_, why, _, hstep⟩ | ⟨hin, hfree, hstep⟩ <;> rw [hstep]
  · exact hc
  · exact Machine.grounded_advance hc
  · exact Machine.grounded_result hc hin hfree c.noise.next

theorem grounded_move {c : Console w h} (hc : c.machine.Grounded) (a : Move) :
    (c.move a).state.machine.Grounded := by
  cases a with
  | step => exact grounded_step hc
  | decay => exact Machine.grounded_decay hc
  | press k held =>
    simp only [move, onMachine, Machine.press, Outcome.state_map]
    cases Key.ofInt k with
    | ok key => exact Machine.grounded_latch hc key held
    | error why => exact hc

theorem grounded_play {c : Console w h} (hc : c.machine.Grounded) (moves : List Move) :
    (c.play moves).machine.Grounded :=
  play_of_move (P := fun d => d.machine.Grounded) (fun _ a hd => grounded_move hd a) hc moves

end Console
end Chip8
