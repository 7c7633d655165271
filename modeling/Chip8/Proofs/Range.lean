import Chip8.Proofs.Operation

/-!
# Ranges

Whatever is done to a machine that was built with a program, its state stays within fixed ranges and
its operations fail in four ways only. The program counter is the delicate part: jumps with an
offset and skips are not cut to any number of bits, a pending wait takes the counter back, and a
return takes it from the stack.
-/

namespace Chip8
namespace Machine

variable {w h : Nat}

/-- The ranges of a machine. The numbers of keys, of pixels and of values in a byte are in the
types. -/
structure InRange (m : Machine w h) : Prop extends WellFormed m where
  index_le : m.index ≤ 65535
  counter_mem : 0 ≤ m.counter ∧ m.counter ≤ 4350
  stack_length : m.stack.length ≤ maxStackDepth
  stack_mem : ∀ a ∈ m.stack, 2 ≤ a ∧ a ≤ 4096
  delay_mem : 0 ≤ m.delay ∧ m.delay ≤ 255
  sound_mem : 0 ≤ m.sound ∧ m.sound ≤ 255

theorem index_result_le {m : Machine w h} (hm : m.WellFormed) (hi : m.index ≤ 65535) {tall : Bool}
    {i : Instruction} (hfree : m.obstacle? tall i = none) (random : UInt8) :
    (m.result tall random i).index ≤ 65535 := by
  have hsize : m.memory.size = 4096 := hm.memory_size
  have hblock (x : Register) (hfit : m.index + (x + 1 : Nat) ≤ m.memory.size) :
      m.indexAfterBlock x ≤ 65535 := by
    unfold indexAfterBlock
    split <;> omega
  cases i with
  | setIndex a =>
    have ha := a.isLt
    simp only [result]
    omega
  | addIndex x =>
    simp only [result]
    omega
  | pointDigit x =>
    have hx := (m.register x).toNat_lt
    simp only [result, digitSize]
    omega
  | dump x | restore x => exact hblock x (overrun?_eq_none_iff.mp hfree)
  | _ =>
    rw [index_result m tall random rfl]
    exact hi

theorem counter_result_mem {m : Machine w h} (hpc : 2 ≤ m.counter ∧ m.counter ≤ 4096)
    (hstack : ∀ a ∈ m.stack, 2 ≤ a ∧ a ≤ 4096) {tall : Bool} {i : Instruction}
    (hfree : m.obstacle? tall i = none) (random : UInt8) :
    0 ≤ (m.result tall random i).counter ∧ (m.result tall random i).counter ≤ 4350 := by
  obtain ⟨hlow, hhigh⟩ := hpc
  cases i with
  | leave =>
    cases hs : m.stack with
    | nil => exact absurd hs (obstacle?_leave_eq_none_iff.mp hfree)
    | cons a rest =>
      have ha := hstack a (by simp [hs])
      simp only [result, hs, List.headD_cons]
      omega
  | jump a | call a =>
    have ha := a.isLt
    simp only [result]
    omega
  | skip condition =>
    simp only [result]
    split
    · show 0 ≤ m.counter + 2 ∧ m.counter + 2 ≤ 4350
      omega
    · omega
  | jumpPlus a =>
    have ha := a.isLt
    have hoffset := (m.register 0).toNat_lt
    simp only [result]
    omega
  | awaitKey x =>
    simp only [result]
    split
    · show 0 ≤ m.counter ∧ m.counter ≤ 4350
      omega
    · show 0 ≤ m.counter - 2 ∧ m.counter - 2 ≤ 4350
      omega
  | _ =>
    rw [counter_result m tall random rfl]
    omega

theorem stack_result_mem {m : Machine w h} (hpc : 2 ≤ m.counter ∧ m.counter ≤ 4096)
    (hlength : m.stack.length ≤ maxStackDepth) (hstack : ∀ a ∈ m.stack, 2 ≤ a ∧ a ≤ 4096)
    {tall : Bool} {i : Instruction} (hfree : m.obstacle? tall i = none) (random : UInt8) :
    (m.result tall random i).stack.length ≤ maxStackDepth ∧
      ∀ a ∈ (m.result tall random i).stack, 2 ≤ a ∧ a ≤ 4096 := by
  cases i with
  | leave =>
    refine ⟨?_, fun a ha => hstack a (List.mem_of_mem_tail ha)⟩
    simp only [result, List.length_tail]
    omega
  | call a =>
    have hroom := obstacle?_call_eq_none_iff.mp hfree
    refine ⟨hroom, fun b hb => ?_⟩
    rcases List.mem_cons.mp hb with rfl | hb
    · exact hpc
    · exact hstack b hb
  | _ =>
    rw [stack_result m tall random rfl]
    exact ⟨hlength, hstack⟩

theorem delay_result_mem {m : Machine w h} (hd : 0 ≤ m.delay ∧ m.delay ≤ 255) (tall : Bool)
    (random : UInt8) (i : Instruction) :
    0 ≤ (m.result tall random i).delay ∧ (m.result tall random i).delay ≤ 255 := by
  cases i with
  | setDelay x =>
    have hx := (m.register x).toNat_lt
    simp only [result]
    omega
  | _ =>
    rw [delay_result m tall random rfl]
    exact hd

theorem sound_result_mem {m : Machine w h} (hs : 0 ≤ m.sound ∧ m.sound ≤ 255) (tall : Bool)
    (random : UInt8) (i : Instruction) :
    0 ≤ (m.result tall random i).sound ∧ (m.result tall random i).sound ≤ 255 := by
  cases i with
  | setSound x =>
    have hx := (m.register x).toNat_lt
    simp only [result]
    omega
  | _ =>
    rw [sound_result m tall random rfl]
    exact hs

theorem inRange_result {m : Machine w h} (hm : m.InRange) (hin : m.counter + 1 < memorySize)
    {tall : Bool} {i : Instruction} (hfree : m.advance.obstacle? tall i = none)
    (random : UInt8) : (m.advance.result tall random i).InRange := by
  have hwf := wellFormed_advance hm.toWellFormed
  have hpc : 2 ≤ m.advance.counter ∧ m.advance.counter ≤ 4096 := by
    have hlow := hm.counter_mem.1
    rw [advance_eq hlow hin]
    simp only [memorySize] at hin
    show 2 ≤ m.counter + 2 ∧ m.counter + 2 ≤ 4096
    omega
  have hstack := stack_result_mem hpc hm.stack_length hm.stack_mem hfree random
  have hdelay := delay_result_mem (m := m.advance) hm.delay_mem tall random i
  have hsound := sound_result_mem (m := m.advance) hm.sound_mem tall random i
  exact {
    toWellFormed := wellFormed_result hwf hfree random
    index_le := index_result_le hwf hm.index_le hfree random
    counter_mem := counter_result_mem hpc hm.stack_mem hfree random
    stack_length := hstack.1
    stack_mem := hstack.2
    delay_mem := hdelay
    sound_mem := hsound }

theorem inRange_advance {m : Machine w h} (hm : m.InRange) (hin : m.counter + 1 < memorySize) :
    m.advance.InRange := by
  refine { hm with toWellFormed := wellFormed_advance hm.toWellFormed, counter_mem := ?_ }
  have hlow := hm.counter_mem.1
  rw [advance_eq hlow hin]
  simp only [memorySize] at hin
  show 0 ≤ m.counter + 2 ∧ m.counter + 2 ≤ 4350
  omega

theorem countDown_mem {t : Int} (ht : 0 ≤ t ∧ t ≤ 255) : 0 ≤ countDown t ∧ countDown t ≤ 255 := by
  rw [countDown_of_nonneg ht.1]
  omega

theorem inRange_decay {m : Machine w h} (hm : m.InRange) : m.decay.InRange :=
  { hm with
    toWellFormed := { hm.toWellFormed with }
    delay_mem := countDown_mem hm.delay_mem
    sound_mem := countDown_mem hm.sound_mem }

theorem inRange_latch {m : Machine w h} (hm : m.InRange) (k : Key) (held : Bool) :
    (m.latch k held).InRange :=
  { hm with toWellFormed := { hm.toWellFormed with } }

theorem inRange_loaded (hw : 0 < w) (hh : 0 < h) (v : Variant) {program : List UInt8}
    (hp : program.length ≤ programCapacity) (redraw : Bool) :
    ({ loaded w h v program with redraw := redraw } : Machine w h).InRange where
  width_pos := hw
  height_pos := hh
  memory_size := memory_size_loaded v hp
  registers_size := Bytes.size_blank registerCount
  index_nonneg := Int.le_refl 0
  index_le := by show (0 : Int) ≤ 65535; decide
  counter_mem := by show (0 : Int) ≤ 512 ∧ (512 : Int) ≤ 4350; decide
  stack_length := Nat.zero_le _
  stack_mem := fun a ha => absurd ha List.not_mem_nil
  delay_mem := by show (0 : Int) ≤ 0 ∧ (0 : Int) ≤ 255; decide
  sound_mem := by show (0 : Int) ≤ 0 ∧ (0 : Int) ≤ 255; decide

theorem inRange_of_reset {m m' : Machine w h} (hm : m.InRange) {program : List UInt8}
    (hreset : m.reset program = .done m') : m'.InRange := by
  obtain ⟨hp, rfl⟩ := eq_restarted_of_reset hreset
  exact inRange_loaded hm.width_pos hm.height_pos m.variant hp true

theorem kind_obstacle {m : Machine w h} (hd : 0 ≤ m.delay ∧ m.delay ≤ 255) {tall : Bool}
    {i : Instruction} {why : Failure} (hobs : m.obstacle? tall i = some why) :
    ∃ kind ∈ [ErrorKind.stackFull, .stackEmpty, .outside], why.kind? = some kind := by
  have hover {size : Nat} (ho : m.overrun? i size = some why) : why.kind? = some .outside := by
    unfold overrun? at ho
    split at ho
    · contradiction
    · rw [← Option.some.inj ho]
      rfl
  cases i with
  | leave =>
    simp only [obstacle?] at hobs
    split at hobs
    · rw [← Option.some.inj hobs]
      exact ⟨.stackEmpty, by simp, rfl⟩
    · contradiction
  | call a =>
    simp only [obstacle?] at hobs
    split at hobs
    · contradiction
    · rw [← Option.some.inj hobs]
      exact ⟨.stackFull, by simp, rfl⟩
  | readDelay x =>
    have hbyte : 0 ≤ m.delay ∧ m.delay < 256 := by omega
    simp [obstacle?, hbyte] at hobs
  | draw _ _ _ | storeDecimal _ | dump _ | restore _ => exact ⟨.outside, by simp, hover hobs⟩
  | _ => simp [obstacle?] at hobs

end Machine

/-- The kinds of failures that an operation on a machine in range may end in. -/
def Operation.failureKinds : Operation → List ErrorKind
  | .step => [.stackFull, .stackEmpty, .outside]
  | .reset _ => [.tooLarge]
  | .decay | .press _ _ => []

namespace Console

variable {w h : Nat}

theorem step_inRange {c : Console w h} (hc : c.machine.InRange) :
    c.step.state.machine.InRange ∧
      ∀ why, c.step.failure? = some why →
        ∃ kind ∈ Operation.step.failureKinds, why.kind? = some kind := by
  rcases step_cases hc.toWellFormed hc.counter_mem.1 with
    ⟨_, hstep⟩ | ⟨hin, why, hobs, hstep⟩ | ⟨hin, hfree, hstep⟩ <;> rw [hstep]
  · refine ⟨hc, fun why hwhy => ⟨.outside, by simp [Operation.failureKinds], ?_⟩⟩
    rw [← Option.some.inj hwhy]
    rfl
  · refine ⟨Machine.inRange_advance hc hin, fun why' hwhy => ?_⟩
    rw [← Option.some.inj hwhy]
    exact Machine.kind_obstacle (m := c.machine.advance) hc.delay_mem hobs
  · exact ⟨Machine.inRange_result hc hin hfree c.noise.next,
      fun why hwhy => absurd hwhy (Outcome.failure?_done_ne _ why)⟩

/-- A step on a machine in range fails by a fault, if at all. -/
theorem exists_fault_of_step {c : Console w h} (hc : c.machine.InRange) {why : Failure}
    (hwhy : c.step.failure? = some why) : ∃ f, why = .fault f := by
  obtain ⟨kind, hmem, hkind⟩ := (step_inRange hc).2 why hwhy
  cases why with
  | fault f => exact ⟨f, rfl⟩
  | programTooLarge size | programUnreadable path reason =>
    rw [← Option.some.inj hkind] at hmem
    simp [Operation.failureKinds] at hmem
  | _ => contradiction

/-- Every operation keeps the ranges, and fails in the ways of its kind only. -/
theorem operate_inRange {c : Console w h} (hc : c.machine.InRange) (op : Operation) :
    (c.operate op).state.machine.InRange ∧
      ∀ why, (c.operate op).failure? = some why →
        ∃ kind ∈ op.failureKinds, why.kind? = some kind := by
  cases op with
  | step => exact step_inRange hc
  | decay =>
    exact ⟨Machine.inRange_decay hc, fun why hwhy => absurd hwhy (Outcome.failure?_done_ne _ why)⟩
  | press k held =>
    simp only [operate, onMachine, Machine.press_eq, Outcome.map]
    exact ⟨Machine.inRange_latch hc k held,
      fun why hwhy => absurd hwhy (Outcome.failure?_done_ne _ why)⟩
  | reset program =>
    by_cases hp : program.length ≤ programCapacity
    · simp only [operate, onMachine, Machine.reset_eq c.machine hp, Outcome.map]
      refine ⟨?_, fun why hwhy => absurd hwhy (Outcome.failure?_done_ne _ why)⟩
      exact Machine.inRange_loaded hc.width_pos hc.height_pos c.machine.variant hp true
    · have hlarge := Machine.reset_of_lt c.machine (Nat.lt_of_not_le hp)
      simp only [operate, onMachine, hlarge, Outcome.map]
      refine ⟨hc, fun why hwhy => ⟨.tooLarge, by simp [Operation.failureKinds], ?_⟩⟩
      rw [← Option.some.inj hwhy]
      rfl

theorem run_inRange {c : Console w h} (hc : c.machine.InRange) (ops : List Operation) :
    (c.run ops).machine.InRange := by
  induction ops generalizing c with
  | nil => exact hc
  | cons op ops ih => exact ih (operate_inRange hc op).1

/-- A machine can be built with every program that fits. Whatever is done to it then, in any order
and also behind failures, it stays in range, and what is done next fails in one of the ways of its
kind if it fails at all. -/
theorem run_create_inRange (hw : 0 < w) (hh : 0 < h) (v : Variant) (noise : Noise) (tall : Bool)
    {program : List UInt8} (hp : program.length ≤ programCapacity) :
    ∃ m, Machine.create w h v program = .ok m ∧
      ∀ ops : List Operation,
        ((Console.mk m noise tall).run ops).machine.InRange ∧
        ∀ op why, (((Console.mk m noise tall).run ops).operate op).failure? = some why →
          ∃ kind ∈ op.failureKinds, why.kind? = some kind := by
  refine ⟨Machine.loaded w h v program, Machine.create_eq v hp, fun ops => ?_⟩
  have hstart : (Console.mk (Machine.loaded w h v program) noise tall).machine.InRange :=
    Machine.inRange_loaded hw hh v hp false
  have hrun := run_inRange hstart ops
  exact ⟨hrun, fun op why hwhy => (operate_inRange hrun op).2 why hwhy⟩

/-- A program that calls itself until the stack is full. -/
theorem run_create_inRange_recursion :
    0 < 64 ∧ 0 < 32 ∧ [(0x22 : UInt8), 0x00].length ≤ programCapacity ∧
    ∃ m, Machine.create 64 32 .chip8 [0x22, 0x00] = .ok m ∧
      ∀ ops : List Operation,
        ((Console.mk m (Noise.cycle []) false).run ops).machine.InRange ∧
        ∀ op why, (((Console.mk m (Noise.cycle []) false).run ops).operate op).failure? = some why →
          ∃ kind ∈ op.failureKinds, why.kind? = some kind :=
  ⟨by decide, by decide, by decide,
    run_create_inRange (by decide) (by decide) .chip8 (Noise.cycle []) false (by decide)⟩

end Console
end Chip8
