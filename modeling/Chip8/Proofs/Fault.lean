import Chip8.Proofs.Decoding
import Chip8.Proofs.Transition

/-!
# Faults of a step

A step that fails leaves everything as it was, but for the program counter, which has moved past the
word if there was one. It fails in the cases that `Machine.Faults` lists, each with its own fault,
and in one more: a word that reads a delay which no byte can hold.
-/

namespace Chip8
namespace Machine

variable {w h : Nat}

def spriteBytes (m : Machine w h) (tall : Bool) (c : Opcode) : Nat :=
  if c.toNat % 0x10 = 0 ∧ tall = true ∧ m.variant = .xochip then 32 else c.toNat % 0x10

/-- The faults of a step, with the address of the instruction at fault and its word. -/
inductive Faults (m : Machine w h) (tall : Bool) : Fault → Prop
  | fetch (hout : memorySize ≤ m.counter + 1) : Faults m tall (.fetchOutside m.counter)
  | stackEmpty (hin : m.counter + 1 < memorySize) (hword : m.word.toNat = 0x00ee)
      (hstack : m.stack = []) : Faults m tall (.stackEmpty m.counter m.word)
  | stackFull (hin : m.counter + 1 < memorySize) (hword : m.word.toNat / 0x1000 = 0x2)
      (hstack : maxStackDepth ≤ m.stack.length) : Faults m tall (.stackFull m.counter m.word)
  | sprite (hin : m.counter + 1 < memorySize) (hword : m.word.toNat / 0x1000 = 0xd)
      (hover : memorySize < m.index + m.spriteBytes tall m.word) :
      Faults m tall (.accessOutside (m.spriteBytes tall m.word) m.index m.counter m.word)
  | decimal (hin : m.counter + 1 < memorySize)
      (hword : m.word.toNat / 0x1000 = 0xf ∧ m.word.toNat % 0x100 = 0x33)
      (hover : memorySize < m.index + 3) :
      Faults m tall (.accessOutside 3 m.index m.counter m.word)
  | block (hin : m.counter + 1 < memorySize)
      (hword : m.word.toNat / 0x1000 = 0xf ∧
        (m.word.toNat % 0x100 = 0x55 ∨ m.word.toNat % 0x100 = 0x65))
      (hover : memorySize < m.index + (m.word.toNat / 0x100 % 0x10 + 1 : Nat)) :
      Faults m tall
        (.accessOutside (m.word.toNat / 0x100 % 0x10 + 1) m.index m.counter m.word)

/-- The word under the program counter reads a delay that no byte can hold. -/
def ReadsWideDelay (m : Machine w h) : Prop :=
  m.counter + 1 < memorySize ∧ m.word.toNat / 0x1000 = 0xf ∧ m.word.toNat % 0x100 = 0x07 ∧
    ¬(0 ≤ m.delay ∧ m.delay ≤ 255)

theorem origin_advance {m : Machine w h} (hpc : 0 ≤ m.counter)
    (hin : m.counter + 1 < memorySize) : m.advance.origin = m.counter := by
  rw [advance_eq hpc hin]
  show m.counter + 2 - 2 = m.counter
  omega

theorem overrun?_advance_eq_some_iff {m : Machine w h} (hm : m.WellFormed) (hpc : 0 ≤ m.counter)
    (hin : m.counter + 1 < memorySize) {i : Instruction} (hop : i.toOpcode = m.word) {size : Nat}
    {why : Failure} :
    m.advance.overrun? i size = some why ↔
      memorySize < m.index + size ∧
        why = .fault (.accessOutside size m.index m.counter m.word) := by
  have hsize : m.advance.memory.size = memorySize := hm.memory_size
  have hindex : m.advance.index = m.index := rfl
  unfold overrun?
  rw [hsize, hindex, hop, origin_advance hpc hin]
  split
  · rename_i hfit
    constructor
    · intro h
      contradiction
    · intro h
      omega
  · rename_i hfit
    constructor
    · intro h
      exact ⟨by omega, (Option.some.inj h).symm⟩
    · intro h
      rw [h.2]

theorem spriteBytes_eq (m : Machine w h) (tall : Bool) {c : Opcode} {rows : Fin 16}
    (hrows : c.toNat % 0x10 = rows) :
    (m.spriteShape tall rows).1 * (m.spriteShape tall rows).2 = m.spriteBytes tall c := by
  have hzero : rows = 0 ↔ c.toNat % 0x10 = 0 := by
    rw [hrows]
    exact Fin.ext_iff
  unfold spriteShape spriteBytes
  simp only [hzero]
  split
  · rfl
  · rw [hrows, Nat.mul_one]

/-- An obstacle in front of the word under the program counter is a fault of the step, or a delay
that is too wide. -/
theorem faults_of_obstacle {m : Machine w h} (hm : m.WellFormed) (hpc : 0 ≤ m.counter)
    (hin : m.counter + 1 < memorySize) {tall : Bool} {why : Failure}
    (hobs : m.advance.obstacle? tall m.current = some why) :
    (∃ f, why = .fault f ∧ m.Faults tall f) ∨ m.ReadsWideDelay ∧ why = .notByte := by
  have horigin := origin_advance hpc hin
  have hcode : m.current.code = m.word.toNat := Instruction.code_ofOpcode m.word
  have hop : m.current.toOpcode = m.word := Instruction.toOpcode_ofOpcode m.word
  generalize m.current = i at hobs hcode hop
  cases i with
  | leave =>
    simp only [obstacle?] at hobs
    split at hobs
    · rename_i hstack
      have hwhy := (Option.some.inj hobs).symm
      rw [horigin, hop] at hwhy
      exact .inl ⟨_, hwhy, .stackEmpty hin hcode.symm hstack⟩
    · contradiction
  | call a =>
    have ha := a.isLt
    simp only [obstacle?] at hobs
    split at hobs
    · contradiction
    · rename_i hfull
      have hwhy := (Option.some.inj hobs).symm
      rw [horigin, hop] at hwhy
      have hword : m.word.toNat / 0x1000 = 0x2 := by
        simp only [Instruction.code] at hcode
        omega
      exact .inl ⟨_, hwhy, .stackFull hin hword (Nat.not_lt.mp hfull)⟩
  | draw x y rows =>
    have hx := x.isLt
    have hy := y.isLt
    have hr := rows.isLt
    simp only [Instruction.code, Instruction.wordXY] at hcode
    have hword : m.word.toNat / 0x1000 = 0xd := by omega
    have hrows : m.word.toNat % 0x10 = rows := by omega
    obtain ⟨hover, hwhy⟩ := (overrun?_advance_eq_some_iff hm hpc hin hop).mp hobs
    rw [spriteBytes_eq m.advance tall hrows] at hover hwhy
    exact .inl ⟨_, hwhy, .sprite hin hword hover⟩
  | readDelay x =>
    have hx := x.isLt
    simp only [obstacle?] at hobs
    split at hobs
    · contradiction
    · rename_i hwide
      simp only [Instruction.code, Instruction.wordXB] at hcode
      refine .inr ⟨⟨hin, by omega, by omega, ?_⟩, (Option.some.inj hobs).symm⟩
      intro hbyte
      exact hwide ⟨hbyte.1, Int.lt_of_le_of_lt hbyte.2 (by decide)⟩
  | storeDecimal x =>
    have hx := x.isLt
    simp only [Instruction.code, Instruction.wordXB] at hcode
    obtain ⟨hover, hwhy⟩ := (overrun?_advance_eq_some_iff hm hpc hin hop).mp hobs
    exact .inl ⟨_, hwhy, .decimal hin (by omega) hover⟩
  | dump x | restore x =>
    have hx := x.isLt
    simp only [Instruction.code, Instruction.wordXB] at hcode
    have hreg : m.word.toNat / 0x100 % 0x10 = x := by omega
    obtain ⟨hover, hwhy⟩ := (overrun?_advance_eq_some_iff hm hpc hin hop).mp hobs
    rw [← hreg] at hover hwhy
    exact .inl ⟨_, hwhy, .block hin (by omega) hover⟩
  | _ => simp [obstacle?] at hobs

theorem obstacle_of_faults {m : Machine w h} (hm : m.WellFormed) (hpc : 0 ≤ m.counter)
    (hin : m.counter + 1 < memorySize) {tall : Bool} {f : Fault} (hf : m.Faults tall f) :
    m.advance.obstacle? tall m.current = some (.fault f) := by
  have horigin := origin_advance hpc hin
  have hop : m.current.toOpcode = m.word := Instruction.toOpcode_ofOpcode m.word
  have hcurrent {i : Instruction} (hi : i.isDefined = true) (hcode : m.word.toNat = i.code) :
      m.current = i := (Instruction.ofOpcode_eq_iff hi).mpr hcode
  cases hf with
  | fetch hout => omega
  | stackEmpty _ hword hstack =>
    have hi := hcurrent (i := .leave) rfl hword
    have hempty : m.advance.stack = [] := hstack
    rw [hi] at hop ⊢
    simp only [obstacle?, if_pos hempty, horigin, hop]
  | stackFull _ hword hstack =>
    have hi := hcurrent (i := .call m.word.nnn) rfl (Instruction.toNat_eq_address hword)
    have hfull : ¬m.advance.stack.length < maxStackDepth := Nat.not_lt.mpr hstack
    rw [hi] at hop ⊢
    simp only [obstacle?, if_neg hfull, horigin, hop]
  | sprite _ hword hover =>
    have hrows : m.word.toNat % 0x10 = m.word.n := rfl
    have hi := hcurrent (i := .draw m.word.x m.word.y m.word.n) rfl
      (Instruction.toNat_eq_wordXY hword)
    rw [hi] at hop ⊢
    rw [obstacle?, spriteBytes_eq m.advance tall hrows]
    exact (overrun?_advance_eq_some_iff hm hpc hin hop).mpr ⟨hover, rfl⟩
  | decimal _ hword hover =>
    have hi := hcurrent (i := .storeDecimal m.word.x) rfl
      (Instruction.toNat_eq_wordXB hword.1 hword.2)
    rw [hi] at hop ⊢
    exact (overrun?_advance_eq_some_iff hm hpc hin hop).mpr ⟨hover, rfl⟩
  | block _ hword hover =>
    obtain ⟨hfamily, hdump | hrestore⟩ := hword
    · have hi := hcurrent (i := .dump m.word.x) rfl (Instruction.toNat_eq_wordXB hfamily hdump)
      rw [hi] at hop ⊢
      exact (overrun?_advance_eq_some_iff hm hpc hin hop).mpr ⟨hover, rfl⟩
    · have hi := hcurrent (i := .restore m.word.x) rfl
        (Instruction.toNat_eq_wordXB hfamily hrestore)
      rw [hi] at hop ⊢
      exact (overrun?_advance_eq_some_iff hm hpc hin hop).mpr ⟨hover, rfl⟩

theorem obstacle_of_readsWideDelay {m : Machine w h} (hwide : m.ReadsWideDelay) (tall : Bool) :
    m.advance.obstacle? tall m.current = some .notByte := by
  obtain ⟨_, hfamily, hlow, hdelay⟩ := hwide
  have hi : m.current = .readDelay m.word.x :=
    (Instruction.ofOpcode_eq_iff rfl).mpr (Instruction.toNat_eq_wordXB hfamily hlow)
  have hno : ¬(0 ≤ m.advance.delay ∧ m.advance.delay < 256) := by
    intro hbyte
    exact hdelay ⟨hbyte.1, Int.le_of_lt_add_one hbyte.2⟩
  rw [hi]
  exact if_neg hno

/-- A word put at an address, and the program counter put to it. -/
def placed (m : Machine w h) (a : Nat) (high low : UInt8) : Machine w h :=
  { m with memory := (m.memory.set a high).set (a + 1) low, counter := a }

theorem word_placed (m : Machine w h) {a : Nat} (high low : UInt8) (ha : a + 1 < m.memory.size) :
    (m.placed a high low).word = .ofBytes high low := by
  have hhigh : (m.placed a high low).memory.get a = high := by
    show ((m.memory.set a high).set (a + 1) low).get a = high
    rw [Bytes.get_set_of_ne _ _ (by omega), Bytes.get_set_self _ _ (by omega)]
  have hlow : (m.placed a high low).memory.get (a + 1) = low :=
    Bytes.get_set_self _ _ (by rw [Bytes.size_set]; exact ha)
  show Opcode.ofBytes ((m.placed a high low).memory.get a)
    ((m.placed a high low).memory.get (a + 1)) = _
  rw [hhigh, hlow]

theorem wellFormed_placed {m : Machine w h} (hm : m.WellFormed) (a : Nat) (high low : UInt8) :
    (m.placed a high low).WellFormed :=
  ⟨hm.width_pos, hm.height_pos, by simp [placed, hm.memory_size], hm.registers_size,
    hm.index_nonneg⟩

def ofWord (w h : Nat) (v : Variant) (high low : UInt8) : Machine w h :=
  { fresh w h v with
    memory := ((Bytes.blank memorySize).set programStart high).set (programStart + 1) low }

theorem word_ofWord (v : Variant) (high low : UInt8) :
    (ofWord w h v high low).word = .ofBytes high low := by
  have hsize : programStart + 1 < (Bytes.blank memorySize).size := by
    rw [Bytes.size_blank]
    decide
  exact word_placed { fresh w h v with memory := .blank memorySize } high low hsize

theorem wellFormed_ofWord (hw : 0 < w) (hh : 0 < h) (v : Variant) (high low : UInt8) :
    (ofWord w h v high low).WellFormed where
  width_pos := hw
  height_pos := hh
  memory_size := by simp [ofWord]
  registers_size := by simp [ofWord, fresh, loadDigits]
  index_nonneg := Int.le_refl 0

def withDelay (m : Machine w h) (d : Int) : Machine w h := { m with delay := d }

theorem word_withDelay (m : Machine w h) (d : Int) : (m.withDelay d).word = m.word := rfl

theorem wellFormed_withDelay {m : Machine w h} (hm : m.WellFormed) (d : Int) :
    (m.withDelay d).WellFormed :=
  ⟨hm.width_pos, hm.height_pos, hm.memory_size, hm.registers_size, hm.index_nonneg⟩

end Machine

namespace Console

variable {w h : Nat} {c : Console w h}

theorem step_of_outside (hm : c.machine.WellFormed) (hout : memorySize ≤ c.machine.counter + 1) :
    c.step = .failed (.fault (.fetchOutside c.machine.counter)) c := by
  simp only [step, Machine.fetch_outside hm.memory_size hout]

theorem step_of_obstacle (hm : c.machine.WellFormed) (hpc : 0 ≤ c.machine.counter)
    (hin : c.machine.counter + 1 < memorySize) {why : Failure}
    (hobs : c.machine.advance.obstacle? c.tall c.machine.current = some why) :
    c.step = .failed why { c with machine := c.machine.advance } := by
  rcases step_cases hm hpc with ⟨hout, _⟩ | ⟨_, why', hobs', hstep⟩ | ⟨_, hfree, _⟩
  · omega
  · rw [hobs] at hobs'
    rw [hstep, Option.some.inj hobs']
  · rw [hobs] at hfree
    contradiction

/-- A step that fails where there is no word changes nothing, and behind a word it changes nothing
but the program counter, which has moved past the word. -/
theorem step_failed_eq (hm : c.machine.WellFormed) (hpc : 0 ≤ c.machine.counter) {why : Failure}
    {after : Console w h} (hstep : c.step = .failed why after) :
    after = if memorySize ≤ c.machine.counter + 1 then c
      else { c with machine := { c.machine with counter := c.machine.counter + 2 } } := by
  rcases step_cases hm hpc with
    ⟨hout, hfetch⟩ | ⟨hin, _, _, hobs⟩ | ⟨_, _, hdone⟩
  · rw [hfetch] at hstep
    injection hstep with _ hafter
    rw [if_pos hout, hafter]
  · have hword : ¬memorySize ≤ c.machine.counter + 1 := Int.not_le.mpr hin
    rw [hobs] at hstep
    injection hstep with _ hafter
    rw [if_neg hword, ← hafter, Machine.advance_eq hpc hin]
  · rw [hdone] at hstep
    contradiction

/-- A return with nothing to return to. -/
theorem step_failed_eq_return :
    let c : Console 64 32 := ⟨Machine.ofWord 64 32 .chip8 0x00 0xee, Noise.cycle [7], false⟩
    c.machine.WellFormed ∧ 0 ≤ c.machine.counter ∧
      ∃ why after, c.step = .failed why after ∧
        after = if memorySize ≤ c.machine.counter + 1 then c
          else { c with machine := { c.machine with counter := c.machine.counter + 2 } } := by
  intro c
  have hm : c.machine.WellFormed :=
    Machine.wellFormed_ofWord (by decide) (by decide) .chip8 0x00 0xee
  have hcounter : c.machine.counter = 512 := rfl
  have hpc : 0 ≤ c.machine.counter := by omega
  have hin : c.machine.counter + 1 < memorySize := by
    simp only [hcounter, memorySize]
    omega
  have hword : c.machine.word.toNat = 0x00ee := by
    rw [Machine.word_ofWord .chip8 0x00 0xee]
    rfl
  have hfault : c.machine.Faults c.tall _ := .stackEmpty hin hword rfl
  have hstep := step_of_obstacle hm hpc hin (Machine.obstacle_of_faults hm hpc hin hfault)
  exact ⟨hm, hpc, _, _, hstep, step_failed_eq hm hpc hstep⟩

/-- A step fails in the listed cases, with their faults, and in no other case but one: a delay that
no byte can hold is not read. -/
theorem step_failure?_eq_some_iff (hm : c.machine.WellFormed) (hpc : 0 ≤ c.machine.counter)
    {why : Failure} :
    c.step.failure? = some why ↔
      (∃ f, why = .fault f ∧ c.machine.Faults c.tall f) ∨
        c.machine.ReadsWideDelay ∧ why = .notByte := by
  constructor
  · intro hstep
    rcases step_cases hm hpc with
      ⟨hout, hfetch⟩ | ⟨hin, why', hobs, hfailed⟩ | ⟨_, _, hdone⟩
    · rw [hfetch] at hstep
      exact .inl ⟨_, (Option.some.inj hstep).symm, .fetch hout⟩
    · rw [hfailed] at hstep
      rw [← Option.some.inj hstep]
      exact Machine.faults_of_obstacle hm hpc hin hobs
    · rw [hdone] at hstep
      contradiction
  · rintro (⟨f, rfl, hf⟩ | ⟨hwide, rfl⟩)
    · by_cases hout : memorySize ≤ c.machine.counter + 1
      · obtain rfl : f = .fetchOutside c.machine.counter := by
          cases hf with
          | fetch => rfl
          | _ => omega
        rw [step_of_outside hm hout, Outcome.failure?_failed]
      · have hin : c.machine.counter + 1 < memorySize := Int.not_le.mp hout
        have hobs := Machine.obstacle_of_faults hm hpc hin hf
        rw [step_of_obstacle hm hpc hin hobs, Outcome.failure?_failed]
    · have hobs := Machine.obstacle_of_readsWideDelay hwide c.tall
      rw [step_of_obstacle hm hpc hwide.1 hobs, Outcome.failure?_failed]

def withWideDelay : Console 64 32 :=
  ⟨(Machine.ofWord 64 32 .chip8 0xf0 0x07).withDelay 300, Noise.cycle [0], false⟩

theorem wellFormed_withWideDelay : withWideDelay.machine.WellFormed :=
  Machine.wellFormed_withDelay
    (Machine.wellFormed_ofWord (by decide) (by decide) .chip8 0xf0 0x07) 300

theorem readsWideDelay_withWideDelay : withWideDelay.machine.ReadsWideDelay := by
  have hcounter : withWideDelay.machine.counter = 512 := rfl
  have hdelay : withWideDelay.machine.delay = 300 := rfl
  have hword : withWideDelay.machine.word = .ofBytes 0xf0 0x07 :=
    (Machine.word_withDelay _ _).trans (Machine.word_ofWord .chip8 0xf0 0x07)
  refine ⟨?_, ?_, ?_, ?_⟩
  · simp only [hcounter, memorySize]
    omega
  · rw [hword]
    rfl
  · rw [hword]
    rfl
  · omega

theorem step_failure?_eq_some_iff_wide_delay :
    withWideDelay.machine.WellFormed ∧ 0 ≤ withWideDelay.machine.counter ∧
      (withWideDelay.step.failure? = some .notByte ↔
        (∃ f, Failure.notByte = .fault f ∧ withWideDelay.machine.Faults withWideDelay.tall f) ∨
          withWideDelay.machine.ReadsWideDelay ∧ Failure.notByte = .notByte) := by
  have hcounter : withWideDelay.machine.counter = 512 := rfl
  have hpc : 0 ≤ withWideDelay.machine.counter := by omega
  exact ⟨wellFormed_withWideDelay, hpc, step_failure?_eq_some_iff wellFormed_withWideDelay hpc⟩

/-- The listed cases are not all: reading a delay that is too wide fails without any of them. -/
theorem withWideDelay_fails_without_fault :
    withWideDelay.machine.WellFormed ∧ 0 ≤ withWideDelay.machine.counter ∧
      withWideDelay.step.failure? = some .notByte ∧
      ∀ f, ¬withWideDelay.machine.Faults withWideDelay.tall f := by
  have hm := wellFormed_withWideDelay
  have hwide := readsWideDelay_withWideDelay
  have hcounter : withWideDelay.machine.counter = 512 := rfl
  have hpc : 0 ≤ withWideDelay.machine.counter := by omega
  have hobs := Machine.obstacle_of_readsWideDelay hwide withWideDelay.tall
  refine ⟨hm, hpc, ?_, ?_⟩
  · rw [step_of_obstacle hm hpc hwide.1 hobs, Outcome.failure?_failed]
  · intro f hf
    have hfault := Machine.obstacle_of_faults hm hpc hwide.1 hf
    rw [hobs] at hfault
    have hwhy := Option.some.inj hfault
    injection hwhy

end Console
end Chip8
