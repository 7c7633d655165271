import Chip8.Proofs.Transition

/-!
# Operations

What can be done to a console from outside: a step, a tick of the timers, a key latched or released,
a program started afresh. A run goes on from the state that an operation left, also where the
operation failed.
-/

namespace Chip8

inductive Operation
  | step
  | decay
  | press (k : Key) (held : Bool)
  | reset (program : List UInt8)
  deriving DecidableEq

namespace Console

variable {w h : Nat}

def operate (c : Console w h) : Operation → Outcome (Console w h)
  | .step => c.step
  | .decay => c.onMachine fun m => .done m.decay
  | .press k held => c.onMachine (·.press k held)
  | .reset program => c.onMachine (·.reset program)

/-- The console after some operations, whether they succeeded or not. -/
def run (c : Console w h) : List Operation → Console w h
  | [] => c
  | op :: ops => (c.operate op).state.run ops

end Console

theorem Key.ofInt_natCast (k : Key) : Key.ofInt k = .ok k := by
  have hk := k.isLt
  have hwide : ¬((k : Int) < -wideLimit ∨ wideLimit ≤ (k : Int)) := by
    simp only [wideLimit]
    omega
  have hin : -16 ≤ (k : Int) ∧ (k : Int) < 16 := by omega
  have hmod : ((k : Int) % 16).toNat = k := by omega
  simp only [Key.ofInt, if_neg hwide, if_pos hin, hmod]
  exact congrArg Except.ok (Fin.ext (Nat.mod_eq_of_lt hk))

namespace Machine

variable {w h : Nat}

theorem press_eq (m : Machine w h) (k : Key) (held : Bool) :
    m.press k held = .done (m.latch k held) := by
  simp only [press, Key.ofInt_natCast]

def loaded (w h : Nat) (v : Variant) (program : List UInt8) : Machine w h :=
  { fresh w h v with
    memory := (fresh w h v).memory.replace programStart program.length program }

/-- A machine with a program started afresh on it. -/
def restarted (m : Machine w h) (program : List UInt8) : Machine w h :=
  { loaded w h m.variant program with redraw := true }

theorem memory_size_loadDigits {m : Machine w h} (hm : m.memory.size = memorySize) :
    m.loadDigits.memory.size = memorySize := by
  have hfit : 0 + digitRows.length ≤ m.memory.size := by rw [hm]; decide
  exact (m.memory.size_replace (a := 0) hfit rfl).trans hm

theorem memory_size_loaded (v : Variant) {program : List UInt8}
    (hp : program.length ≤ programCapacity) :
    (loaded w h v program).memory.size = memorySize := by
  have hfresh : (fresh w h v).memory.size = memorySize :=
    memory_size_loadDigits (Bytes.size_blank memorySize)
  have hfit : programStart + program.length ≤ (fresh w h v).memory.size := by
    simp only [programCapacity] at hp
    simp only [hfresh, programStart, memorySize]
    omega
  exact ((fresh w h v).memory.size_replace hfit rfl).trans hfresh

/-- A machine as it is built stands at the first word of its program. -/
theorem word_loaded (v : Variant) {first second : UInt8} {program : List UInt8}
    (hp : (first :: second :: program).length ≤ programCapacity) :
    (loaded w h v (first :: second :: program)).word = .ofBytes first second := by
  have hsize : (fresh w h v).memory.size = memorySize :=
    memory_size_loadDigits (Bytes.size_blank memorySize)
  have hfit : programStart + (first :: second :: program).length ≤ (fresh w h v).memory.size := by
    simp only [programCapacity] at hp
    simp only [hsize, programStart, memorySize]
    omega
  have hlength : 2 ≤ (first :: second :: program).length := by simp
  have hget (k : Nat) (hk : k < 2) :
      (loaded w h v (first :: second :: program)).memory.get (programStart + k) =
        (first :: second :: program)[k]?.getD 0 := by
    refine ((fresh w h v).memory.get_replace hfit rfl _).trans ?_
    rw [if_pos ⟨by omega, by omega⟩, Nat.add_sub_cancel_left]
  show Opcode.ofBytes ((loaded w h v _).memory.get (programStart + 0))
    ((loaded w h v _).memory.get (programStart + 1)) = _
  rw [hget 0 (by decide), hget 1 (by decide)]
  rfl

theorem create_eq (v : Variant) {program : List UInt8} (hp : program.length ≤ programCapacity) :
    create w h v program = .ok (loaded w h v program) := by
  simp only [create, load, if_neg (Nat.not_lt.mpr hp), loaded]

theorem create_of_lt (v : Variant) {program : List UInt8}
    (hp : programCapacity < program.length) :
    create w h v program = .error (.programTooLarge program.length) := by
  simp only [create, load, if_pos hp]

theorem eq_loaded_of_create {v : Variant} {program : List UInt8} {m : Machine w h}
    (hm : create w h v program = .ok m) :
    program.length ≤ programCapacity ∧ m = loaded w h v program := by
  by_cases hp : program.length ≤ programCapacity
  · rw [create_eq v hp] at hm
    exact ⟨hp, (Except.ok.inj hm).symm⟩
  · rw [create_of_lt v (Nat.lt_of_not_le hp)] at hm
    contradiction

theorem reset_eq (m : Machine w h) {program : List UInt8}
    (hp : program.length ≤ programCapacity) : m.reset program = .done (m.restarted program) := by
  simp only [reset, load, if_neg (Nat.not_lt.mpr hp)]
  rfl

theorem reset_of_lt (m : Machine w h) {program : List UInt8}
    (hp : programCapacity < program.length) :
    m.reset program = .failed (.programTooLarge program.length) m :=
  if_pos hp

theorem eq_restarted_of_reset {m m' : Machine w h} {program : List UInt8}
    (hm : m.reset program = .done m') :
    program.length ≤ programCapacity ∧ m' = m.restarted program := by
  by_cases hp : program.length ≤ programCapacity
  · rw [reset_eq m hp] at hm
    exact ⟨hp, (Outcome.done.inj hm).symm⟩
  · rw [reset_of_lt m (Nat.lt_of_not_le hp)] at hm
    contradiction

theorem redraw_of_reset {m m' : Machine w h} {program : List UInt8}
    (hm : m.reset program = .done m') : m'.redraw = true := by
  rw [(eq_restarted_of_reset hm).2]
  rfl

end Machine
end Chip8
