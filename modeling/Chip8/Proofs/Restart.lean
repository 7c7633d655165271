import Chip8.Proofs.Operation
import Chip8.Proofs.Recast

/-!
# Starting afresh

A machine that is set back with a program is the machine that is built with this program, but for
the mark that its screen is to be shown; and no move sees that mark. A program that is too large is
refused by both, and leaves the machine as it was.
-/

namespace Chip8
namespace Machine

variable {w h : Nat}

theorem toList_memory_fresh (v : Variant) :
    (fresh w h v).memory.toList =
      digitRows ++ List.replicate (memorySize - digitRows.length) 0 := by
  have hfit : 0 + digitRows.length ≤ (Bytes.blank memorySize).size := by
    rw [Bytes.size_blank]
    decide
  refine ((Bytes.blank memorySize).toList_replace digitRows hfit).trans ?_
  simp only [Bytes.blank, Bytes.toList, Array.toList_replicate, List.take_zero, List.nil_append,
    List.drop_replicate, Nat.zero_add]

/-- The memory of a machine as it is built: the digit sprites, zeros up to the start of the program,
the program, and zeros up to the end. -/
theorem toList_memory_loaded (v : Variant) {program : List UInt8}
    (hp : program.length ≤ programCapacity) :
    (loaded w h v program).memory.toList =
      digitRows ++ List.replicate (programStart - digitRows.length) 0 ++ program ++
        List.replicate (programCapacity - program.length) 0 := by
  have hrows : digitRows.length = 80 := rfl
  have hfresh : (fresh w h v).memory.size = memorySize :=
    memory_size_loadDigits (Bytes.size_blank memorySize)
  simp only [programCapacity] at hp
  have hfit : programStart + program.length ≤ (fresh w h v).memory.size := by
    simp only [hfresh, programStart, memorySize]
    omega
  have hfront : digitRows.length ≤ programStart := by
    rw [hrows]
    decide
  have hback : digitRows.length ≤ programStart + program.length := Nat.le_add_right_of_le hfront
  have hmin : min (programStart - digitRows.length) (memorySize - digitRows.length) =
      programStart - digitRows.length := by
    rw [hrows]
    decide
  have hrest : memorySize - digitRows.length - (programStart + program.length - digitRows.length) =
      programCapacity - program.length := by
    rw [hrows]
    simp only [memorySize, programStart, programCapacity]
    omega
  show ((fresh w h v).memory.replace programStart program.length program).toList = _
  rw [Bytes.toList_replace _ program hfit, toList_memory_fresh, List.take_append,
    List.take_of_length_le hfront, List.take_replicate, hmin, List.drop_append,
    List.drop_of_length_le hback, List.nil_append, List.drop_replicate, hrest]

theorem redraw_loaded (v : Variant) (program : List UInt8) :
    (loaded w h v program).redraw = false := rfl

theorem variant_loaded (v : Variant) (program : List UInt8) :
    (loaded w h v program).variant = v := rfl

theorem restarted_eq (m : Machine w h) (program : List UInt8) :
    m.restarted program = (loaded w h m.variant program).marked := rfl

theorem variant_of_reset {m m' : Machine w h} {program : List UInt8}
    (hm : m.reset program = .done m') : m'.variant = m.variant := by
  rw [(eq_restarted_of_reset hm).2, restarted_eq, variant_marked, variant_loaded]

end Machine

namespace Console

variable {w h : Nat}

theorem history_marked (m : Machine w h) (noise : Noise) (tall : Bool) (moves : List Move) :
    (Console.mk m.marked noise tall).history moves =
      ((Console.mk m noise tall).history moves).map (Outcome.map (mapMachine .marked)) :=
  history_recast (f := id) (b := true) (c := ⟨m, noise, tall⟩)
    fun _ _ _ _ _ => Instruction.not_deviates_self _ _ _

end Console

namespace Machine

variable {w h : Nat}

/-- A program that is too large is refused and nothing is changed. Every other program gives the
machine that is built with it, but for the mark that the screen is to be shown; and whatever is done
with the two machines from there on comes to the same, but for this mark. -/
theorem reset_as_built (m : Machine w h) (program : List UInt8) :
    (programCapacity < program.length →
      m.reset program = .failed (.programTooLarge program.length) m ∧
      create w h m.variant program = .error (.programTooLarge program.length)) ∧
    (program.length ≤ programCapacity →
      ∃ built, create w h m.variant program = .ok built ∧ built.redraw = false ∧
        m.reset program = .done built.marked ∧
        built.memory.toList =
          digitRows ++ List.replicate (programStart - digitRows.length) 0 ++ program ++
            List.replicate (programCapacity - program.length) 0 ∧
        ∀ (noise : Noise) (tall : Bool) (moves : List Move),
          (Console.mk built.marked noise tall).history moves =
            ((Console.mk built noise tall).history moves).map
              (Outcome.map (Console.mapMachine marked))) := by
  constructor
  · intro hlarge
    exact ⟨m.reset_of_lt hlarge, create_of_lt m.variant hlarge⟩
  · intro hp
    have hreset := m.reset_eq hp
    rw [restarted_eq] at hreset
    exact ⟨loaded w h m.variant program, create_eq m.variant hp, redraw_loaded m.variant program,
      hreset, toList_memory_loaded m.variant hp, Console.history_marked _⟩

/-- A machine in the middle of a program, set back with a program that is too large and with one that
is not. -/
theorem reset_as_built_midway :
    let m : Machine 64 32 :=
      { fresh 64 32 .superchip with counter := 700, stack := [514], delay := 9 }
    let large := List.replicate (programCapacity + 1) (0 : UInt8)
    (programCapacity < large.length ∧
      m.reset large = .failed (.programTooLarge large.length) m ∧
      create 64 32 m.variant large = .error (.programTooLarge large.length)) ∧
    ([0x12, 0x00] : List UInt8).length ≤ programCapacity ∧
      ∃ built, create 64 32 m.variant [0x12, 0x00] = .ok built ∧
        m.reset [0x12, 0x00] = .done built.marked := by
  intro m large
  have hlarge : programCapacity < large.length := by
    rw [List.length_replicate]
    exact Nat.lt_succ_self programCapacity
  have hsmall : ([0x12, 0x00] : List UInt8).length ≤ programCapacity := by decide
  obtain ⟨built, hcreate, _, hreset, _⟩ := (reset_as_built m [0x12, 0x00]).2 hsmall
  exact ⟨⟨hlarge, (reset_as_built m large).1 hlarge⟩, hsmall, built, hcreate, hreset⟩

end Machine
end Chip8
