import Chip8.Proofs.Move
import Mathlib.Logic.Basic

/-!
# Recast machines

The variant of a machine is seen by few instructions, and the mark that its screen is to be shown by
none. Another variant or a set mark is carried along by every instruction that the two variants do
not carry out differently, and so by every move that comes to no such instruction.
-/

namespace Chip8

/-- Whether two variants carry an instruction out differently. -/
def Instruction.Deviates (tall : Bool) (v v' : Variant) : Instruction → Prop
  | .logic _ _ _ | .dump _ | .restore _ => ¬(v = .chip8 ↔ v' = .chip8)
  | .shift _ x y => ¬(v = .chip8 ↔ v' = .chip8) ∧ x ≠ y
  | .draw _ _ rows => ¬(v = .xochip ↔ v' = .xochip) ∧ tall = true ∧ rows = 0
  | _ => False

theorem Instruction.not_deviates_self (tall : Bool) (v : Variant) (i : Instruction) :
    ¬i.Deviates tall v v := by
  cases i <;> simp [Deviates]

namespace Machine

variable {w h : Nat}

/-- A machine of another variant and, if asked for, marked to be shown. -/
def recast (f : Variant → Variant) (mark : Bool) (m : Machine w h) : Machine w h :=
  { m with variant := f m.variant, redraw := mark || m.redraw }

def marked (m : Machine w h) : Machine w h := { m with redraw := true }

theorem variant_marked (m : Machine w h) : m.marked.variant = m.variant := rfl

def withVariant (m : Machine w h) (v : Variant) : Machine w h := { m with variant := v }

section Recast

variable {f : Variant → Variant} {b : Bool} {m : Machine w h}

@[simp] theorem variant_recast : (m.recast f b).variant = f m.variant := rfl

@[simp] theorem memory_recast : (m.recast f b).memory = m.memory := rfl

@[simp] theorem registers_recast : (m.recast f b).registers = m.registers := rfl

@[simp] theorem index_recast : (m.recast f b).index = m.index := rfl

@[simp] theorem stack_recast : (m.recast f b).stack = m.stack := rfl

@[simp] theorem keys_recast : (m.recast f b).keys = m.keys := rfl

@[simp] theorem meets_recast (condition : Condition) :
    (m.recast f b).meets condition = m.meets condition := by
  cases condition <;> rfl

theorem need_recast (rs : List Register) (next : Outcome (Machine w h)) :
    (m.recast f b).need rs (next.map (recast f b)) =
      (m.need rs next).map (recast f b) := by
  unfold need
  rw [registers_recast]
  split <;> rfl

theorem access_recast (i : Instruction) (size : Nat) (next : Outcome (Machine w h)) :
    (m.recast f b).access i size (next.map (recast f b)) =
      (m.access i size next).map (recast f b) := by
  unfold access
  rw [index_recast, memory_recast]
  split <;> rfl

theorem setFlag_recast (flag : UInt8) :
    (m.recast f b).setFlag flag = (m.setFlag flag).map (recast f b) :=
  need_recast [Register.flag] (.done (m.setRegister Register.flag flag))

theorem setWithFlag_recast (r : Register) (v flag : UInt8) :
    (m.recast f b).setWithFlag r v flag = (m.setWithFlag r v flag).map (recast f b) :=
  setFlag_recast (m := m.setRegister r v) flag

theorem withRegisters_recast (registers : Except Failure Bytes) :
    (m.recast f b).withRegisters registers =
      (m.withRegisters registers).map (recast f b) := by
  cases registers <;> rfl

theorem withMemory_recast (memory : Except Failure Bytes) :
    (m.recast f b).withMemory memory = (m.withMemory memory).map (recast f b) := by
  cases memory <;> rfl

theorem shiftSource_recast {x y : Register}
    (hsame : (m.variant = .chip8 ↔ f m.variant = .chip8) ∨ x = y) :
    (m.recast f b).shiftSource x y = m.shiftSource x y := by
  unfold shiftSource
  rcases hsame with hchip | rfl
  · exact if_congr hchip.symm rfl rfl
  · simp only [ite_self]

theorem indexAfterBlock_recast (hsame : m.variant = .chip8 ↔ f m.variant = .chip8)
    (x : Register) : (m.recast f b).indexAfterBlock x = m.indexAfterBlock x :=
  if_congr hsame.symm rfl rfl

theorem spriteShape_recast {tall : Bool} {rows : Fin 16}
    (hsame : (m.variant = .xochip ↔ f m.variant = .xochip) ∨ ¬(tall = true ∧ rows = 0)) :
    (m.recast f b).spriteShape tall rows = m.spriteShape tall rows := by
  unfold spriteShape
  rcases hsame with hxo | hsmall
  · exact if_congr (and_congr_right' (and_congr_right' hxo.symm)) rfl rfl
  · rw [if_neg fun hlarge => hsmall ⟨hlarge.2.1, hlarge.1⟩,
      if_neg fun hlarge => hsmall ⟨hlarge.2.1, hlarge.1⟩]

theorem drawSprite_recast {tall : Bool} {rows : Fin 16} (x y : Register)
    (hshape : (m.recast f b).spriteShape tall rows = m.spriteShape tall rows) :
    (m.recast f b).drawSprite tall x y rows =
      (m.drawSprite tall x y rows).map (recast f b) := by
  have hdrawn : (m.recast f b).drawn tall x y rows = m.drawn tall x y rows := by
    simp only [drawn, hshape]
    rfl
  have hflag := setFlag_recast (f := f) (b := b)
    (m := { m with screen := (m.drawn tall x y rows).1 }) (flagOf (m.drawn tall x y rows).2)
  simp only [drawSprite, hdrawn]
  refine (congrArg (Outcome.andThen · _) hflag).trans ?_
  cases ({ m with screen := (m.drawn tall x y rows).1 } : Machine w h).setFlag
    (flagOf (m.drawn tall x y rows).2) with
  | done drawn => cases b <;> rfl
  | failed why drawn => rfl

/-- An instruction that both variants carry out alike has the same effect on a recast machine. -/
theorem perform_recast {tall : Bool} {i : Instruction}
    (hsame : ¬i.Deviates tall m.variant (f m.variant)) (random : UInt8) :
    (m.recast f b).perform tall random i =
      (m.perform tall random i).map (recast f b) := by
  cases i with
  | jump _ | setIndex _ | ignored _ => rfl
  | clear => cases b <;> rfl
  | leave =>
    simp only [perform, stack_recast]
    cases m.stack <;> rfl
  | call a =>
    simp only [perform, stack_recast, apply_ite (Outcome.map (recast f b))]
    rfl
  | skip condition =>
    simp only [perform, ← need_recast, meets_recast]
    split <;> rfl
  | set _ _ | add _ _ | copy _ _ | random _ _ | jumpPlus _ | setDelay _ | setSound _ | addIndex _
  | pointDigit _ =>
    simp only [perform, ← need_recast]
    rfl
  | sum _ _ | subtract _ _ | subtractFrom _ _ =>
    simp only [perform, ← need_recast, ← setWithFlag_recast]
    rfl
  | logic op x y =>
    have hchip := Decidable.not_not.mp hsame
    simp only [perform, ← need_recast, apply_ite (Outcome.map (recast f b)), ← setFlag_recast,
      variant_recast, hchip]
    rfl
  | shift op x y =>
    have hsource := shiftSource_recast (m := m) (b := b)
      ((Classical.not_and_iff_not_or_not.mp hsame).imp Decidable.not_not.mp Decidable.not_not.mp)
    simp only [perform, hsource, ← need_recast, ← setWithFlag_recast]
    rfl
  | draw x y rows =>
    have hshape := spriteShape_recast (m := m) (b := b)
      ((Classical.not_and_iff_not_or_not.mp hsame).imp_left Decidable.not_not.mp)
    simp only [perform, hshape, ← access_recast, ← need_recast,
      apply_ite (Outcome.map (recast f b)), ← drawSprite_recast x y hshape]
    rfl
  | readDelay x => exact withRegisters_recast _
  | awaitKey x =>
    simp only [perform, keys_recast]
    cases m.keys.first? with
    | some k =>
      simp only [← need_recast]
      rfl
    | none => rfl
  | storeDecimal x =>
    simp only [perform, ← access_recast, ← need_recast, ← withMemory_recast]
    rfl
  | dump x | restore x =>
    have hindex := indexAfterBlock_recast (b := b) (Decidable.not_not.mp hsame) x
    simp only [perform, hindex, ← access_recast]
    rfl

end Recast

/-- No instruction changes the variant, on whatever machine: it has the same effect if the variant is
put back afterwards. -/
theorem variant_perform (m : Machine w h) (tall : Bool) (random : UInt8) (i : Instruction) :
    (m.perform tall random i).state.variant = m.variant := by
  have hback := perform_recast (f := fun _ => m.variant) (b := false)
    (i.not_deviates_self tall m.variant) random
  have hsame : m.recast (fun _ => m.variant) false = m := rfl
  rw [hsame] at hback
  rw [hback, Outcome.state_map]
  rfl

end Machine

namespace Console

variable {w h : Nat}

theorem variant_move (c : Console w h) (a : Move) :
    (c.move a).state.machine.variant = c.machine.variant := by
  cases a with
  | step =>
    simp only [move, step]
    cases c.machine.fetch with
    | error why => rfl
    | ok word =>
      simp only [execute, Outcome.state_map]
      exact c.machine.advance.variant_perform c.tall c.noise.next (.ofOpcode word)
  | decay => rfl
  | press k held =>
    simp only [move, onMachine, Machine.press, Outcome.state_map]
    cases Key.ofInt k <;> rfl

theorem tall_move (c : Console w h) (a : Move) : (c.move a).state.tall = c.tall := by
  cases a with
  | step =>
    simp only [move, step]
    cases c.machine.fetch with
    | error why => rfl
    | ok word => simp only [execute, Outcome.state_map]
  | decay => rfl
  | press k held => simp only [move, onMachine, Outcome.state_map]

theorem variant_play (c : Console w h) (moves : List Move) :
    (c.play moves).machine.variant = c.machine.variant :=
  play_of_move (P := fun d => d.machine.variant = c.machine.variant)
    (fun d a hd => (d.variant_move a).trans hd) rfl moves

theorem tall_play (c : Console w h) (moves : List Move) : (c.play moves).tall = c.tall :=
  play_of_move (P := fun d => d.tall = c.tall) (fun d a hd => (d.tall_move a).trans hd) rfl moves

/-- The instruction that a step of the console would execute, if it finds one, is carried out alike
by two variants. -/
def Undivided (v v' : Variant) (c : Console w h) : Prop :=
  ∀ word, c.machine.fetch = .ok word → ¬(Instruction.ofOpcode word).Deviates c.tall v v'

/-- A recast console has the same history, as long as no step comes to an instruction that its
variant carries out differently. -/
theorem history_recast {f : Variant → Variant} {b : Bool} {c : Console w h} {moves : List Move}
    (hsame : ∀ earlier later, moves = earlier ++ .step :: later →
      (c.play earlier).Undivided c.machine.variant (f c.machine.variant)) :
    (c.mapMachine (.recast f b)).history moves =
      (c.history moves).map (Outcome.map (mapMachine (.recast f b))) := by
  refine history_map fun earlier a later hmoves =>
    move_mapMachine (g := .recast f b) rfl (fun _ _ => rfl) rfl ?_
  rintro word rfl hword
  have hundivided := hsame earlier later hmoves word hword
  rw [← c.variant_play earlier] at hundivided
  exact Machine.perform_recast (m := (c.play earlier).machine.advance) hundivided _

end Console
end Chip8
