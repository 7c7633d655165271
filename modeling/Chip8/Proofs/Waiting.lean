import Chip8.Proofs.Move
import Chip8.Proofs.Writing

/-!
# Waiting for a key

A word that waits for a key takes the program counter back to itself as long as no key is latched.
So its step leaves the console as it was, and however often it is taken only the ticks of the timers
and the keypad can be told from the machine. The first step with a key latched puts the least latched
key into a register and goes on.
-/

namespace Chip8

namespace Keypad

def moved (p : Keypad) : Move → Keypad
  | .press k held =>
    match Key.ofInt k with
    | .ok key => p.latch key held
    | .error _ => p
  | .step | .decay => p

/-- No step of some moves finds a key latched. -/
def Undisturbed (p : Keypad) (moves : List Move) : Prop :=
  ∀ earlier a later, moves = earlier ++ a :: later →
    a = .step → ∀ k, (earlier.foldl moved p).latched k = false

theorem undisturbed_nil (p : Keypad) : p.Undisturbed [] := forall_split_nil

theorem undisturbed_cons_iff (p : Keypad) (a : Move) (moves : List Move) :
    p.Undisturbed (a :: moves) ↔
      (a = .step → ∀ k, p.latched k = false) ∧ (p.moved a).Undisturbed moves :=
  forall_split_cons_iff

theorem undisturbed_of_append {p : Keypad} {earlier later : List Move}
    (hquiet : p.Undisturbed (earlier ++ later)) : p.Undisturbed earlier := by
  rintro first a rest rfl
  exact hquiet first a (rest ++ later) (List.append_assoc _ _ _)

theorem foldl_moved_of_no_press (p : Keypad) {moves : List Move}
    (hmoves : ∀ a ∈ moves, a = .step ∨ a = .decay) : moves.foldl moved p = p := by
  induction moves with
  | nil => rfl
  | cons a moves ih =>
    have hfirst : p.moved a = p := by
      rcases hmoves a List.mem_cons_self with rfl | rfl <;> rfl
    rw [List.foldl_cons, hfirst, ih fun b hb => hmoves b (List.mem_cons_of_mem a hb)]

end Keypad

namespace Machine

variable {w h : Nat}

/-- A machine with all its memory and registers in front of a word that waits for a key. -/
structure Awaits (m : Machine w h) : Prop where
  memory_size : m.memory.size = memorySize
  registers_size : m.registers.size = registerCount
  counter_nonneg : 0 ≤ m.counter
  within : m.counter + 1 < memorySize
  word : m.word.Has [.lastByte 0xf 0x0a]

/-- The machine so many ticks of the timers later, with another keypad. -/
def later (m : Machine w h) (ticks : Nat) (keys : Keypad) : Machine w h :=
  { m with delay := max 0 (m.delay - ticks), sound := max 0 (m.sound - ticks), keys := keys }

theorem later_zero {m : Machine w h} (hdelay : 0 ≤ m.delay) (hsound : 0 ≤ m.sound)
    (keys : Keypad) : m.later 0 keys = { m with keys := keys } := by
  have hmax {t : Int} (ht : 0 ≤ t) : max 0 (t - (0 : Nat)) = t := by omega
  rw [later, hmax hdelay, hmax hsound]

theorem later_later (m : Machine w h) (ticks ticks' : Nat) (keys keys' : Keypad) :
    (m.later ticks keys).later ticks' keys' = m.later (ticks + ticks') keys' := by
  have hmax (t : Int) : max 0 (max 0 (t - ticks) - ticks') = max 0 (t - (ticks + ticks' : Nat)) := by
    omega
  simp only [later, hmax]

theorem decay_eq_later {m : Machine w h} (hdelay : 0 ≤ m.delay) (hsound : 0 ≤ m.sound) :
    m.decay = m.later 1 m.keys := by
  rw [decay, countDown_of_nonneg hdelay, countDown_of_nonneg hsound]
  rfl

theorem awaits_later {m : Machine w h} (hm : m.Awaits) (ticks : Nat) (keys : Keypad) :
    (m.later ticks keys).Awaits :=
  ⟨hm.memory_size, hm.registers_size, hm.counter_nonneg, hm.within, hm.word⟩

theorem current_of_awaits {m : Machine w h} (hm : m.Awaits) : m.current = .awaitKey m.word.x := by
  have hform := hm.word
  simp only [Opcode.has_cons, Opcode.not_has_nil, or_false] at hform
  exact (Instruction.ofOpcode_eq_iff rfl).mpr (Instruction.toNat_eq_wordXB hform.1 hform.2)

end Machine

namespace Console

variable {w h : Nat} {c : Console w h}

theorem step_of_awaits (hm : c.machine.Awaits) :
    c.step = (c.machine.advance.perform c.tall c.noise.next (.awaitKey c.machine.word.x)).map
      fun m => { c with machine := m } := by
  have hi : Instruction.ofOpcode c.machine.word = .awaitKey c.machine.word.x :=
    Machine.current_of_awaits hm
  simp only [step, Machine.fetch_eq hm.memory_size hm.counter_nonneg hm.within, execute,
    Machine.execute, hi]
  rfl

theorem step_of_unlatched (hm : c.machine.Awaits) (hkeys : ∀ k, c.machine.keys.latched k = false) :
    c.step = .done c := by
  have hnone : c.machine.advance.keys.first? = none := (Keypad.first?_eq_none_iff _).mpr hkeys
  have hback : c.machine.advance.counter - 2 = c.machine.counter := by
    rw [Machine.advance_eq hm.counter_nonneg hm.within]
    exact Int.add_sub_cancel _ 2
  rw [step_of_awaits hm, Machine.perform, hnone]
  simp only [hback, Outcome.map]
  rfl

/-- A step that finds a key latched puts the least one into the register of its word and goes on. -/
theorem step_of_latched (hm : c.machine.Awaits) {k : Key} (hk : c.machine.keys.latched k = true)
    (hleast : ∀ j, j < k → c.machine.keys.latched j = false) :
    c.step = .done { c with
      machine := { c.machine.setRegister c.machine.word.x (.ofNat k) with
        counter := c.machine.counter + 2 } } := by
  have hfirst : c.machine.advance.keys.first? = some k :=
    (Keypad.first?_eq_some_iff _ _).mpr ⟨hk, hleast⟩
  have hregisters : c.machine.advance.registers.size = registerCount := hm.registers_size
  rw [step_of_awaits hm, Machine.perform, hfirst]
  simp only [Machine.need_of_size hregisters]
  rw [Machine.advance_eq hm.counter_nonneg hm.within]
  rfl

theorem move_of_undisturbed (hm : c.machine.Awaits) (hdelay : 0 ≤ c.machine.delay)
    (hsound : 0 ≤ c.machine.sound) {a : Move}
    (hquiet : a = .step → ∀ k, c.machine.keys.latched k = false) :
    (c.move a).state =
      c.mapMachine (·.later (if a = .decay then 1 else 0) (c.machine.keys.moved a)) := by
  have hzero (keys : Keypad) := Machine.later_zero hdelay hsound keys
  cases a with
  | step =>
    show c.step.state = c.mapMachine (·.later 0 c.machine.keys)
    rw [step_of_unlatched hm (hquiet rfl), mapMachine, hzero, Outcome.state_done]
  | decay =>
    show c.mapMachine Machine.decay = c.mapMachine (·.later 1 c.machine.keys)
    rw [mapMachine, mapMachine, Machine.decay_eq_later hdelay hsound]
  | press k held =>
    show (c.onMachine (·.press k held)).state = c.mapMachine (·.later 0 _)
    rw [mapMachine, hzero, onMachine, Outcome.state_map, Machine.press, Keypad.moved]
    cases Key.ofInt k <;> rfl

/-- While nothing disturbs the wait, only the timers and the keypad change. -/
theorem play_of_undisturbed (hm : c.machine.Awaits) (hdelay : 0 ≤ c.machine.delay)
    (hsound : 0 ≤ c.machine.sound) {moves : List Move}
    (hquiet : c.machine.keys.Undisturbed moves) :
    c.play moves =
      c.mapMachine (·.later (moves.count .decay) (moves.foldl Keypad.moved c.machine.keys)) := by
  induction moves generalizing c with
  | nil =>
    show c = c.mapMachine (·.later 0 c.machine.keys)
    rw [mapMachine, Machine.later_zero hdelay hsound]
  | cons a moves ih =>
    obtain ⟨hfirst, hrest⟩ := (Keypad.undisturbed_cons_iff _ a moves).mp hquiet
    have hcount : (a :: moves).count .decay =
        (if a = .decay then 1 else 0) + moves.count .decay := by
      rw [List.count_cons, Nat.add_comm]
      simp only [beq_iff_eq]
    have hnext := ih (c := c.mapMachine (·.later (if a = .decay then 1 else 0)
      (c.machine.keys.moved a))) (Machine.awaits_later hm _ _) (Int.le_max_left 0 _)
      (Int.le_max_left 0 _) hrest
    rw [play, move_of_undisturbed hm hdelay hsound hfirst, hnext, hcount, List.foldl_cons]
    exact congrArg (fun m => { c with machine := m }) (Machine.later_later _ _ _ _ _)

/-- Nothing but the timers and the keypad changes while a word waits, however many steps are taken,
and each of these steps leaves the console as it was. The first step with a key latched puts the
least latched key into the register of the word, goes on behind the word, and does nothing else. -/
theorem waits_for_key (hm : c.machine.Awaits) (hdelay : 0 ≤ c.machine.delay)
    (hsound : 0 ≤ c.machine.sound) {moves : List Move}
    (hquiet : c.machine.keys.Undisturbed moves) :
    let keys := moves.foldl Keypad.moved c.machine.keys
    c.play moves = { c with machine := { c.machine with
      delay := max 0 (c.machine.delay - moves.count .decay)
      sound := max 0 (c.machine.sound - moves.count .decay)
      keys := keys } } ∧
    ((∀ a ∈ moves, a = .step ∨ a = .decay) → keys = c.machine.keys) ∧
    (∀ earlier later, moves = earlier ++ .step :: later →
      (c.play earlier).step = .done (c.play earlier)) ∧
    ((∃ k, keys.latched k = true) →
      ∃ k, keys.latched k = true ∧ (∀ j, j < k → keys.latched j = false) ∧
        (c.play moves).step = .done { c.play moves with
          machine := { (c.play moves).machine.setRegister c.machine.word.x (.ofNat k) with
            counter := c.machine.counter + 2 } }) := by
  intro keys
  have hplay := play_of_undisturbed hm hdelay hsound hquiet
  refine ⟨hplay, Keypad.foldl_moved_of_no_press _, fun earlier later hmoves => ?_,
    fun hlatched => ?_⟩
  · have hunlatched := hquiet earlier .step later hmoves rfl
    have hearlier := play_of_undisturbed hm hdelay hsound
      (Keypad.undisturbed_of_append (hmoves ▸ hquiet))
    rw [hearlier]
    exact step_of_unlatched (Machine.awaits_later hm _ _) hunlatched
  · cases hfirst : keys.first? with
    | none =>
      obtain ⟨k, hk⟩ := hlatched
      rw [(Keypad.first?_eq_none_iff keys).mp hfirst k] at hk
      contradiction
    | some k =>
      obtain ⟨hk, hleast⟩ := (Keypad.first?_eq_some_iff keys k).mp hfirst
      refine ⟨k, hk, hleast, ?_⟩
      rw [hplay]
      exact step_of_latched (Machine.awaits_later hm _ _) hk hleast

/-- At the end of memory, on a machine without pixels: a step, two ticks, and two keys. -/
theorem waits_for_key_two_keys :
    let c : Console 0 0 :=
      ⟨((Machine.ofWord 0 0 .chip8 0x00 0x00).placed 4094 0xf5 0x0a).withDelay 1, Noise.cycle [0],
        false⟩
    let moves : List Move := [.step, .decay, .step, .decay, .press 7 true, .press 3 true]
    c.machine.Awaits ∧ 0 ≤ c.machine.delay ∧ 0 ≤ c.machine.sound ∧
      c.machine.keys.Undisturbed moves ∧ (c.play moves).machine.counter = 4094 ∧
      (c.play moves).machine.delay = 0 ∧
      ∃ after, (c.play moves).step = .done after ∧ after.machine.register 5 = 3 ∧
        after.machine.counter = 4096 := by
  intro c moves
  have hword : c.machine.word = .ofBytes 0xf5 0x0a :=
    Machine.word_placed (Machine.ofWord 0 0 .chip8 0x00 0x00) 0xf5 0x0a (by simp [Machine.ofWord])
  have hm : c.machine.Awaits :=
    { memory_size := by simp [c, Machine.withDelay, Machine.placed, Machine.ofWord]
      registers_size := rfl
      counter_nonneg := by decide
      within := by decide
      word := by rw [hword]; decide }
  have hquiet : c.machine.keys.Undisturbed moves := by
    simp only [moves, Keypad.undisturbed_cons_iff, reduceCtorEq, Keypad.undisturbed_nil, and_true]
    decide
  obtain ⟨hplay, -, -, hwake⟩ := waits_for_key hm (by decide) (by decide) hquiet
  obtain ⟨k, hk, hleast, hstep⟩ := hwake ⟨3, by decide⟩
  have hthree : ∀ k : Key, (moves.foldl Keypad.moved c.machine.keys).latched k = true →
      (∀ j, j < k → (moves.foldl Keypad.moved c.machine.keys).latched j = false) → k = 3 := by
    decide
  obtain rfl := hthree k hk hleast
  refine ⟨hm, by decide, by decide, hquiet, ?_, ?_, _, hstep, ?_, rfl⟩
  · rw [hplay]
    rfl
  · rw [hplay]
    rfl
  · rw [hplay, hword]
    rfl

end Console

end Chip8
