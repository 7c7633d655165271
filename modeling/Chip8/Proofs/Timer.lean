import Chip8.Proofs.Move
import Chip8.Proofs.Writing

/-!
# The timers and their history

Two things move a timer: a tick, and the one form of words that sets it. So a timer is known from the
history of a program: it stands at what it was last set to, less the ticks that came since, and never
below zero.
-/

namespace Chip8

inductive Timer
  | delay | sound
  deriving DecidableEq

namespace Timer

def form : Timer → Form
  | .delay => .lastByte 0xf 0x15
  | .sound => .lastByte 0xf 0x18

def setter : Timer → Register → Instruction
  | .delay, x => .setDelay x
  | .sound, x => .setSound x

theorem ofOpcode_eq_setter {t : Timer} {word : Opcode} (hform : t.form.Holds word) :
    Instruction.ofOpcode word = t.setter word.x := by
  cases t with
  | delay | sound =>
    exact (Instruction.ofOpcode_eq_iff rfl).mpr (Instruction.toNat_eq_wordXB hform.1 hform.2)

theorem form?_setter (t : Timer) (x : Register) : (t.setter x).form? = some t.form := by
  cases t <;> rfl

theorem ofOpcode_ne_setter {t : Timer} {word : Opcode} (hform : ¬t.form.Holds word)
    (x : Register) : Instruction.ofOpcode word ≠ t.setter x := by
  intro hi
  have hcode := Instruction.code_ofOpcode word
  rw [hi] at hcode
  exact hform (Instruction.holds_of_form? hcode (t.form?_setter x))

end Timer

namespace Machine

variable {w h : Nat}

def timer (m : Machine w h) : Timer → Int
  | .delay => m.delay
  | .sound => m.sound

def setTimer (m : Machine w h) : Timer → Int → Machine w h
  | .delay, v => { m with delay := v }
  | .sound, v => { m with sound := v }

theorem timer_setTimer (m : Machine w h) (t : Timer) (v : Int) (s : Timer) :
    (m.setTimer t v).timer s = if t = s then v else m.timer s := by
  cases t <;> cases s <;> rfl

theorem timer_decay (m : Machine w h) (t : Timer) : m.decay.timer t = countDown (m.timer t) := by
  cases t <;> rfl

theorem result_setter (m : Machine w h) (tall : Bool) (random : UInt8) (t : Timer) (x : Register) :
    m.result tall random (t.setter x) = m.setTimer t (m.register x).toNat := by
  cases t <;> rfl

theorem obstacle?_setter (m : Machine w h) (tall : Bool) (t : Timer) (x : Register) :
    m.obstacle? tall (t.setter x) = none := by
  cases t <;> rfl

theorem timer_result (m : Machine w h) (tall : Bool) (random : UInt8) {t : Timer} {i : Instruction}
    (hi : ∀ x, i ≠ t.setter x) : (m.result tall random i).timer t = m.timer t := by
  cases t with
  | delay =>
    refine delay_result m tall random (Bool.eq_false_iff.mpr fun hsets => ?_)
    cases i with
    | setDelay x => exact hi x rfl
    | _ => contradiction
  | sound =>
    refine sound_result m tall random (Bool.eq_false_iff.mpr fun hsets => ?_)
    cases i with
    | setSound x => exact hi x rfl
    | _ => contradiction

end Machine

namespace Console

variable {w h : Nat} {c : Console w h}

theorem execute_of_form (hm : c.machine.WellFormed) {t : Timer} {word : Opcode}
    (hform : t.form.Holds word) :
    c.execute word = .done { c with
      machine := c.machine.advance.setTimer t (c.machine.register word.x).toNat } := by
  have hnoise : c.noiseAfter (t.setter word.x) = c.noise := by cases t <;> rfl
  rw [execute_eq hm, Timer.ofOpcode_eq_setter hform, Machine.obstacle?_setter,
    Machine.result_setter, hnoise]
  rfl

/-- A word puts a timer to the value of its register if it has the form for it, and else leaves it
alone, whether the word is carried out or not. -/
theorem timer_execute (hm : c.machine.WellFormed) (word : Opcode) (t : Timer) :
    (c.execute word).state.machine.timer t =
      if t.form.Holds word then ((c.machine.register word.x).toNat : Int)
      else c.machine.timer t := by
  by_cases hform : t.form.Holds word
  · rw [if_pos hform, execute_of_form hm hform, Outcome.state_done, Machine.timer_setTimer,
      if_pos rfl]
  · rw [if_neg hform, execute_eq hm]
    have hadvance : c.machine.advance.timer t = c.machine.timer t := by cases t <;> rfl
    cases c.machine.advance.obstacle? c.tall (.ofOpcode word) with
    | some why => exact hadvance
    | none =>
      exact (Machine.timer_result _ _ _ (Timer.ofOpcode_ne_setter hform)).trans hadvance

theorem wellFormed_execute (hm : c.machine.WellFormed) (word : Opcode) :
    (c.execute word).state.machine.WellFormed := by
  have hadvance := Machine.wellFormed_advance hm
  rw [execute_eq hm]
  cases hfree : c.machine.advance.obstacle? c.tall (.ofOpcode word) with
  | some why => exact hadvance
  | none => exact Machine.wellFormed_result hadvance hfree c.noise.next

theorem wellFormed_move (hm : c.machine.WellFormed) (a : Move) :
    (c.move a).state.machine.WellFormed := by
  cases a with
  | step =>
    simp only [move, step]
    split
    · exact wellFormed_execute hm _
    · exact hm
  | decay => exact { hm with }
  | press k held =>
    simp only [move, onMachine, Machine.press, Outcome.state_map]
    cases Key.ofInt k with
    | ok key => exact { hm with }
    | error why => exact hm

theorem wellFormed_play (hm : c.machine.WellFormed) (moves : List Move) :
    (c.play moves).machine.WellFormed :=
  play_of_move (P := fun d => d.machine.WellFormed) (fun _ a hd => wellFormed_move hd a) hm moves

def executed? (c : Console w h) : Move → Option Opcode
  | .step => c.machine.fetch.toOption
  | .decay | .press _ _ => none

/-- A move sets a timer with a word of its form, or else only a tick moves it. -/
theorem timer_move (hm : c.machine.WellFormed) (t : Timer) (a : Move) :
    (∃ word, c.executed? a = some word ∧ t.form.Holds word ∧
        (c.move a).state.machine.timer t = (c.machine.register word.x).toNat) ∨
      (∀ word, c.executed? a = some word → ¬t.form.Holds word) ∧
        (c.move a).state.machine.timer t =
          if a = .decay then Machine.countDown (c.machine.timer t) else c.machine.timer t := by
  cases a with
  | step =>
    cases hfetch : c.machine.fetch with
    | error why =>
      right
      simp [executed?, hfetch, Except.toOption, move, step]
    | ok word =>
      have hexecuted : c.executed? .step = some word := by
        rw [executed?, hfetch]
        rfl
      have hmove : c.move .step = c.execute word := by
        rw [move, step, hfetch]
      have htimer := timer_execute hm word t
      rw [← hmove] at htimer
      by_cases hform : t.form.Holds word
      · rw [if_pos hform] at htimer
        exact .inl ⟨word, hexecuted, hform, htimer⟩
      · rw [if_neg hform] at htimer
        refine .inr ⟨fun word' hword' => ?_, htimer⟩
        obtain rfl := Option.some.inj (hexecuted.symm.trans hword')
        exact hform
  | decay => exact .inr ⟨fun word hword => by contradiction, c.machine.timer_decay t⟩
  | press k held =>
    refine .inr ⟨fun word hword => by contradiction, ?_⟩
    simp only [move, onMachine, Machine.press, Outcome.state_map]
    cases Key.ofInt k <;> cases t <;> rfl

def Unset (c : Console w h) (t : Timer) (moves : List Move) : Prop :=
  ∀ earlier a later, moves = earlier ++ a :: later →
    ∀ word, (c.play earlier).executed? a = some word → ¬t.form.Holds word

/-- In the course of some moves a timer was last set to a number, and so many ticks came since. As
long as no word has set it, the number is the one that it stood at in the beginning. -/
inductive Since (c : Console w h) (t : Timer) : List Move → Int → Nat → Prop
  | start {moves : List Move} (hunset : c.Unset t moves) :
      Since c t moves (c.machine.timer t) (moves.count .decay)
  | set (earlier : List Move) {later : List Move} {a : Move} {word : Opcode}
      (hexecuted : (c.play earlier).executed? a = some word) (hform : t.form.Holds word)
      (hunset : (c.play (earlier ++ [a])).Unset t later) :
      Since c t (earlier ++ a :: later) ((c.play earlier).machine.register word.x).toNat
        (later.count .decay)

theorem unset_nil (c : Console w h) (t : Timer) : c.Unset t [] := forall_split_nil

theorem unset_cons_iff (c : Console w h) (t : Timer) (a : Move) (moves : List Move) :
    c.Unset t (a :: moves) ↔
      (∀ word, c.executed? a = some word → ¬t.form.Holds word) ∧
        (c.move a).state.Unset t moves :=
  forall_split_cons_iff

theorem timer_play_of_unset (hm : c.machine.WellFormed) {t : Timer} (ht : 0 ≤ c.machine.timer t)
    {moves : List Move} (hunset : c.Unset t moves) :
    (c.play moves).machine.timer t = max 0 (c.machine.timer t - moves.count .decay) := by
  induction moves generalizing c with
  | nil =>
    simp only [play, List.count_nil]
    omega
  | cons a moves ih =>
    obtain ⟨hfirst, hrest⟩ := (unset_cons_iff c t a moves).mp hunset
    rcases timer_move hm t a with ⟨word, hword, hform, -⟩ | ⟨-, hmove⟩
    · exact absurd hform (hfirst word hword)
    · rw [Machine.countDown_of_nonneg ht] at hmove
      have hnext : 0 ≤ (c.move a).state.machine.timer t := by
        rw [hmove]
        split <;> omega
      rw [play, ih (wellFormed_move hm a) hnext hrest, hmove, List.count_cons]
      simp only [beq_iff_eq]
      split <;> omega

/-- A timer stands at what it was last set to, less the ticks that came since. -/
theorem timer_play_of_since (hm : c.machine.WellFormed) {t : Timer} (ht : 0 ≤ c.machine.timer t)
    {moves : List Move} {v : Int} {k : Nat} (hsince : c.Since t moves v k) :
    (c.play moves).machine.timer t = max 0 (v - k) := by
  cases hsince with
  | start hunset => exact timer_play_of_unset hm ht hunset
  | @set earlier later a word hexecuted hform hunset =>
    have hbefore := wellFormed_play hm earlier
    have hafter := wellFormed_play hm (earlier ++ [a])
    have hset : (c.play (earlier ++ [a])).machine.timer t =
        ((c.play earlier).machine.register word.x).toNat := by
      rw [play_concat]
      rcases timer_move hbefore t a with ⟨word', hword', -, hmove⟩ | ⟨hnone, -⟩
      · rw [hmove, Option.some.inj (hword'.symm.trans hexecuted)]
      · exact absurd hform (hnone word hexecuted)
    have hplay : c.play (earlier ++ a :: later) = (c.play (earlier ++ [a])).play later := by
      rw [← play_append, List.append_assoc, List.singleton_append]
    rw [hplay, timer_play_of_unset hafter (by omega) hunset, hset]

theorem exists_since (c : Console w h) (t : Timer) (moves : List Move) :
    ∃ v k, c.Since t moves v k := by
  induction moves generalizing c with
  | nil => exact ⟨_, _, .start (unset_nil c t)⟩
  | cons a moves ih =>
    obtain ⟨v, k, hsince⟩ := ih (c.move a).state
    cases hsince with
    | set earlier hexecuted hform hunset =>
      exact ⟨_, _, .set (a :: earlier) hexecuted hform hunset⟩
    | start hunset =>
      by_cases hfirst : ∃ word, c.executed? a = some word ∧ t.form.Holds word
      · obtain ⟨word, hexecuted, hform⟩ := hfirst
        exact ⟨_, _, .set [] hexecuted hform hunset⟩
      · refine ⟨_, _, .start ((unset_cons_iff c t a moves).mpr ⟨fun word hexecuted hform => ?_,
          hunset⟩)⟩
        exact hfirst ⟨word, hexecuted, hform⟩

/-- Only the number that a timer stood at in the beginning can be wider than a byte. -/
theorem unset_of_since_of_wide {t : Timer} {moves : List Move} {v : Int} {k : Nat}
    (hsince : c.Since t moves v k) (hv : 256 ≤ v) :
    c.Unset t moves ∧ v = c.machine.timer t ∧ k = moves.count .decay := by
  cases hsince with
  | start hunset => exact ⟨hunset, rfl, rfl⟩
  | @set earlier later a word =>
    have hbyte := ((c.play earlier).machine.register word.x).toNat_lt
    omega

/-- A word that reads the delay puts it into its register, if a byte can hold it. -/
theorem execute_readDelay (hm : c.machine.WellFormed) {word : Opcode}
    (hform : (Form.lastByte 0xf 0x07).Holds word) (hdelay : 0 ≤ c.machine.delay) :
    (c.machine.delay < 256 ∧ ∃ after, c.execute word = .done after ∧
        ((after.machine.register word.x).toNat : Int) = c.machine.delay) ∨
      256 ≤ c.machine.delay ∧
        c.execute word = .failed .notByte { c with machine := c.machine.advance } := by
  have hi : Instruction.ofOpcode word = .readDelay word.x :=
    (Instruction.ofOpcode_eq_iff rfl).mpr (Instruction.toNat_eq_wordXB hform.1 hform.2)
  have hsize : c.machine.advance.registers.size = registerCount := hm.registers_size
  have hexecute := execute_eq hm word
  rw [hi, Machine.obstacle?] at hexecute
  by_cases hbyte : c.machine.delay < 256
  · left
    rw [if_pos ⟨hdelay, hbyte⟩] at hexecute
    refine ⟨hbyte, _, hexecute, ?_⟩
    show (((c.machine.advance.setRegister word.x (.ofNat c.machine.delay.toNat)).register
      word.x).toNat : Int) = _
    rw [Machine.register_setRegister hsize, if_pos rfl, UInt8.toNat_ofNat']
    omega
  · right
    rw [if_neg (fun hin => hbyte hin.2)] at hexecute
    exact ⟨Int.not_lt.mp hbyte, hexecute⟩

/-- Each timer stands at what a word last set it to, or at what it stood at in the beginning, less
the ticks that came since and not below zero. No other word moves it. A word that reads the delay
finds this number, and behind a tick the tone is to be heard just while the sound has not run
down. -/
theorem timers_follow_history (hm : c.machine.WellFormed) (hstart : ∀ t, 0 ≤ c.machine.timer t)
    (moves : List Move) :
    let now := c.play moves
    (∀ t, ∃ v k, c.Since t moves v k) ∧
    (∀ t v k, c.Since t moves v k → now.machine.timer t = max 0 (v - k)) ∧
    (∀ t word,
      (now.execute word).state.machine.timer t =
        (if t.form.Holds word then ((now.machine.register word.x).toNat : Int)
          else now.machine.timer t) ∧
      (t.form.Holds word → (now.execute word).failure? = none)) ∧
    (∀ v k word, c.Since .delay moves v k → (Form.lastByte 0xf 0x07).Holds word →
      (∃ after, now.execute word = .done after ∧
        ((after.machine.register word.x).toNat : Int) = max 0 (v - k)) ∨
      c.Unset .delay moves ∧ 256 ≤ c.machine.delay - moves.count .decay ∧
        now.execute word = .failed .notByte { now with machine := now.machine.advance }) ∧
    (∀ v k, c.Since .sound moves v k →
      ∃ after, now.move .decay = .done after ∧
        (after.machine.sounding = true ↔ after.machine.sound ≠ 0) ∧
        (after.machine.sounding = true ↔ (k : Int) + 1 < v)) := by
  intro now
  have hnow : now.machine.WellFormed := wellFormed_play hm moves
  have hvalue (t : Timer) {v : Int} {k : Nat} (hsince : c.Since t moves v k) :
      now.machine.timer t = max 0 (v - k) := timer_play_of_since hm (hstart t) hsince
  refine ⟨fun t => c.exists_since t moves, fun t v k => hvalue t, fun t word => ⟨?_, ?_⟩, ?_, ?_⟩
  · exact timer_execute hnow word t
  · intro hform
    rw [execute_of_form hnow hform, Outcome.failure?_done]
  · intro v k word hsince hform
    have hdelay : now.machine.delay = max 0 (v - k) := hvalue .delay hsince
    rcases execute_readDelay hnow hform (by omega) with
      ⟨-, after, hafter, hread⟩ | ⟨hwide, hfailed⟩
    · exact .inl ⟨after, hafter, hread.trans hdelay⟩
    · obtain ⟨hunset, rfl, rfl⟩ := unset_of_since_of_wide hsince (by omega)
      have hbeginning : c.machine.timer .delay = c.machine.delay := rfl
      exact .inr ⟨hunset, by omega, hfailed⟩
  · intro v k hsince
    have hsound : now.machine.sound = max 0 (v - k) := hvalue .sound hsince
    have hiff (m : Machine w h) : m.sounding = true ↔ m.sound ≠ 0 := bne_iff_ne
    refine ⟨_, rfl, hiff _, (hiff _).trans ?_⟩
    show Machine.countDown now.machine.sound ≠ 0 ↔ _
    rw [Machine.countDown_of_nonneg (by omega), hsound]
    omega

/-- A word sets the delay to three, two ticks go by, and the sound runs down to nothing. -/
theorem timers_follow_history_two_ticks :
    let c : Console 64 32 :=
      ⟨((Machine.ofWord 64 32 .superchip 0xf5 0x15).setRegister 5 3).setTimer .sound 2,
        Noise.cycle [0], false⟩
    let moves : List Move := [.step, .decay, .press 7 true, .decay]
    c.machine.WellFormed ∧ (∀ t, 0 ≤ c.machine.timer t) ∧ c.Since .delay moves 3 2 ∧
      c.Since .sound moves 2 2 ∧ (c.play moves).machine.timer .delay = 1 ∧
      (c.play moves).machine.timer .sound = 0 ∧
      ∃ after, (c.play moves).execute ⟨0xf207⟩ = .done after ∧ after.machine.register 2 = 1 := by
  intro c moves
  have hmemory : c.machine.memory.size = memorySize := by
    simp [c, Machine.setTimer, Machine.setRegister, Machine.ofWord]
  have hm : c.machine.WellFormed := ⟨by decide, by decide, hmemory, rfl, by decide⟩
  have hstart : ∀ t, 0 ≤ c.machine.timer t := by
    intro t
    cases t <;> decide
  have hexecuted : c.executed? .step = some ⟨0xf515⟩ := by
    have hfetch := Machine.fetch_eq hmemory (by decide) (by decide)
    have hword : c.machine.word = (Machine.ofWord 64 32 .superchip 0xf5 0x15).word := rfl
    rw [executed?, hfetch, hword, Machine.word_ofWord]
    rfl
  have hdelay : c.Since .delay moves 3 2 :=
    .set [] hexecuted (by decide) (by simp [unset_cons_iff, unset_nil, executed?])
  have hsound : c.Since .sound moves 2 2 :=
    .start ((unset_cons_iff _ _ _ _).mpr ⟨by simp only [hexecuted]; decide,
      by simp [unset_cons_iff, unset_nil, executed?]⟩)
  obtain ⟨-, hvalue, -, hread, -⟩ := timers_follow_history hm hstart moves
  refine ⟨hm, hstart, hdelay, hsound, hvalue _ _ _ hdelay, hvalue _ _ _ hsound, ?_⟩
  rcases hread 3 2 ⟨0xf207⟩ hdelay (by decide) with ⟨after, hafter, hvalue⟩ | ⟨-, hwide, -⟩
  · exact ⟨after, hafter, UInt8.toNat_inj.mp (Int.ofNat.inj hvalue)⟩
  · exact absurd hwide (by decide)

end Console

end Chip8
