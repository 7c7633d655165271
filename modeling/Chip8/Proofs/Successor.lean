import Chip8.Proofs.Writing

/-!
# Where a program goes on

The word under the program counter alone tells where a program goes on behind it, with what its
form reads from the machine. Most words let it go on at the next one. The tests come in pairs: what
the one of a pair skips the other does not.
-/

namespace Chip8

/-- Two words of a pair of tests, on the same operands. -/
inductive Opcode.Opposes (c d : Opcode) : Prop
  | byte (hc : c.Has [.family 0x3]) (hd : d.Has [.family 0x4]) (hx : c.x = d.x) (hnn : c.nn = d.nn)
  | register (hc : c.Has [.lastDigit 0x5 0x0]) (hd : d.Has [.lastDigit 0x9 0x0]) (hx : c.x = d.x)
      (hy : c.y = d.y)
  | key (hc : c.Has [.lastByte 0xe 0x9e]) (hd : d.Has [.lastByte 0xe 0xa1]) (hx : c.x = d.x)

def Form.tests : List Form :=
  [.family 0x3, .family 0x4, .lastDigit 0x5 0x0, .lastDigit 0x9 0x0, .lastByte 0xe 0x9e,
   .lastByte 0xe 0xa1]

namespace Machine

variable {w h : Nat}

def namedKey (m : Machine w h) (x : Register) : Key :=
  ⟨(m.register x).toNat % 16, Nat.mod_lt _ (by decide)⟩

/-- A word is a test, and what it asks is so. -/
def Skips (m : Machine w h) (c : Opcode) : Prop :=
  c.Has [.family 0x3] ∧ m.register c.x = c.nn ∨
  c.Has [.family 0x4] ∧ m.register c.x ≠ c.nn ∨
  c.Has [.lastDigit 0x5 0x0] ∧ m.register c.x = m.register c.y ∨
  c.Has [.lastDigit 0x9 0x0] ∧ m.register c.x ≠ m.register c.y ∨
  c.Has [.lastByte 0xe 0x9e] ∧ m.keys.latched (m.namedKey c.x) = true ∨
  c.Has [.lastByte 0xe 0xa1] ∧ m.keys.latched (m.namedKey c.x) = false

instance (m : Machine w h) (c : Opcode) : Decidable (m.Skips c) :=
  inferInstanceAs (Decidable (_ ∨ _))

/-- Where the program goes on behind the word under the program counter. There is no place to return
to if the stack is empty. -/
def successor? (m : Machine w h) : Option Int :=
  if m.word.Has [.family 0x1, .family 0x2] then some (m.word.nnn : Nat)
  else if m.word.Has [.family 0xb] then some (m.word.nnn + (m.register 0).toNat : Nat)
  else if m.word.Has [.word 0x00ee] then m.stack.head?
  else if m.word.Has [.lastByte 0xf 0x0a] ∧ ∀ k, m.keys.latched k = false then some m.counter
  else if m.Skips m.word then some (m.counter + 4)
  else some (m.counter + 2)

end Machine

theorem Opcode.has_tests_of_opposes {c d : Opcode} (hopposes : c.Opposes d) :
    c.Has Form.tests ∧ d.Has Form.tests := by
  have htests {word : Opcode} {f : Form} (hform : word.Has [f]) (hmem : f ∈ Form.tests) :
      word.Has Form.tests := by
    obtain ⟨g, hg, hword⟩ := hform
    exact ⟨g, List.mem_singleton.mp hg ▸ hmem, hword⟩
  cases hopposes with
  | byte hc hd | register hc hd | key hc hd =>
    exact ⟨htests hc (by decide), htests hd (by decide)⟩

namespace Instruction

variable {c : Opcode}

theorem exists_condition (hform : c.Has Form.tests) :
    ∃ condition, ofOpcode c = .skip condition := by
  have hnn : c.nn.toNat = c.toNat % 256 := UInt8.toNat_ofNat'
  obtain ⟨f, hmem, hf⟩ := hform
  simp only [Form.tests, List.mem_cons, List.not_mem_nil, or_false] at hmem
  rcases hmem with rfl | rfl | rfl | rfl | rfl | rfl
  · exact ⟨.equal c.x c.nn, (ofOpcode_eq_iff rfl).mpr (toNat_eq_wordXB hf hnn.symm)⟩
  · exact ⟨.different c.x c.nn, (ofOpcode_eq_iff rfl).mpr (toNat_eq_wordXB hf hnn.symm)⟩
  · have hword : c.toNat = wordXY 0x5 c.x c.y 0 := hf.2 ▸ toNat_eq_wordXY hf.1
    exact ⟨.same c.x c.y, (ofOpcode_eq_iff rfl).mpr hword⟩
  · have hword : c.toNat = wordXY 0x9 c.x c.y 0 := hf.2 ▸ toNat_eq_wordXY hf.1
    exact ⟨.distinct c.x c.y, (ofOpcode_eq_iff rfl).mpr hword⟩
  · exact ⟨.pressed c.x, (ofOpcode_eq_iff rfl).mpr (toNat_eq_wordXB hf.1 hf.2)⟩
  · exact ⟨.released c.x, (ofOpcode_eq_iff rfl).mpr (toNat_eq_wordXB hf.1 hf.2)⟩

end Instruction

namespace Machine

variable {w h : Nat}

theorem has_tests_of_skips {m : Machine w h} {c : Opcode} (hskips : m.Skips c) :
    c.Has Form.tests := by
  rcases hskips with ⟨⟨f, hmem, hf⟩, -⟩ | ⟨⟨f, hmem, hf⟩, -⟩ | ⟨⟨f, hmem, hf⟩, -⟩ |
    ⟨⟨f, hmem, hf⟩, -⟩ | ⟨⟨f, hmem, hf⟩, -⟩ | ⟨⟨f, hmem, hf⟩, -⟩ <;>
  · obtain rfl := List.mem_singleton.mp hmem
    exact ⟨_, by decide, hf⟩

theorem skips_iff (m : Machine w h) {c : Opcode} {condition : Condition}
    (hi : Instruction.ofOpcode c = .skip condition) :
    m.Skips c ↔ m.meets condition = true := by
  have hcode := (Instruction.ofOpcode_eq_iff rfl).mp hi
  simp only [Skips, Opcode.has_cons, Opcode.not_has_nil, or_false, Form.Holds]
  cases condition with
  | equal x b | different x b =>
    obtain ⟨hf, rfl, hb⟩ := Instruction.fields_wordXB b.toNat_lt hcode
    have hfamily : c.toNat / 0x1000 = _ := hf
    simp [hfamily, UInt8.toNat_inj.mp hb, meets]
  | same x y | distinct x y =>
    obtain ⟨hf, rfl, rfl, hn⟩ := Instruction.fields_wordXY (n := 0) (by decide) hcode
    have hfamily : c.toNat / 0x1000 = _ := hf
    have hdigit : c.toNat % 0x10 = 0 := hn
    simp [hfamily, hdigit, meets]
  | pressed x | released x =>
    obtain ⟨hf, rfl, hb⟩ := Instruction.fields_wordXB (by decide) hcode
    have hfamily : c.toNat / 0x1000 = _ := hf
    have hbyte : c.toNat % 0x100 = _ := UInt8.toNat_ofNat'.symm.trans hb
    simp [hfamily, hbyte, meets, namedKey, Fin.ofNat]

/-- Of two opposed tests one skips, and the other does not. -/
theorem skips_iff_not_of_opposes (m : Machine w h) {c d : Opcode} (hopposes : c.Opposes d) :
    m.Skips c ↔ ¬m.Skips d := by
  cases hopposes with
  | byte hc hd hx hnn =>
    simp only [Opcode.has_cons, Opcode.not_has_nil, or_false, Form.Holds] at hc hd
    simp [Skips, Form.Holds, hc, hd, hx, hnn]
  | register hc hd hx hy =>
    simp only [Opcode.has_cons, Opcode.not_has_nil, or_false, Form.Holds] at hc hd
    simp [Skips, Form.Holds, hc.1, hc.2, hd.1, hd.2, hx, hy]
  | key hc hd hx =>
    simp only [Opcode.has_cons, Opcode.not_has_nil, or_false, Form.Holds] at hc hd
    simp [Skips, Form.Holds, hc.1, hc.2, hd.1, hd.2, hx]

theorem counter_result_of_plain {m : Machine w h}
    (hplain : ¬m.word.Has [.family 0x1, .family 0x2, .family 0xb, .word 0x00ee])
    (hkey : m.word.Has [.lastByte 0xf 0x0a] → ∃ k, m.keys.latched k = true)
    (hskip : ¬m.Skips m.word) (tall : Bool) (random : UInt8) :
    (m.advance.result tall random m.current).counter = m.advance.counter := by
  have hcode : m.current.code = m.word.toNat := Instruction.code_ofOpcode m.word
  have hhas {f : Form} (hf : m.current.form? = some f) {forms : List Form} (hmem : f ∈ forms) :
      m.word.Has forms := Instruction.has_of_form? hcode hf hmem
  cases hi : m.current with
  | jump a | call a | jumpPlus a | leave =>
    rw [hi] at hhas
    exact absurd (hhas rfl (by decide)) hplain
  | skip condition =>
    have hmeets : ¬m.meets condition = true := mt (m.skips_iff hi).mpr hskip
    exact congrArg counter (if_neg hmeets)
  | awaitKey x =>
    rw [hi] at hhas
    obtain ⟨k, hk⟩ := hkey (hhas rfl (by decide))
    cases hfirst : m.keys.first? with
    | none => simp [(Keypad.first?_eq_none_iff _).mp hfirst k] at hk
    | some k => simp only [result, advance, hfirst, setRegister]
  | _ => exact counter_result m.advance tall random rfl

theorem successor?_eq {m : Machine w h} (hpc : 0 ≤ m.counter) (hin : m.counter + 1 < memorySize)
    (hstack : m.current = .leave → m.stack ≠ []) (tall : Bool) (random : UInt8) :
    m.successor? = some (m.advance.result tall random m.current).counter := by
  have hadvance : m.advance.counter = m.counter + 2 := by rw [advance_eq hpc hin]
  have hcurrent {i : Instruction} (hi : i.isDefined = true) (hword : m.word.toNat = i.code) :
      m.current = i := (Instruction.ofOpcode_eq_iff hi).mpr hword
  by_cases hjump : m.word.Has [.family 0x1, .family 0x2]
  · rw [successor?, if_pos hjump]
    simp only [Opcode.has_cons, Opcode.not_has_nil, or_false] at hjump
    rcases hjump with hform | hform
    · rw [hcurrent (i := .jump m.word.nnn) rfl (Instruction.toNat_eq_address hform)]
      rfl
    · rw [hcurrent (i := .call m.word.nnn) rfl (Instruction.toNat_eq_address hform)]
      rfl
  by_cases hplus : m.word.Has [.family 0xb]
  · rw [successor?, if_neg hjump, if_pos hplus]
    simp only [Opcode.has_cons, Opcode.not_has_nil, or_false] at hplus
    rw [hcurrent (i := .jumpPlus m.word.nnn) rfl (Instruction.toNat_eq_address hplus)]
    rfl
  by_cases hreturn : m.word.Has [.word 0x00ee]
  · rw [successor?, if_neg hjump, if_neg hplus, if_pos hreturn]
    simp only [Opcode.has_cons, Opcode.not_has_nil, or_false] at hreturn
    have hleave := hcurrent (i := .leave) rfl hreturn
    obtain ⟨a, rest, hcons⟩ := List.exists_cons_of_ne_nil (hstack hleave)
    rw [hleave, hcons]
    simp only [result, advance, hcons, List.headD_cons, List.head?_cons]
  by_cases hwait : m.word.Has [.lastByte 0xf 0x0a] ∧ ∀ k, m.keys.latched k = false
  · rw [successor?, if_neg hjump, if_neg hplus, if_neg hreturn, if_pos hwait]
    obtain ⟨hform, hkeys⟩ := hwait
    simp only [Opcode.has_cons, Opcode.not_has_nil, or_false] at hform
    rw [hcurrent (i := .awaitKey m.word.x) rfl (Instruction.toNat_eq_wordXB hform.1 hform.2)]
    have hfirst : m.advance.keys.first? = none := (Keypad.first?_eq_none_iff _).mpr hkeys
    simp only [result, hfirst, hadvance, Option.some.injEq]
    omega
  rw [successor?, if_neg hjump, if_neg hplus, if_neg hreturn, if_neg hwait]
  by_cases hskips : m.Skips m.word
  · rw [if_pos hskips]
    obtain ⟨condition, hi⟩ := Instruction.exists_condition (has_tests_of_skips hskips)
    have hmeets : m.advance.meets condition = true := (m.skips_iff hi).mp hskips
    rw [show m.current = .skip condition from hi]
    simp only [result, if_pos hmeets, hadvance, Option.some.injEq]
    omega
  · rw [if_neg hskips, counter_result_of_plain ?_ ?_ hskips, hadvance]
    · simp only [Opcode.has_cons, Opcode.not_has_nil, or_false, not_or] at hjump hplus hreturn ⊢
      exact ⟨hjump.1, hjump.2, hplus, hreturn⟩
    · intro hform
      simpa using not_and.mp hwait hform

end Machine

namespace Console

variable {w h : Nat} {c : Console w h}

theorem counter_step (hm : c.machine.WellFormed) (hpc : 0 ≤ c.machine.counter)
    (hin : c.machine.counter + 1 < memorySize) (hfault : ∀ f, c.step.failure? ≠ some (.fault f)) :
    c.step.state.machine.counter = c.next.machine.counter ∧
      (c.machine.current = .leave → c.machine.stack ≠ []) := by
  rcases step_cases hm hpc with ⟨hout, _⟩ | ⟨_, why, hobs, hstep⟩ | ⟨_, hfree, hstep⟩
  · omega
  · rcases Machine.faults_of_obstacle hm hpc hin hobs with ⟨f, rfl, -⟩ | ⟨hwide, rfl⟩
    · exact absurd (by rw [hstep, Outcome.failure?_failed]) (hfault f)
    · -- A delay that no byte can hold stops the instruction behind the word.
      have hi : c.machine.current = .readDelay c.machine.word.x :=
        (Instruction.ofOpcode_eq_iff rfl).mpr
          (Instruction.toNat_eq_wordXB hwide.2.1 hwide.2.2.1)
      rw [hstep, next, hi]
      exact ⟨rfl, fun hleave => by contradiction⟩
  · refine ⟨by rw [hstep, Outcome.state_done], fun hleave => ?_⟩
    rw [hleave] at hfree
    exact (Machine.obstacle?_leave_eq_none_iff (m := c.machine.advance)).mp hfree

theorem execute_test (hm : c.machine.WellFormed) {word : Opcode} (htest : word.Has Form.tests) :
    ∃ after, c.execute word = .done after ∧
      after.machine.counter =
        c.machine.advance.counter + if c.machine.Skips word then 2 else 0 := by
  obtain ⟨condition, hi⟩ := Instruction.exists_condition htest
  have hskips := c.machine.skips_iff hi
  have hmeets : c.machine.advance.meets condition = c.machine.meets condition := by
    cases condition <;> rfl
  refine ⟨_, by rw [execute_eq hm word, hi]; rfl, ?_⟩
  simp only [Machine.result, hmeets, hskips]
  split <;> simp

end Console

end Chip8
