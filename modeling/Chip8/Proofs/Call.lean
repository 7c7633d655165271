import Chip8.Proofs.Decoding
import Chip8.Proofs.Grounded
import Mathlib.Data.List.Induction

/-!
# Calls and returns

Of all moves only two touch the stack: the step that calls puts the address behind itself on top, and
the step that returns takes the address on top away and goes there. So whatever happens above a
return address, however deep the calls go, it is found again when the stack has come back to it.
-/

namespace Chip8
namespace Console

variable {w h : Nat} {c : Console w h}

def depth (c : Console w h) : Nat := c.machine.stack.length

/-- The step of the console finds a call and has room for its return address. -/
structure Calls (c : Console w h) : Prop where
  within : c.machine.counter + 1 < memorySize
  word : c.machine.word.family = 0x2
  room : c.machine.stack.length < maxStackDepth

structure Returns (c : Console w h) : Prop where
  within : c.machine.counter + 1 < memorySize
  word : c.machine.word.toNat = 0x00ee
  stack : c.machine.stack ≠ []

theorem current_of_calls (hcalls : c.Calls) : c.machine.current = .call c.machine.word.nnn :=
  (Instruction.ofOpcode_eq_iff rfl).mpr (Instruction.toNat_eq_address hcalls.word)

theorem current_of_returns (hreturns : c.Returns) : c.machine.current = .leave :=
  (Instruction.ofOpcode_eq_iff rfl).mpr hreturns.word

theorem calls_of_current (hin : c.machine.counter + 1 < memorySize) {a : Fin 4096}
    (hcurrent : c.machine.current = .call a)
    (hfree : c.machine.advance.obstacle? c.tall c.machine.current = none) : c.Calls := by
  have hcode : c.machine.current.code = c.machine.word.toNat :=
    Instruction.code_ofOpcode c.machine.word
  rw [hcurrent] at hcode hfree
  exact ⟨hin, (Instruction.fields_address hcode.symm).1,
    (Machine.obstacle?_call_eq_none_iff (m := c.machine.advance)).mp hfree⟩

theorem returns_of_current (hin : c.machine.counter + 1 < memorySize)
    (hcurrent : c.machine.current = .leave)
    (hfree : c.machine.advance.obstacle? c.tall c.machine.current = none) : c.Returns := by
  have hcode : c.machine.current.code = c.machine.word.toNat :=
    Instruction.code_ofOpcode c.machine.word
  rw [hcurrent] at hcode hfree
  exact ⟨hin, hcode.symm, (Machine.obstacle?_leave_eq_none_iff (m := c.machine.advance)).mp hfree⟩

theorem step_of_free (hc : c.machine.Grounded) (hin : c.machine.counter + 1 < memorySize)
    (hfree : c.machine.advance.obstacle? c.tall c.machine.current = none) :
    c.step = .done c.next := by
  rcases step_cases hc.toWellFormed hc.counter_nonneg with
    ⟨hout, _⟩ | ⟨_, why, hobs, _⟩ | ⟨_, _, hstep⟩
  · omega
  · rw [hfree] at hobs
    contradiction
  · exact hstep

theorem state_move_step (hstep : c.step = .done c.next) : (c.move .step).state = c.next :=
  congrArg Outcome.state hstep

theorem play_concat_step (earlier : List Move)
    (hstep : (c.play earlier).step = .done (c.play earlier).next) :
    c.play (earlier ++ [.step]) = (c.play earlier).next := by
  rw [play_concat, state_move_step hstep]

theorem step_of_calls (hc : c.machine.Grounded) (hcalls : c.Calls) :
    c.step = .done c.next ∧
      c.next.machine.counter = (c.machine.word.nnn : Nat) ∧
      c.next.machine.stack = (c.machine.counter + 2) :: c.machine.stack := by
  have hcurrent := current_of_calls hcalls
  have hfree : c.machine.advance.obstacle? c.tall c.machine.current = none := by
    rw [hcurrent]
    exact Machine.obstacle?_call_eq_none_iff.mpr hcalls.room
  have hadvance := Machine.advance_eq hc.counter_nonneg hcalls.within
  refine ⟨step_of_free hc hcalls.within hfree, ?_, ?_⟩
  · simp only [next, hcurrent, Machine.result]
  · simp only [next, hcurrent, Machine.result, hadvance]

theorem step_of_returns (hc : c.machine.Grounded) (hreturns : c.Returns) :
    c.step = .done c.next ∧
      c.machine.stack = c.next.machine.counter :: c.next.machine.stack := by
  have hcurrent := current_of_returns hreturns
  have hfree : c.machine.advance.obstacle? c.tall c.machine.current = none := by
    rw [hcurrent]
    exact Machine.obstacle?_leave_eq_none_iff.mpr hreturns.stack
  refine ⟨step_of_free hc hreturns.within hfree, ?_⟩
  have hstack : c.machine.advance.stack = c.machine.stack := rfl
  obtain ⟨a, rest, hcons⟩ := List.exists_cons_of_ne_nil hreturns.stack
  simp only [next, hcurrent, Machine.result, hstack, hcons, List.headD_cons, List.tail_cons]

theorem move_stack (hc : c.machine.Grounded) (a : Move) :
    (c.move a).state.machine.stack = c.machine.stack ∨ a = .step ∧ (c.Calls ∨ c.Returns) := by
  cases a with
  | decay => exact .inl rfl
  | press k held =>
    left
    simp only [move, onMachine, Machine.press, Outcome.state_map]
    cases Key.ofInt k <;> rfl
  | step =>
    show c.step.state.machine.stack = c.machine.stack ∨ _
    rcases step_cases hc.toWellFormed hc.counter_nonneg with
      ⟨_, hstep⟩ | ⟨_, why, _, hstep⟩ | ⟨hin, hfree, hstep⟩
    · exact .inl (by rw [hstep, Outcome.state_failed])
    · exact .inl (by rw [hstep]; rfl)
    · cases hcurrent : c.machine.current with
      | call a => exact .inr ⟨rfl, .inl (calls_of_current hin hcurrent hfree)⟩
      | leave => exact .inr ⟨rfl, .inr (returns_of_current hin hcurrent hfree)⟩
      | _ =>
        left
        rw [hstep, Outcome.state_done, next, hcurrent]
        exact Machine.stack_result c.machine.advance c.tall c.noise.next rfl

/-- A return address that lies on the stack stays there, with all below it, unless it is returned
to. -/
theorem move_above (hc : c.machine.Grounded) {above below : List Int} {r : Int}
    (hstack : c.machine.stack = above ++ r :: below) (a : Move) :
    (∃ above', (c.move a).state.machine.stack = above' ++ r :: below) ∨
      a = .step ∧ c.Returns ∧ (c.move a).state.machine.stack = below ∧
        (c.move a).state.machine.counter = r := by
  rcases move_stack hc a with hsame | ⟨rfl, hcalls | hreturns⟩
  · exact .inl ⟨above, hsame.trans hstack⟩
  · obtain ⟨hstep, _, hpush⟩ := step_of_calls hc hcalls
    refine .inl ⟨(c.machine.counter + 2) :: above, ?_⟩
    rw [state_move_step hstep, hpush, hstack, List.cons_append]
  · obtain ⟨hstep, hpop⟩ := step_of_returns hc hreturns
    rw [hstack] at hpop
    rw [state_move_step hstep]
    cases above with
    | nil =>
      obtain ⟨hr, hbelow⟩ := List.cons.inj hpop
      exact .inr ⟨rfl, hreturns, hbelow.symm, hr.symm⟩
    | cons b above => exact .inl ⟨above, (List.cons.inj hpop).2.symm⟩

theorem play_above (hc : c.machine.Grounded) {below : List Int} {r : Int} {moves : List Move}
    (hstack : ∃ above, c.machine.stack = above ++ r :: below)
    (hdeep : ∀ part, part <+: moves → below.length < (c.play part).machine.stack.length) :
    ∃ above, (c.play moves).machine.stack = above ++ r :: below := by
  induction moves generalizing c with
  | nil => exact hstack
  | cons a moves ih =>
    obtain ⟨above, habove⟩ := hstack
    have hfirst : below.length < (c.move a).state.machine.stack.length :=
      hdeep [a] (List.prefix_cons_inj a |>.mpr (List.nil_prefix))
    refine ih (grounded_move hc a) ?_ fun part hpart =>
      hdeep (a :: part) ((List.prefix_cons_inj a).mpr hpart)
    rcases move_above hc habove a with hstays | ⟨_, _, hgone, _⟩
    · exact hstays
    · rw [hgone] at hfirst
      exact absurd hfirst (Nat.lt_irrefl _)

theorem calls_of_deeper (hc : c.machine.Grounded) {a : Move}
    (hdeep : c.machine.stack.length < (c.move a).state.machine.stack.length) :
    a = .step ∧ c.Calls := by
  rcases move_stack hc a with hsame | ⟨rfl, hcalls | hreturns⟩
  · rw [hsame] at hdeep
    exact absurd hdeep (Nat.lt_irrefl _)
  · exact ⟨rfl, hcalls⟩
  · obtain ⟨hstep, hpop⟩ := step_of_returns hc hreturns
    rw [state_move_step hstep, hpop, List.length_cons] at hdeep
    omega

/-- Where the stack has come back to the depth that it had in front of a call, it is what it was, and
the program goes on behind the call. -/
theorem play_return (hc : c.machine.Grounded) {body : List Move} {last : Move}
    (hdeep : ∀ part, part <+: body →
      c.machine.stack.length < (c.play (.step :: part)).machine.stack.length)
    (hback : (c.play (.step :: body ++ [last])).machine.stack.length = c.machine.stack.length) :
    (c.play (.step :: body ++ [last])).machine.stack = c.machine.stack ∧
      (c.play (.step :: body ++ [last])).machine.counter = c.machine.counter + 2 := by
  have hcalls := (calls_of_deeper hc (hdeep [] List.nil_prefix)).2
  obtain ⟨hstep, _, hpush⟩ := step_of_calls hc hcalls
  have hstate := state_move_step hstep
  have hnext : c.next.machine.Grounded := hstate ▸ grounded_move hc .step
  have hinside : ∀ part, c.play (.step :: part) = c.next.play part := by
    intro part
    rw [play, hstate]
  have hlast : c.play (.step :: body ++ [last]) = ((c.next.play body).move last).state := by
    rw [List.cons_append, hinside, play_concat]
  simp only [hinside] at hdeep
  rw [hlast] at hback ⊢
  obtain ⟨above, habove⟩ := play_above hnext ⟨[], hpush⟩ hdeep
  rcases move_above (grounded_play hnext body) habove last with
    ⟨above', hstays⟩ | ⟨_, _, hstack, hcounter⟩
  · rw [hstays, List.length_append, List.length_cons] at hback
    omega
  · exact ⟨hstack, hcounter⟩

/-- Behind the moves `before`, the step in front of `body` is a call that has not been returned from
since. -/
structure Pending (c : Console w h) (before body : List Move) : Prop where
  calls : (c.play before).Calls
  deeper : ∀ part, part <+: body → (c.play before).depth < (c.play (before ++ .step :: part)).depth

/-- A call is pending for each level of the stack that was not there at first. -/
theorem exists_pending (hc : c.machine.Grounded) (moves : List Move) {k : Nat} (hk : c.depth ≤ k)
    (hdeep : k < (c.play moves).depth) :
    ∃ before body, moves = before ++ .step :: body ∧ c.Pending before body ∧
      (c.play before).depth = k := by
  induction moves using List.reverseRecOn with
  | nil => exact absurd hdeep (Nat.not_lt.mpr hk)
  | append_singleton moves a ih =>
    by_cases hbefore : k < (c.play moves).depth
    · obtain ⟨before, body, rfl, hpending, hlevel⟩ := ih hbefore
      refine ⟨before, body ++ [a], by simp, ⟨hpending.calls, fun part hpart => ?_⟩, hlevel⟩
      rcases List.prefix_concat_iff.mp hpart with rfl | hpart
      · rw [hlevel]
        simpa using hdeep
      · exact hpending.deeper part hpart
    · have hfirst : (c.play moves).depth < ((c.play moves).move a).state.depth := by
        rw [play_concat] at hdeep
        omega
      obtain ⟨rfl, hcalls⟩ := calls_of_deeper (grounded_play hc moves) hfirst
      obtain ⟨hstep, _, hpush⟩ := step_of_calls (grounded_play hc moves) hcalls
      have hone : (c.play (moves ++ [.step])).depth = (c.play moves).depth + 1 := by
        rw [play_concat_step _ hstep]
        exact congrArg List.length hpush
      refine ⟨moves, [], rfl, ⟨hcalls, fun part hpart => ?_⟩, by omega⟩
      rw [List.prefix_nil.mp hpart, hone]
      exact Nat.lt_succ_self _

theorem exists_matching_call (hc : c.machine.Grounded) {earlier : List Move}
    (hreturns : (c.play earlier).Returns) (hdeep : c.depth < (c.play earlier).depth) :
    ∃ before body, earlier = before ++ .step :: body ∧ c.Pending before body ∧
      (c.play (earlier ++ [.step])).machine.stack = (c.play before).machine.stack ∧
      (c.play (earlier ++ [.step])).machine.counter = (c.play before).machine.counter + 2 := by
  obtain ⟨hstep, hpop⟩ := step_of_returns (grounded_play hc earlier) hreturns
  have hone : (c.play earlier).depth = (c.play (earlier ++ [.step])).depth + 1 := by
    rw [play_concat_step _ hstep]
    exact congrArg List.length hpop
  obtain ⟨before, body, rfl, hpending, hlevel⟩ := exists_pending hc earlier
    (k := (c.play (earlier ++ [.step])).depth) (by omega) (by omega)
  have hsplit : c.play (before ++ .step :: body ++ [.step]) =
      (c.play before).play (.step :: body ++ [.step]) := by
    rw [List.append_assoc, play_append]
  refine ⟨before, body, rfl, hpending, ?_⟩
  rw [hsplit] at hlevel ⊢
  refine play_return (grounded_play hc before) (fun part hpart => ?_) hlevel.symm
  rw [← play_append]
  exact hpending.deeper part hpart

/-- Calls and returns match, whatever the program does and however it changes itself. Behind any
moves: a call with room for its return address goes through and puts the address behind itself on
top of the stack; where the stack comes back to the depth in front of a call for the first time, it is
what it was and the program goes on behind the call; a return goes to the address on top and takes it
away, and from a level that was not there at first this is the address behind the pending call; and
no other move changes the stack. -/
theorem returns_match_calls (hc : c.machine.Grounded) (earlier : List Move) :
    let d := c.play earlier
    (d.Calls → d.step = .done d.next ∧
      d.next.machine.counter = (d.machine.word.nnn : Nat) ∧
      d.next.machine.stack = (d.machine.counter + 2) :: d.machine.stack) ∧
    (∀ body last,
      (∀ part, part <+: body → d.depth < (d.play (.step :: part)).depth) →
      (d.play (.step :: body ++ [last])).depth = d.depth →
        (d.play (.step :: body ++ [last])).machine.stack = d.machine.stack ∧
        (d.play (.step :: body ++ [last])).machine.counter = d.machine.counter + 2) ∧
    (d.Returns → d.step = .done d.next ∧
      d.machine.stack = d.next.machine.counter :: d.next.machine.stack) ∧
    (d.Returns → c.depth < d.depth →
      ∃ before body, earlier = before ++ .step :: body ∧ c.Pending before body ∧
        (c.play (earlier ++ [.step])).machine.stack = (c.play before).machine.stack ∧
        (c.play (earlier ++ [.step])).machine.counter = (c.play before).machine.counter + 2) ∧
    ∀ a, (d.move a).state.machine.stack = d.machine.stack ∨ a = .step ∧ (d.Calls ∨ d.Returns) := by
  have hd := grounded_play hc earlier
  exact ⟨fun hcalls => step_of_calls hd hcalls,
    fun body last hdeep hback => play_return hd hdeep hback,
    fun hreturns => step_of_returns hd hreturns,
    fun hreturns hdeep => exists_matching_call hc hreturns hdeep,
    fun a => move_stack hd a⟩

def callAndReturn : Console 64 32 :=
  ⟨{ Machine.fresh 64 32 .chip8 with
      memory := (((Bytes.blank memorySize).set 512 0x22).set 513 0x04).set 517 0xee },
    Noise.cycle [0], false⟩

theorem grounded_callAndReturn : callAndReturn.machine.Grounded where
  width_pos := by decide
  height_pos := by decide
  memory_size := by simp [callAndReturn]
  registers_size := by simp [callAndReturn, Machine.fresh, Machine.loadDigits]
  index_nonneg := Int.le_refl 0
  counter_nonneg := Int.natCast_nonneg 512
  stack_nonneg := by simp [callAndReturn, Machine.fresh, Machine.loadDigits]

theorem get_callAndReturn {k : Nat} (hk : k < memorySize) :
    callAndReturn.machine.memory.get k =
      if k = 517 then 0xee else if k = 513 then 0x04 else if k = 512 then 0x22 else 0 := by
  have hmemory : callAndReturn.machine.memory =
      (((Bytes.blank memorySize).set 512 0x22).set 513 0x04).set 517 0xee := rfl
  simp only [hmemory, Bytes.get_set, Bytes.size_set, Bytes.size_blank, Bytes.get_blank, hk,
    and_true, eq_comm]

theorem word_callAndReturn : callAndReturn.machine.word = .ofBytes 0x22 0x04 := by
  show Opcode.ofBytes (callAndReturn.machine.memory.get 512)
    (callAndReturn.machine.memory.get 513) = _
  rw [get_callAndReturn (by decide), get_callAndReturn (by decide)]
  rfl

theorem calls_callAndReturn : callAndReturn.Calls :=
  ⟨by decide, by rw [word_callAndReturn]; rfl, by decide⟩

theorem next_callAndReturn :
    callAndReturn.next.machine.memory = callAndReturn.machine.memory ∧
      callAndReturn.next.machine.counter = 516 ∧ callAndReturn.next.machine.stack = [514] := by
  have hcurrent := current_of_calls calls_callAndReturn
  rw [word_callAndReturn] at hcurrent
  simp only [next, hcurrent, Machine.result]
  exact ⟨rfl, rfl, rfl⟩

theorem returns_callAndReturn : callAndReturn.next.Returns := by
  obtain ⟨hmemory, hcounter, hstack⟩ := next_callAndReturn
  have hword : callAndReturn.next.machine.word = .ofBytes 0x00 0xee := by
    rw [Machine.word, hmemory, hcounter, get_callAndReturn (by decide),
      get_callAndReturn (by decide)]
    rfl
  refine ⟨by rw [hcounter]; decide, by rw [hword]; rfl, by rw [hstack]; decide⟩

/-- The routine is left for the word behind its call. -/
theorem returns_match_calls_at_once :
    callAndReturn.machine.Grounded ∧ callAndReturn.Calls ∧
      (callAndReturn.play [.step]).Returns ∧
      (callAndReturn.play [.step, .step]).machine.stack = [] ∧
      (callAndReturn.play [.step, .step]).machine.counter = 514 := by
  have hc := grounded_callAndReturn
  obtain ⟨hstep, _⟩ := (returns_match_calls hc []).1 calls_callAndReturn
  have hinside : callAndReturn.play [.step] = callAndReturn.next :=
    play_concat_step [] hstep
  have hreturns : (callAndReturn.play [.step]).Returns := hinside ▸ returns_callAndReturn
  obtain ⟨hpop, htop⟩ := (returns_match_calls hc [.step]).2.2.1 hreturns
  have hafter : callAndReturn.play [.step, .step] = (callAndReturn.play [.step]).next :=
    play_concat_step [.step] hpop
  rw [← hafter, hinside, next_callAndReturn.2.2] at htop
  obtain ⟨hcounter, hstack⟩ := List.cons.inj htop
  have hdeep : ∀ part, part <+: ([] : List Move) →
      callAndReturn.depth < (callAndReturn.play (.step :: part)).depth := by
    intro part hpart
    rw [List.prefix_nil.mp hpart, hinside, depth, depth, next_callAndReturn.2.2]
    exact Nat.zero_lt_one
  have hback : (callAndReturn.play [.step, .step]).depth = callAndReturn.depth :=
    congrArg List.length hstack.symm
  obtain ⟨hsame, hbehind⟩ := (returns_match_calls hc []).2.1 [] .step hdeep hback
  have hnil : callAndReturn.play [] = callAndReturn := rfl
  have hempty : callAndReturn.machine.stack = [] := rfl
  have hcall : callAndReturn.machine.counter + 2 = 514 := rfl
  rw [List.cons_append, List.nil_append, hnil, hempty] at hsame
  rw [List.cons_append, List.nil_append, hnil, hcall] at hbehind
  exact ⟨hc, calls_callAndReturn, hreturns, hsame, hbehind⟩

end Console
end Chip8
