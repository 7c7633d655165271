import Chip8.Proofs.Pause
import Mathlib.Data.List.Basic
import Mathlib.Data.List.Induction

/-!
# Latches

No instruction writes a latch, and no tick does. So the latches of a session are told by its events
alone: a key of the keypad is latched when it has gone down and since then has not come up, the
program has not been started again, and no other one has been opened.
-/

namespace Chip8

namespace Keyboard

theorem exists_mem_layout {code : Int} {k : Key} (hkey : keypadKey? code = some k) :
    ∃ c, (c, k) ∈ layout ∧ (c.toNat : Int) = code := by
  obtain ⟨entry, hfound, rfl⟩ := Option.map_eq_some_iff.mp hkey
  exact ⟨entry.1, List.mem_of_find?_eq_some hfound, by simpa using List.find?_some hfound⟩

theorem code_eq_of_keypadKey? {code code' : Int} {k : Key} (hkey : keypadKey? code = some k)
    (hkey' : keypadKey? code' = some k) : code = code' := by
  have hlayout : ∀ entry ∈ layout, ∀ entry' ∈ layout, entry.2 = entry'.2 → entry.1 = entry'.1 := by
    decide
  obtain ⟨c, hmem, rfl⟩ := exists_mem_layout hkey
  obtain ⟨c', hmem', rfl⟩ := exists_mem_layout hkey'
  rw [show c = c' from hlayout _ hmem _ hmem' rfl]

theorem keypadKey?_of_hotkey? {code modifiers : Int} {key : Hotkey}
    (hkey : hotkey? code modifiers = some key) : keypadKey? code = none := by
  cases hpad : keypadKey? code with
  | none => rfl
  | some k =>
    rw [hotkey?_of_keypadKey? hpad] at hkey
    contradiction

end Keyboard

namespace Machine

variable {w h : Nat}

theorem keys_need (m : Machine w h) (rs : List Register) {next : Outcome (Machine w h)}
    (hnext : next.state.keys = m.keys) : (m.need rs next).state.keys = m.keys := by
  unfold need
  split
  · exact hnext
  · rfl

theorem keys_access (m : Machine w h) (i : Instruction) (size : Nat)
    {next : Outcome (Machine w h)} (hnext : next.state.keys = m.keys) :
    (m.access i size next).state.keys = m.keys := by
  unfold access
  split
  · exact hnext
  · rfl

theorem keys_setFlag (m : Machine w h) (flag : UInt8) : (m.setFlag flag).state.keys = m.keys :=
  m.keys_need _ rfl

theorem keys_setWithFlag (m : Machine w h) (r : Register) (b flag : UInt8) :
    (m.setWithFlag r b flag).state.keys = m.keys :=
  (m.setRegister r b).keys_setFlag flag

theorem keys_drawSprite (m : Machine w h) (tall : Bool) (x y : Register) (rows : Fin 16) :
    (m.drawSprite tall x y rows).state.keys = m.keys := by
  have hflag := keys_setFlag ({ m with screen := (m.drawn tall x y rows).1 } : Machine w h)
    (flagOf (m.drawn tall x y rows).2)
  simp only [drawSprite]
  generalize ({ m with screen := (m.drawn tall x y rows).1 } : Machine w h).setFlag
    (flagOf (m.drawn tall x y rows).2) = flagged at hflag ⊢
  cases flagged <;> exact hflag

/-- No instruction writes a latch, on whatever machine and also where it fails. -/
theorem keys_perform (m : Machine w h) (tall : Bool) (random : UInt8) (i : Instruction) :
    (m.perform tall random i).state.keys = m.keys := by
  cases i with
  | clear | jump _ | setIndex _ | ignored _ => rfl
  | leave =>
    simp only [perform]
    split <;> rfl
  | call a =>
    simp only [perform]
    split <;> rfl
  | skip condition =>
    refine m.keys_need _ ?_
    split <;> rfl
  | set _ _ | add _ _ | copy _ _ | jumpPlus _ | random _ _ | setDelay _ | setSound _ | addIndex _
  | pointDigit _ => exact m.keys_need _ rfl
  | logic op x y =>
    refine m.keys_need _ ?_
    split
    · exact keys_setFlag _ 0
    · rfl
  | sum _ _ | subtract _ _ | shift _ _ _ | subtractFrom _ _ =>
    exact m.keys_need _ (m.keys_setWithFlag _ _ _)
  | draw x y rows =>
    refine m.keys_access _ _ (m.keys_need _ ?_)
    split
    · rfl
    · refine m.keys_need _ ?_
      split
      · rfl
      · exact m.keys_drawSprite tall x y rows
  | readDelay x =>
    simp only [perform]
    cases m.registers.store x m.delay <;> rfl
  | awaitKey x =>
    simp only [perform]
    split
    · exact m.keys_need _ rfl
    · rfl
  | storeDecimal x =>
    refine m.keys_access _ _ (m.keys_need _ ?_)
    cases m.memory.storeAll m.index (decimalDigits (m.register x)) <;> rfl
  | dump x | restore x => exact m.keys_access _ _ rfl

end Machine

namespace Console

variable {w h : Nat}

theorem keys_execute (c : Console w h) (word : Opcode) :
    (c.execute word).state.machine.keys = c.machine.keys := by
  simp only [execute, Outcome.state_map]
  exact c.machine.advance.keys_perform c.tall c.noise.next (.ofOpcode word)

theorem keys_step (c : Console w h) : c.step.state.machine.keys = c.machine.keys := by
  unfold step
  split
  · exact c.keys_execute _
  · rfl

end Console

namespace Session

variable {w h : Nat}

theorem keys_tick (s : Session w h) : s.tick.state.machine.keys = s.machine.keys := by
  refine tick_keeps (P := fun t => t.machine.keys = s.machine.keys) (fun t ht => ?_)
    (fun _ ht => ht) (fun t ht => ?_) rfl
  · simp only [instruction, Act.state, Outcome.state_map]
    exact t.console.keys_step.trans ht
  · rw [machine, console_refresh]
    exact ht

theorem keys_of_reset {m m' : Machine w h} {program : List UInt8}
    (hreset : m.reset program = .done m') : m'.keys = .blank := by
  obtain ⟨-, rfl⟩ := Machine.eq_restarted_of_reset hreset
  rfl

theorem desk_hotkey (s : Session w h) (key : Keyboard.Hotkey) :
    (s.hotkey key).state.desk = s.desk.skip (if key = .load then 1 else 0) := by
  cases key with
  | pause =>
    show s.pauseOrResume.1.desk = s.desk
    unfold pauseOrResume
    split <;> rfl
  | reset =>
    show s.reset.state.desk = s.desk
    unfold reset
    split <;> rfl
  | load =>
    show s.changeProgram.state.desk = s.desk.skip 1
    cases hopened : s.desk.opened? with
    | none => rw [state_changeProgram_of_unopened hopened, Desk.afterPick_eq]
    | some found =>
      obtain ⟨hpick, hread, hfound⟩ := Desk.opened?_eq_some_iff.mp hopened
      have hreset := Machine.reset_eq s.machine hfound
      rw [Act.state, outcome_changeProgram_of_opened hpick hread hreset, Outcome.state_done,
        Desk.afterPick_eq]
  | quit | fade _ | volume _ => rfl

/-- A reset and the opening of a program release all keys; every other hotkey leaves them alone. -/
theorem keys_hotkey {s : Session w h} {key : Keyboard.Hotkey}
    (hfits : key = .reset → s.program.length ≤ programCapacity) :
    (s.hotkey key).state.machine.keys =
      if key = .reset ∨ key = .load ∧ s.desk.opened?.isSome then .blank else s.machine.keys := by
  cases key with
  | pause =>
    show s.pauseOrResume.1.machine.keys = s.machine.keys
    unfold pauseOrResume
    split <;> rfl
  | reset =>
    have hreset := Machine.reset_eq s.machine (hfits rfl)
    rw [if_pos (.inl rfl), show (s.hotkey .reset).state = s.reset.outcome.state from rfl,
      outcome_reset hreset]
    exact keys_of_reset hreset
  | load =>
    rw [show (s.hotkey .load).state = s.changeProgram.state from rfl]
    cases hopened : s.desk.opened? with
    | none =>
      rw [state_changeProgram_of_unopened hopened, if_neg (by simp)]
      rfl
    | some found =>
      obtain ⟨hpick, hread, hfound⟩ := Desk.opened?_eq_some_iff.mp hopened
      have hreset := Machine.reset_eq s.machine hfound
      rw [Act.state, outcome_changeProgram_of_opened hpick hread hreset, if_pos (by simp)]
      exact keys_of_reset hreset
  | quit | fade _ | volume _ => rfl

theorem state_handle_of_hotkey (s : Session w h) {code modifiers : Int} {key : Keyboard.Hotkey}
    (hkey : Keyboard.hotkey? code modifiers = some key) :
    (s.handle (.key true code modifiers)).state = (s.hotkey key).state := by
  have hidle (t : Session w h) : t.keypad true code = .idle t := by
    simp only [keypad, Keyboard.keypadKey?_of_hotkey? hkey]
  have handThen (a : Act (Session w h)) : (a.andThen (·.keypad true code)).state = a.state := by
    simp only [Act.state, Act.outcome_andThen, hidle]
    cases a.outcome <;> rfl
  simp only [handle, hkey]
  cases key <;> first | rfl | exact handThen _

end Session

/-- Whether an event releases all keys of a session with such a desk: it starts the program again, or
it opens another one. -/
def Event.Clears (d : Desk) (e : Event) : Prop :=
  e.resets = true ∨ e.loads = true ∧ d.opened?.isSome = true

instance (d : Desk) (e : Event) : Decidable (e.Clears d) := inferInstanceAs (Decidable (_ ∨ _))

namespace Session

variable {w h : Nat}

theorem keys_keypad (s : Session w h) (down : Bool) (code modifiers : Int) :
    (s.keypad down code).state.machine.keys =
      s.machine.keys.follow (.key down code modifiers) := by
  simp only [keypad, Keypad.follow]
  cases Keyboard.keypadKey? code <;> rfl

theorem desk_keypad (s : Session w h) (down : Bool) (code : Int) :
    (s.keypad down code).state.desk = s.desk := by
  unfold keypad
  split <;> rfl

theorem desk_handle (s : Session w h) (e : Event) :
    (s.handle e).state.desk = s.desk.skip (if e.loads then 1 else 0) := by
  cases e with
  | quit | other => rfl
  | key down code modifiers =>
    cases down with
    | false => exact s.desk_keypad false code
    | true =>
      simp only [Event.loads, beq_iff_eq, ← Keyboard.hotkey?_eq_load_iff code modifiers]
      cases hkey : Keyboard.hotkey? code modifiers with
      | none =>
        simp only [handle, hkey]
        exact s.desk_keypad true code
      | some key =>
        rw [state_handle_of_hotkey s hkey, desk_hotkey]
        simp only [Option.some.injEq]

theorem keys_handle {s : Session w h} (hfits : s.program.length ≤ programCapacity) (e : Event) :
    (s.handle e).state.machine.keys =
      if e.Clears s.desk then .blank else s.machine.keys.follow e := by
  cases e with
  | quit | other =>
    rw [if_neg (by simp [Event.Clears, Event.resets, Event.loads])]
    rfl
  | key down code modifiers =>
    cases down with
    | false =>
      rw [if_neg (by simp [Event.Clears, Event.resets, Event.loads])]
      exact s.keys_keypad false code modifiers
    | true =>
      simp only [Event.Clears, Event.resets, Event.loads, beq_iff_eq,
        ← Keyboard.hotkey?_eq_load_iff code modifiers,
        ← Keyboard.hotkey?_eq_reset_iff code modifiers]
      cases hkey : Keyboard.hotkey? code modifiers with
      | none =>
        simp only [handle, hkey]
        simpa using s.keys_keypad true code modifiers
      | some key =>
        rw [state_handle_of_hotkey s hkey, keys_hotkey fun _ => hfits]
        simp only [Option.some.injEq, Keypad.follow, Keyboard.keypadKey?_of_hotkey? hkey]

end Session

namespace Stimulus

def Presses (k : Key) : Stimulus → Prop
  | .event (.key true code _) => Keyboard.keypadKey? code = some k
  | _ => False

def Releases (k : Key) : Stimulus → Prop
  | .event (.key false code _) => Keyboard.keypadKey? code = some k
  | _ => False

/-- Whether all keys are released on such a desk. -/
def Clears (d : Desk) : Stimulus → Prop
  | .event e => e.Clears d
  | .tick => False

def loads : Stimulus → Bool
  | .event e => e.loads
  | .tick => false

theorem not_presses_of_clears {d : Desk} {e : Event} (h : e.Clears d) (k : Key) :
    ¬(Stimulus.event e).Presses k := by
  intro hpress
  cases e with
  | quit | other => exact hpress
  | key down code modifiers =>
    cases down with
    | false => exact hpress
    | true =>
      have hnone := Keyboard.hotkey?_of_keypadKey? hpress modifiers
      rcases h with hreset | ⟨hload, -⟩
      · rw [(Keyboard.hotkey?_eq_reset_iff code modifiers).mpr hreset] at hnone
        contradiction
      · rw [(Keyboard.hotkey?_eq_load_iff code modifiers).mpr (beq_iff_eq.mp hload)] at hnone
        contradiction

theorem latched_follow_iff (p : Keypad) (e : Event) (k : Key) :
    (p.follow e).latched k = true ↔
      (Stimulus.event e).Presses k ∨
        p.latched k = true ∧ ¬(Stimulus.event e).Releases k := by
  cases e with
  | quit | other => simp [Keypad.follow, Presses, Releases]
  | key down code modifiers =>
    cases hcode : Keyboard.keypadKey? code with
    | none => cases down <;> simp [Keypad.follow, Presses, Releases, hcode]
    | some j =>
      by_cases hjk : j = k
      · cases down <;> simp [Keypad.follow, Presses, Releases, hcode, Keypad.latched_latch, hjk]
      · cases down <;> simp [Keypad.follow, Presses, Releases, hcode, Keypad.latched_latch, hjk]

end Stimulus

namespace Desk

def after (d : Desk) (stimuli : List Stimulus) : Desk := d.skip (stimuli.countP Stimulus.loads)

theorem after_append (d : Desk) (first second : List Stimulus) :
    d.after (first ++ second) = (d.after first).after second := by
  simp only [after, skip_skip, List.countP_append]

/-- A key is held after some stimuli: it went down, and since then it has not come up, the program
has not been started again, and no program was opened. -/
def Holds (d : Desk) (k : Key) (stimuli : List Stimulus) : Prop :=
  ∃ earlier press later, stimuli = earlier ++ press :: later ∧ press.Presses k ∧
    ∀ between a rest, later = between ++ a :: rest →
      ¬a.Releases k ∧ ¬a.Clears (d.after (earlier ++ press :: between))

theorem not_holds_nil (d : Desk) (k : Key) : ¬d.Holds k [] := by
  rintro ⟨earlier, press, later, hstimuli, -⟩
  simp at hstimuli

theorem holds_concat_iff (d : Desk) (k : Key) (stimuli : List Stimulus) (a : Stimulus) :
    d.Holds k (stimuli ++ [a]) ↔
      a.Presses k ∨ d.Holds k stimuli ∧ ¬a.Releases k ∧ ¬a.Clears (d.after stimuli) := by
  constructor
  · rintro ⟨earlier, press, later, hstimuli, hpress, hlater⟩
    rcases List.eq_nil_or_concat' later with rfl | ⟨later, b, rfl⟩
    · obtain ⟨-, ha⟩ := List.append_inj' hstimuli rfl
      obtain rfl := List.cons.inj ha |>.1
      exact .inl hpress
    · rw [← List.cons_append, ← List.append_assoc] at hstimuli
      obtain ⟨rfl, ha⟩ := List.append_inj' hstimuli rfl
      obtain rfl := List.cons.inj ha |>.1
      obtain ⟨hreleases, hclears⟩ := hlater later a [] rfl
      refine .inr ⟨⟨earlier, press, later, rfl, hpress, fun between b rest hsplit => ?_⟩,
        hreleases, hclears⟩
      exact hlater between b (rest ++ [a]) (by rw [hsplit]; simp)
  · rintro (hpress | ⟨⟨earlier, press, later, rfl, hpress, hlater⟩, hreleases, hclears⟩)
    · exact ⟨stimuli, a, [], rfl, hpress, fun between b rest hsplit => by simp at hsplit⟩
    · refine ⟨earlier, press, later ++ [a], by simp, hpress, fun between b rest hsplit => ?_⟩
      rcases List.eq_nil_or_concat' rest with rfl | ⟨rest, c, rfl⟩
      · obtain ⟨rfl, hb⟩ := List.append_inj' hsplit rfl
        obtain rfl := List.cons.inj hb |>.1
        exact ⟨hreleases, hclears⟩
      · rw [← List.cons_append, ← List.append_assoc] at hsplit
        obtain ⟨rfl, -⟩ := List.append_inj' hsplit rfl
        exact hlater between b rest rfl

end Desk

namespace Session

variable {w h : Nat}

theorem program_fits_respond {s : Session w h} (hfits : s.program.length ≤ programCapacity)
    (a : Stimulus) : (s.respond a).state.program.length ≤ programCapacity := by
  cases a with
  | event e =>
    refine handle_keeps (P := fun t => t.program.length ≤ programCapacity) (fun t u ht htu => ?_)
      hfits e
    cases htu with
    | replace hreset => exact (Machine.eq_restarted_of_reset hreset).1
    | _ => exact ht
  | tick => rwa [respond, (agrees_tick s).program_eq]

theorem desk_respond (s : Session w h) (a : Stimulus) :
    (s.respond a).state.desk = s.desk.after [a] := by
  cases a with
  | event e =>
    refine (s.desk_handle e).trans ?_
    cases hloads : e.loads <;> simp [Desk.after, Stimulus.loads, hloads]
  | tick => exact (agrees_tick s).desk_eq

theorem desk_course (s : Session w h) (stimuli : List Stimulus) :
    (s.course stimuli).desk = s.desk.after stimuli := by
  induction stimuli generalizing s with
  | nil => rfl
  | cons a stimuli ih =>
    rw [course, ih, desk_respond, ← Desk.after_append, List.singleton_append]

theorem latched_respond_iff {s : Session w h} (hfits : s.program.length ≤ programCapacity)
    (a : Stimulus) (k : Key) :
    (s.respond a).state.machine.keys.latched k = true ↔
      a.Presses k ∨ s.machine.keys.latched k = true ∧ ¬a.Releases k ∧ ¬a.Clears s.desk := by
  cases a with
  | tick => simp [respond, keys_tick, Stimulus.Presses, Stimulus.Releases, Stimulus.Clears]
  | event e =>
    rw [respond, keys_handle hfits]
    by_cases hclears : e.Clears s.desk
    · have hpress := Stimulus.not_presses_of_clears hclears k
      rw [if_pos hclears, Keypad.latched_blank]
      simp [hpress, Stimulus.Clears, hclears]
    · rw [if_neg hclears, Stimulus.latched_follow_iff]
      simp [Stimulus.Clears, hclears]

/-- The latches of a session after a course are those of the keys that its history holds. -/
theorem latched_course_iff {s : Session w h} (hblank : s.machine.keys = .blank)
    (hfits : s.program.length ≤ programCapacity) (stimuli : List Stimulus) (k : Key) :
    (s.course stimuli).machine.keys.latched k = true ↔ s.desk.Holds k stimuli := by
  induction stimuli using List.reverseRecOn with
  | nil =>
    have hoff : (s.course []).machine.keys.latched k = false := by
      rw [course, hblank, Keypad.latched_blank]
    simp [hoff, Desk.not_holds_nil]
  | append_singleton stimuli a ih =>
    have hcourse : (s.course stimuli).program.length ≤ programCapacity :=
      course_keeps (P := fun t => t.program.length ≤ programCapacity)
        (fun _ b _ _ ht => program_fits_respond ht b) hfits
    rw [course_concat, latched_respond_iff hcourse, ih, desk_course, Desk.holds_concat_iff]

theorem latched_of_other_key (s : Session w h) {code code' : Int} {k : Key}
    (hkey : Keyboard.keypadKey? code = some k) (hother : code' ≠ code) {k' : Key}
    (hkey' : Keyboard.keypadKey? code' = some k') (down : Bool) (modifiers : Int) :
    (s.handle (.key down code' modifiers)).state.machine.keys.latched k =
      s.machine.keys.latched k := by
  have hne : k' ≠ k := by
    rintro rfl
    exact hother (Keyboard.code_eq_of_keypadKey? hkey' hkey)
  have hkeypad : (Event.key down code' modifiers).OfKeypad := Option.isSome_of_eq_some hkey'
  rw [Act.state, outcome_handle_of_keypad s hkeypad]
  simp [typed, Keypad.follow, hkey', withMachine, machine, Keypad.latched_latch, hne]

/-- A hotkey touches no latch when it comes up, and none when it goes down unless it starts the
program again or opens another one. -/
theorem keys_of_hotkey (s : Session w h) {code modifiers : Int} {key : Keyboard.Hotkey}
    (hkey : Keyboard.hotkey? code modifiers = some key) :
    (∀ modifiers', (s.handle (.key false code modifiers')).state.machine.keys =
        s.machine.keys) ∧
      (key ≠ .reset → (key = .load → s.desk.opened? = none) →
        (s.handle (.key true code modifiers)).state.machine.keys = s.machine.keys) := by
  refine ⟨fun modifiers' => ?_, fun hreset hload => ?_⟩
  · refine (s.keys_keypad false code modifiers').trans ?_
    simp only [Keypad.follow, Keyboard.keypadKey?_of_hotkey? hkey]
  · rw [state_handle_of_hotkey s hkey, keys_hotkey fun h => absurd h hreset, if_neg]
    rintro (h | ⟨h, hopened⟩)
    · exact hreset h
    · simp [hload h] at hopened

/-- Behind any course of a session that began without a latched key, exactly those keys are latched
that its history holds. One key of the keypad never touches the latch of another, a hotkey touches
latches only by a reset or by opening a program, and no instruction writes a latch, whether or not it
fails. -/
theorem latches_follow_history {s : Session w h} (hblank : ∀ k, s.machine.keys.latched k = false)
    (hfits : s.program.length ≤ programCapacity) (stimuli : List Stimulus) :
    (∀ k, (s.course stimuli).machine.keys.latched k = true ↔ s.desk.Holds k stimuli) ∧
      (∀ (t : Session w h) code code' k k' down modifiers,
        Keyboard.keypadKey? code = some k → Keyboard.keypadKey? code' = some k' → code' ≠ code →
        (t.handle (.key down code' modifiers)).state.machine.keys.latched k =
          t.machine.keys.latched k) ∧
      (∀ (t : Session w h) code modifiers key, Keyboard.hotkey? code modifiers = some key →
        (∀ modifiers', (t.handle (.key false code modifiers')).state.machine.keys =
          t.machine.keys) ∧
        (key ≠ .reset → (key = .load → t.desk.opened? = none) →
          (t.handle (.key true code modifiers)).state.machine.keys = t.machine.keys)) ∧
      (∀ (c : Console w h) word, (c.execute word).state.machine.keys = c.machine.keys) := by
  have hoff : s.machine.keys = .blank := Keypad.ext fun k => by rw [hblank k, Keypad.latched_blank]
  refine ⟨latched_course_iff hoff hfits stimuli, ?_, ?_, Console.keys_execute⟩
  · intro t code code' k k' down modifiers hkey hkey' hother
    exact t.latched_of_other_key hkey hother hkey' down modifiers
  · intro t code modifiers key hkey
    exact t.keys_of_hotkey hkey

/-- The keys `Q` and, behind a reset, `W` go down: only the second one is latched. -/
theorem latches_follow_history_reset :
    ∃ s : Session 64 32, (∀ k, s.machine.keys.latched k = false) ∧
      s.program.length ≤ programCapacity ∧
      (s.course [.event (.key true 113 0), .tick, .event (.key true 42 0),
        .event (.key true 119 0)]).machine.keys.latched 5 = true ∧
      (s.course [.event (.key true 113 0), .tick, .event (.key true 42 0),
        .event (.key true 119 0)]).machine.keys.latched 4 ≠ true := by
  obtain ⟨s, _, _, hstart, _⟩ := start_standstill
  obtain ⟨hp, _, _, _, _, hs⟩ := eq_ofMachine_of_start hstart
  have hblank (k : Key) : s.machine.keys.latched k = false := by
    rw [hs]
    exact Keypad.latched_blank k
  have hfits : s.program.length ≤ programCapacity := by
    rw [hs]
    exact hp
  refine ⟨s, hblank, hfits, ?_, ?_⟩
  · refine ((latches_follow_history hblank hfits _).1 5).mpr ?_
    exact (Desk.holds_concat_iff _ _ [_, _, _] _).mpr (.inl rfl)
  · refine fun hlatched => ?_
    have hheld := ((latches_follow_history hblank hfits _).1 4).mp hlatched
    rcases (Desk.holds_concat_iff _ _ [_, _, _] _).mp hheld with hpress | ⟨hheld, -⟩
    · exact absurd hpress (by simp [Stimulus.Presses]; decide)
    · rcases (Desk.holds_concat_iff _ _ [_, _] _).mp hheld with hpress | ⟨-, -, hclears⟩
      · exact absurd hpress (by simp [Stimulus.Presses]; decide)
      · exact hclears (.inl rfl)

end Session
end Chip8
