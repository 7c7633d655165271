import Chip8.Launch
import Chip8.Proofs.Operation

/-!
# Handling events

The events of a batch never stop a session short, as long as its program fits into memory and no
path with a NUL in it is picked. What they do to the desk and to the mode is told by the events
alone, and by the programs that the picks lead to.
-/

namespace Chip8

/-- The events that tell a session to quit: the one of the window, and the escape key. -/
def Event.quits : Event → Bool
  | .quit => true
  | .key true code _ => code == 27
  | _ => false

/-- The events that ask for another program: the key `L`. -/
def Event.loads : Event → Bool
  | .key true code _ => code == 108
  | _ => false

/-- The events that start the program again: the asterisk. -/
def Event.resets : Event → Bool
  | .key true code modifiers => Keyboard.isAsterisk code modifiers
  | _ => false

namespace Keyboard

theorem hotkey?_eq_quit_iff (code modifiers : Int) :
    hotkey? code modifiers = some .quit ↔ code = 27 := by
  constructor
  · intro h
    by_cases hcode : code = 27
    · exact hcode
    · simp only [hotkey?, if_neg hcode] at h
      repeat' split at h
      all_goals simp at h
  · intro h
    exact if_pos h

theorem hotkey?_eq_load_iff (code modifiers : Int) :
    hotkey? code modifiers = some .load ↔ code = 108 := by
  constructor
  · intro h
    by_cases hcode : code = 108
    · exact hcode
    · simp only [hotkey?, if_neg hcode] at h
      repeat' split at h
      all_goals simp at h
  · rintro rfl
    simp [hotkey?, isAsterisk, padMultiply]

theorem hotkey?_eq_reset_iff (code modifiers : Int) :
    hotkey? code modifiers = some .reset ↔ isAsterisk code modifiers = true := by
  constructor
  · intro h
    by_cases hasterisk : isAsterisk code modifiers = true
    · exact hasterisk
    · simp only [hotkey?, if_neg hasterisk] at h
      repeat' split at h
      all_goals simp at h
  · intro h
    have hcode : code = 42 ∨ code = 1073741909 ∨ code = 56 := by
      simp only [isAsterisk, padMultiply, Bool.or_eq_true, Bool.and_eq_true, beq_iff_eq] at h
      omega
    have hescape : ¬code = 27 := by omega
    have hspace : ¬code = 32 := by omega
    simp only [hotkey?, if_neg hescape, if_neg hspace, if_pos h]

end Keyboard

namespace Desk

/-- No path that may be picked has a NUL in it. -/
def NulFree (d : Desk) : Prop := ∀ text, some text ∈ d.picks → '\x00' ∉ text.toList

def NextNulFree (d : Desk) : Prop :=
  ∀ text, d.picks.head? = some (some text) → '\x00' ∉ text.toList

def skip (d : Desk) (n : Nat) : Desk := { d with picks := d.picks.drop n }

/-- The program that the next pick leads to, if it can be read and fits into memory. -/
def opened? (d : Desk) : Option (Path × List UInt8) :=
  match d.pick? with
  | none => none
  | some p =>
    match d.readProgram p with
    | .ok program => if program.length ≤ programCapacity then some (p, program) else none
    | .error _ => none

theorem skip_skip (d : Desk) (m n : Nat) : (d.skip m).skip n = d.skip (m + n) := by
  simp only [skip, List.drop_drop]

theorem afterPick_eq (d : Desk) : d.afterPick = d.skip 1 := by
  simp only [afterPick, skip, List.drop_one]

theorem nulFree_skip {d : Desk} (hd : d.NulFree) (n : Nat) : (d.skip n).NulFree :=
  fun text htext => hd text (List.mem_of_mem_drop htext)

theorem NulFree.next {d : Desk} (hd : d.NulFree) : d.NextNulFree :=
  fun text htext => hd text (List.mem_of_mem_head? htext)

theorem readProgram_ofString (d : Desk) {text : String} (hnul : '\x00' ∉ text.toList) :
    d.readProgram (.ofString text) =
      (d.read (.ofString text)).mapError (.programUnreadable (Path.ofString text).toString) := by
  have hno : ¬(Path.ofString text).toString.contains '\x00' := by
    rw [String.contains_char_eq, decide_eq_true_eq]
    intro hmem
    rcases Path.mem_toString_ofString hmem with htext | hslash | hdot
    · exact hnul htext
    · contradiction
    · contradiction
  exact if_neg hno

theorem readProgram_of_next {d : Desk} (hd : d.NextNulFree) {p : Path} (hp : d.pick? = some p) :
    d.readProgram p = (d.read p).mapError (.programUnreadable p.toString) := by
  unfold pick? at hp
  cases hpicks : d.picks with
  | nil => simp [hpicks] at hp
  | cons answer picks =>
    cases answer with
    | none => simp [hpicks] at hp
    | some text =>
      have hnul : '\x00' ∉ text.toList := hd text (hpicks ▸ List.head?_cons)
      simp only [hpicks, List.head?_cons, Option.join_some] at hp
      split at hp
      · contradiction
      · obtain rfl := Option.some.inj hp
        exact d.readProgram_ofString hnul

theorem readProgram_of_pick {d : Desk} (hd : d.NulFree) {p : Path} (hp : d.pick? = some p) :
    d.readProgram p = (d.read p).mapError (.programUnreadable p.toString) :=
  readProgram_of_next hd.next hp

theorem opened?_eq_some_iff {d : Desk} {p : Path} {program : List UInt8} :
    d.opened? = some (p, program) ↔
      d.pick? = some p ∧ d.readProgram p = .ok program ∧ program.length ≤ programCapacity := by
  unfold opened?
  cases hpick : d.pick? with
  | none => simp
  | some q =>
    cases hread : d.readProgram q with
    | error why =>
      constructor
      · intro h
        simp only [hread] at h
        contradiction
      · rintro ⟨hq, hok, _⟩
        rw [← Option.some.inj hq, hread] at hok
        contradiction
    | ok bytes =>
      simp only [hread]
      constructor
      · intro h
        by_cases hfits : bytes.length ≤ programCapacity
        · rw [if_pos hfits] at h
          obtain ⟨rfl, rfl⟩ := Prod.mk.inj (Option.some.inj h)
          exact ⟨rfl, hread, hfits⟩
        · rw [if_neg hfits] at h
          contradiction
      · rintro ⟨hq, hok, hfits⟩
        obtain rfl := Option.some.inj hq
        obtain rfl := Except.ok.inj (hread.symm.trans hok)
        exact if_pos hfits

theorem lt_length_of_unopened {d : Desk} {p : Path} {program : List UInt8}
    (hpick : d.pick? = some p) (hread : d.readProgram p = .ok program)
    (hunopened : d.opened? = none) : programCapacity < program.length := by
  refine Nat.lt_of_not_le fun hfits => ?_
  rw [opened?_eq_some_iff.mpr ⟨hpick, hread, hfits⟩] at hunopened
  contradiction

/-- None of so many next picks leads to a program that can be opened. -/
def OpensNone (d : Desk) (n : Nat) : Prop := ∀ k < n, (d.skip k).opened? = none

theorem opensNone_zero (d : Desk) : d.OpensNone 0 := fun k hk => absurd hk (Nat.not_lt_zero k)

theorem opensNone_one_iff {d : Desk} : d.OpensNone 1 ↔ d.opened? = none := by
  constructor
  · intro h
    exact h 0 Nat.one_pos
  · intro h k hk
    obtain rfl : k = 0 := by omega
    exact h

theorem opensNone_add {d : Desk} {m n : Nat} :
    d.OpensNone (m + n) ↔ d.OpensNone m ∧ (d.skip m).OpensNone n := by
  constructor
  · intro h
    refine ⟨fun k hk => h k (by omega), fun k hk => ?_⟩
    rw [skip_skip]
    exact h (m + k) (by omega)
  · rintro ⟨hfirst, hrest⟩ k hk
    by_cases hkm : k < m
    · exact hfirst k hkm
    · have hk' := hrest (k - m) (by omega)
      rwa [skip_skip, Nat.add_sub_cancel' (Nat.le_of_not_lt hkm)] at hk'

end Desk

theorem Tone.made_of_ofConfig {c : Config} {t : Tone} {effects : List Effect}
    (ht : Tone.ofConfig c = .ok (t, effects)) :
    t.playing = false ∧ effects =
      [.request (.openMixer (some t.sampleRate)), .request (.addSound t.sound t.samples)] := by
  unfold ofConfig at ht
  split at ht
  · unfold make at ht
    split at ht
    · contradiction
    · obtain ⟨rfl, rfl⟩ := Prod.mk.inj (Except.ok.inj ht)
      exact ⟨rfl, rfl⟩
  · contradiction
  · contradiction
  · contradiction

namespace Session

variable {w h : Nat}

/-- A session on which every event can be handled. -/
structure Ready (s : Session w h) : Prop where
  program_fits : s.program.length ≤ programCapacity
  nulFree : s.desk.NulFree

def renewed (s : Session w h) (m : Machine w h) : Session w h :=
  { s with
    console := { s.console with machine := m }
    display := s.display.clear.1
    tone := (s.tone.update false).1 }

theorem outcome_reset {s : Session w h} {m : Machine w h}
    (hreset : s.machine.reset s.program = .done m) : s.reset.outcome = .done (s.renewed m) := by
  simp only [reset, hreset]
  rfl

theorem outcome_changeProgram_of_opened {s : Session w h} {m : Machine w h} {p : Path}
    {program : List UInt8} (hpick : s.desk.pick? = some p)
    (hread : s.desk.readProgram p = .ok program) (hreset : s.machine.reset program = .done m) :
    s.changeProgram.outcome = .done
      { s.renewed m with desk := s.desk.afterPick, program := program, mode := .running } := by
  have hread' : s.desk.afterPick.readProgram p = .ok program := hread
  simp only [machine] at hreset
  simp only [changeProgram, hpick, loadPath, setTone, hread', replaceProgram, machine, hreset]
  rfl

theorem outcome_replaceProgram_of_lt (s : Session w h) (p : Path) {program : List UInt8}
    (hlarge : programCapacity < program.length) :
    (s.replaceProgram p program).outcome = .done s := by
  simp only [replaceProgram, Machine.reset_of_lt s.machine hlarge]
  rfl

theorem outcome_changeProgram_of_unopened {s : Session w h} (hnul : s.desk.NextNulFree)
    (hunopened : s.desk.opened? = none) :
    s.changeProgram.outcome = .done { (s.setTone false).1 with desk := s.desk.afterPick } := by
  cases hpick : s.desk.pick? with
  | none => simp only [changeProgram, hpick]
  | some p =>
    have hfile := Desk.readProgram_of_next hnul hpick
    cases hread : s.desk.read p with
    | error why =>
      have hrefused : s.desk.afterPick.readProgram p =
          .error (.programUnreadable p.toString why) := by
        rw [hread] at hfile
        exact hfile
      simp only [changeProgram, hpick, loadPath, hrefused]
    | ok program =>
      rw [hread] at hfile
      have hlarge := Desk.lt_length_of_unopened hpick hfile hunopened
      have hafter : s.desk.afterPick.readProgram p = .ok program := hfile
      simp only [changeProgram, hpick, loadPath, hafter, outcome_replaceProgram_of_lt _ p hlarge]

/-- What becomes of a session `s` when some events turn it into `t`. So many programs were asked
for, and `quits` tells whether the events themselves leave a request to quit behind; one from before
them lasts where no program was opened. -/
structure Follows (loads : Nat) (quits : Prop) (s t : Session w h) : Prop where
  ready : t.Ready
  desk_eq : t.desk = s.desk.skip loads
  quit_iff : t.mode = .quit ↔ quits ∨ s.mode = .quit ∧ s.desk.OpensNone loads

theorem follows_of_eq {s t : Session w h} (hs : s.Ready) (hdesk : t.desk = s.desk)
    (hprogram : t.program = s.program) (hmode : t.mode = .quit ↔ s.mode = .quit) :
    Follows 0 False s t where
  ready := ⟨hprogram ▸ hs.program_fits, hdesk ▸ hs.nulFree⟩
  desk_eq := hdesk
  quit_iff := by
    rw [hmode]
    simp only [false_or, Desk.opensNone_zero, and_true]

theorem follows_refl {s : Session w h} (hs : s.Ready) : Follows 0 False s s :=
  follows_of_eq hs rfl rfl Iff.rfl

theorem follows_trans {m n : Nat} {p q : Prop} {s t u : Session w h} (hst : Follows m p s t)
    (htu : Follows n q t u) :
    Follows (m + n) (q ∨ p ∧ (s.desk.skip m).OpensNone n) s u where
  ready := htu.ready
  desk_eq := by rw [htu.desk_eq, hst.desk_eq, Desk.skip_skip]
  quit_iff := by
    rw [htu.quit_iff, hst.quit_iff, hst.desk_eq, Desk.opensNone_add, or_and_right, and_assoc,
      or_assoc]

theorem follows_pauseOrResume {s : Session w h} (hs : s.Ready) :
    Follows 0 False s s.pauseOrResume.1 := by
  unfold pauseOrResume
  cases hmode : s.mode with
  | running => exact follows_of_eq hs rfl rfl (by simp [setTone, hmode])
  | paused => exact follows_of_eq hs rfl rfl (by simp [hmode])
  | quit => exact follows_refl hs

theorem follows_reset {s : Session w h} (hs : s.Ready) :
    ∃ t, s.reset.outcome = .done t ∧ Follows 0 False s t := by
  have hreset := Machine.reset_eq s.machine hs.program_fits
  have hfollows (m : Machine w h) : Follows 0 False s (s.renewed m) :=
    follows_of_eq hs rfl rfl Iff.rfl
  exact ⟨_, outcome_reset hreset, hfollows _⟩

theorem follows_changeProgram {s : Session w h} (hs : s.Ready) :
    ∃ t, s.changeProgram.outcome = .done t ∧ Follows 1 False s t := by
  cases hopened : s.desk.opened? with
  | none =>
    refine ⟨_, outcome_changeProgram_of_unopened hs.nulFree.next hopened, ?_, ?_, ?_⟩
    · exact ⟨hs.program_fits, Desk.afterPick_eq s.desk ▸ Desk.nulFree_skip hs.nulFree 1⟩
    · exact Desk.afterPick_eq s.desk
    · simp only [setTone, Desk.opensNone_one_iff, hopened, and_true, false_or]
  | some found =>
    obtain ⟨hpick, hread, hfits⟩ := Desk.opened?_eq_some_iff.mp hopened
    have hreset := Machine.reset_eq s.machine hfits
    refine ⟨_, outcome_changeProgram_of_opened hpick hread hreset, ?_, ?_, ?_⟩
    · exact ⟨hfits, Desk.afterPick_eq s.desk ▸ Desk.nulFree_skip hs.nulFree 1⟩
    · exact Desk.afterPick_eq s.desk
    · simp only [Desk.opensNone_one_iff, hopened, reduceCtorEq, and_false, or_self]

theorem follows_quit {s : Session w h} (hs : s.Ready) :
    Follows 0 True s { s with mode := .quit } where
  ready := ⟨hs.program_fits, hs.nulFree⟩
  desk_eq := rfl
  quit_iff := by simp only [true_or]

theorem follows_hotkey {s : Session w h} (hs : s.Ready) (key : Keyboard.Hotkey) :
    ∃ t, (s.hotkey key).outcome = .done t ∧
      Follows (if key = .load then 1 else 0) (key = .quit) s t := by
  cases key with
  | quit => exact ⟨_, rfl, by simpa using follows_quit hs⟩
  | pause => exact ⟨_, rfl, by simpa using follows_pauseOrResume hs⟩
  | reset => simpa [hotkey] using follows_reset hs
  | load => simpa [hotkey] using follows_changeProgram hs
  | fade faster =>
    have hfollows (delta : Float) : Follows 0 False s (s.adjustRate delta).1 :=
      follows_of_eq hs rfl rfl Iff.rfl
    exact ⟨_, rfl, by simpa using hfollows _⟩
  | volume louder =>
    have hfollows (delta : Int) : Follows 0 False s (s.adjustVolume delta).1 :=
      follows_of_eq hs rfl rfl Iff.rfl
    exact ⟨_, rfl, by simpa using hfollows _⟩

theorem follows_keypad {s : Session w h} (hs : s.Ready) (down : Bool) (code : Int) :
    ∃ t, (s.keypad down code).outcome = .done t ∧ Follows 0 False s t := by
  unfold keypad
  split
  · exact ⟨_, rfl, follows_of_eq hs rfl rfl Iff.rfl⟩
  · exact ⟨_, rfl, follows_refl hs⟩

/-- A key of the keyboard that goes down is at most one hotkey, and then a key of the keypad. -/
theorem follows_keyDown {s : Session w h} (hs : s.Ready) (code modifiers : Int) :
    ∃ t, (s.handle (.key true code modifiers)).outcome = .done t ∧
      Follows (if code = 108 then 1 else 0) (code = 27) s t := by
  cases hkey : Keyboard.hotkey? code modifiers with
  | none =>
    have hload : ¬code = 108 := fun h => by
      simp [(Keyboard.hotkey?_eq_load_iff code modifiers).mpr h] at hkey
    have hquit : ¬code = 27 := fun h => by
      simp [(Keyboard.hotkey?_eq_quit_iff code modifiers).mpr h] at hkey
    obtain ⟨t, ht, hst⟩ := follows_keypad hs true code
    refine ⟨t, ?_, ?_⟩
    · simp only [handle, hkey]
      exact ht
    · simpa [hload, hquit] using hst
  | some key =>
    have hload : code = 108 ↔ key = .load := by
      rw [← Keyboard.hotkey?_eq_load_iff code modifiers, hkey, Option.some.injEq]
    have hquit : code = 27 ↔ key = .quit := by
      rw [← Keyboard.hotkey?_eq_quit_iff code modifiers, hkey, Option.some.injEq]
    obtain ⟨t, ht, hst⟩ := follows_hotkey hs key
    rw [← hquit] at hst
    simp only [← hload] at hst
    by_cases hq : key = .quit
    · refine ⟨t, ?_, hst⟩
      simp only [handle, hkey, hq] at ht ⊢
      exact ht
    · obtain ⟨u, hu, htu⟩ := follows_keypad hst.ready true code
      have hsu := follows_trans hst htu
      refine ⟨u, ?_, ?_⟩
      · simp only [handle, hkey, Act.outcome_andThen, ht]
        exact hu
      · simpa [Desk.opensNone_zero] using hsu

/-- An event is handled to its end. It takes a pick if it asks for a program, and behind it the
session has been told to quit if the event says so, or if it had been and no program was opened. -/
theorem follows_handle {s : Session w h} (hs : s.Ready) (e : Event) :
    ∃ t, (s.handle e).outcome = .done t ∧
      Follows (if e.loads then 1 else 0) (e.quits = true) s t := by
  cases e with
  | quit => exact ⟨_, rfl, by simpa [Event.loads, Event.quits] using follows_quit hs⟩
  | other => exact ⟨_, rfl, by simpa [Event.loads, Event.quits] using follows_refl hs⟩
  | key down code modifiers =>
    cases down with
    | false => simpa [handle, Event.loads, Event.quits] using follows_keypad hs false code
    | true => simpa [Event.loads, Event.quits] using follows_keyDown hs code modifiers

theorem start_eq {c : Config} {program : List UInt8} (hp : program.length ≤ programCapacity)
    {tone : Tone × List Effect} (htone : Tone.ofConfig c = .ok tone)
    {display : Display w h × List Effect} (hdisplay : Display.ofConfig w h c = .ok display)
    (noise : Noise) (desk : Desk) :
    start w h c program noise desk =
      .ok (ofMachine c (Machine.loaded w h c.variant program) noise desk program tone.1 display.1,
        .debug (Trace.loaded program) :: tone.2 ++ display.2) := by
  simp only [start, Machine.create_eq c.variant hp, htone, hdisplay]
  rfl

theorem eq_ofMachine_of_start {c : Config} {program : List UInt8} {noise : Noise} {desk : Desk}
    {s : Session w h} {effects : List Effect}
    (hstart : start w h c program noise desk = .ok (s, effects)) :
    program.length ≤ programCapacity ∧ ∃ tone display, Tone.ofConfig c = .ok tone ∧
      Display.ofConfig w h c = .ok display ∧
      s = ofMachine c (Machine.loaded w h c.variant program) noise desk program tone.1
        display.1 := by
  by_cases hp : program.length ≤ programCapacity
  · cases htone : Tone.ofConfig c with
    | error why =>
      simp only [start, Machine.create_eq c.variant hp, htone] at hstart
      contradiction
    | ok tone =>
      cases hdisplay : Display.ofConfig w h c with
      | error why =>
        simp only [start, Machine.create_eq c.variant hp, htone, hdisplay] at hstart
        contradiction
      | ok display =>
        rw [start_eq hp htone hdisplay] at hstart
        obtain ⟨rfl, _⟩ := Prod.mk.inj (Except.ok.inj hstart)
        exact ⟨hp, tone, display, rfl, rfl, rfl⟩
  · have hlarge : programCapacity < program.length := Nat.lt_of_not_le hp
    simp only [start, Machine.create, Machine.load, if_pos hlarge] at hstart
    contradiction

theorem playing_of_start {c : Config} {program : List UInt8} {noise : Noise} {desk : Desk}
    {s : Session w h} {effects : List Effect}
    (hstart : start w h c program noise desk = .ok (s, effects)) :
    program.length ≤ programCapacity ∧ s.program = program ∧ s.desk = desk ∧
      s.mode = .running := by
  obtain ⟨hp, _, _, _, _, rfl⟩ := eq_ofMachine_of_start hstart
  exact ⟨hp, rfl, rfl, rfl⟩

theorem silent_of_start {c : Config} {program : List UInt8} {noise : Noise} {desk : Desk}
    {s : Session w h} {effects : List Effect}
    (hstart : start w h c program noise desk = .ok (s, effects)) : s.tone.playing = false := by
  obtain ⟨_, tone, _, htone, _, rfl⟩ := eq_ofMachine_of_start hstart
  exact (Tone.made_of_ofConfig htone).1

theorem ready_of_start {c : Config} {program : List UInt8} {noise : Noise} {desk : Desk}
    {s : Session w h} {effects : List Effect}
    (hstart : start w h c program noise desk = .ok (s, effects)) (hnul : desk.NulFree) :
    s.Ready := by
  obtain ⟨hp, hprogram, hdesk, _⟩ := playing_of_start hstart
  exact ⟨hprogram ▸ hp, hdesk ▸ hnul⟩

end Session
end Chip8
