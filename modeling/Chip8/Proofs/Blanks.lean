import Chip8.Proofs.Options
import Mathlib.Data.List.TakeWhile

/-!
# Values left blank

A value is left blank in one way only. The separator alone is no value: it ends the switches, and a
switch in front of it that still needs a value is refused. But the separator may be attached to the
name of a switch, and then it is a value that stands for none.
-/

namespace Chip8

/-- Options whose numbers are all within range. A number may be missing if its switch is. -/
structure Config.InRange (missing : CommandLine.Switch → Prop) (c : Config) : Prop
    extends c.Measured missing where
  budget_mem : Given (0 < ·) (missing .speed) c.budget
  volume_mem : 0 ≤ c.volume ∧ c.volume ≤ volumeLimit
  fadeRate_mem : 0.1 ≤ c.fadeRate ∧ c.fadeRate ≤ 1.0

theorem Config.budget_mem_of_speed {c : Config} {missing : Prop} {p : Int → Prop}
    (h : Given p missing c.speed) : Given (0 < ·) missing c.budget := by
  unfold budget
  cases hspeed : c.speed with
  | some speed => exact budgetAt_pos speed
  | none =>
    rw [hspeed] at h
    exact h

namespace CommandLine

/-- Some arguments leave a switch blank: among those in front of the separator there is its name, or
the start of its name, with an equals sign and another separator attached. -/
def LeavesBlank (arguments : List String) (s : Switch) : Prop :=
  ∃ a ∈ arguments.takeWhile (· ≠ "--"), ∃ name start, (name, s) ∈ Switch.names ∧
    Token.isLong start = true ∧ start <+: name.toList ∧ a.toList = start ++ "=--".toList

namespace Token

def attachment : Option String → List Char
  | none => []
  | some value => '=' :: value.toList

/-- What an argument in front of the separator may be told to be. -/
inductive Reads (a : List Char) : Token → Prop
  | word : Reads a (.word (String.ofList a))
  | stray : Reads a (.stray (String.ofList a))
  | named {name : String} {s : Switch} {short : Bool} {attached : Option String}
      (hname : (name, s) ∈ Switch.names) (ha : a = name.toList ++ attachment attached) :
      Reads a (.switch s short attached)
  | shortened {name : String} {s : Switch} {start : List Char} {short : Bool}
      {attached : Option String} (hname : (name, s) ∈ Switch.names) (hlong : isLong start = true)
      (hstart : start <+: name.toList) (ha : a = start ++ attachment attached) :
      Reads a (.switch s short attached)
  | lettered {name : String} {s : Switch} {rest : List Char} (hname : (name, s) ∈ Switch.names)
      (hshort : isLong a = false) (ha : a = name.toList ++ rest) :
      Reads a (.switch s true (some (String.ofList rest)))

theorem eq_append_of_cut (s : List Char) :
    s = (cut s).1 ++ attachment ((cut s).2.map String.ofList) := by
  fun_induction cut s with
  | case1 => rfl
  | case2 rest => simp [attachment]
  | case3 c rest _ name value hcut ih =>
    rw [hcut] at ih
    exact congrArg (c :: ·) ih

theorem isLong_cut {s : List Char} (h : isLong s = true) : isLong (cut s).1 = true := by
  obtain ⟨rest, rfl⟩ := List.isPrefixOf_iff_prefix.mp h
  rfl

theorem mem_names_of_ofName? {name : String} {s : Switch} (h : Switch.ofName? name = some s) :
    (name, s) ∈ Switch.names := by
  obtain ⟨entry, hfind, rfl⟩ := Option.map_eq_some_iff.mp h
  have hname : entry.1 = name := by simpa using List.find?_some hfind
  exact hname ▸ List.mem_of_find?_eq_some hfind

theorem reads_of_mem_readings {s : List Char} {reading : String × Token}
    (h : reading ∈ readings s) : Reads s reading.2 := by
  unfold readings at h
  by_cases hlong : isLong s = true
  · rw [if_pos hlong] at h
    obtain ⟨entry, hentry, rfl⟩ := List.mem_map.mp h
    obtain ⟨hname, hstart⟩ := List.mem_filter.mp hentry
    exact .shortened hname (isLong_cut hlong) (List.isPrefixOf_iff_prefix.mp hstart)
      (eq_append_of_cut s)
  · rw [if_neg hlong] at h
    obtain ⟨entry, hentry, rfl⟩ := List.mem_map.mp h
    obtain ⟨hname, hstart⟩ := List.mem_filter.mp hentry
    refine .lettered hname (Bool.eq_false_iff.mpr hlong) ?_
    rw [eq_of_beq hstart, List.take_append_drop]

theorem reads_of_ofShortened {s : List Char} {t : Token} (h : ofShortened s = .ok t) :
    Reads s t := by
  unfold ofShortened at h
  split at h
  · obtain rfl := Except.ok.inj h
    split
    · exact .word
    · exact .stray
  · rename_i reading hreadings
    obtain rfl := Except.ok.inj h
    exact reads_of_mem_readings (hreadings ▸ List.mem_singleton_self reading)
  · contradiction

theorem reads_of_ofDashed {s : List Char} {t : Token} (h : ofDashed s = .ok t) : Reads s t := by
  unfold ofDashed at h
  split at h
  · rename_i start value hcut
    split at h
    · rename_i found hfound
      obtain rfl := Except.ok.inj h
      have hs := eq_append_of_cut s
      rw [hcut] at hs
      refine .named (mem_names_of_ofName? hfound) ?_
      rw [String.toList_ofList]
      exact hs
    · exact reads_of_ofShortened h
  · exact reads_of_ofShortened h

theorem reads_of_ofString {a : String} {t : Token} (h : ofString a = .ok t) :
    Reads a.toList t := by
  have hword : Reads a.toList (.word a) := by
    have hread := Reads.word (a := a.toList)
    rwa [String.ofList_toList] at hread
  unfold ofString at h
  split at h
  · rename_i rest ha
    split at h
    · rename_i found hfound
      obtain rfl := Except.ok.inj h
      exact .named (mem_names_of_ofName? hfound) (List.append_nil _).symm
    · split at h
      · obtain rfl := Except.ok.inj h
        exact hword
      · rw [ha]
        exact reads_of_ofDashed h
  · obtain rfl := Except.ok.inj h
    exact hword

theorem exists_split_of_ofArguments {arguments : List String} {tokens : List Token}
    (h : ofArguments arguments = .ok tokens) :
    ∃ front back, tokens = front ++ back ∧
      (∀ t ∈ front, ∃ a ∈ arguments.takeWhile (· ≠ "--"), ofString a = .ok t) ∧
      (back = [] ∨ ∃ words : List String, back = .separator :: words.map .word) := by
  induction arguments generalizing tokens with
  | nil =>
    obtain rfl := Except.ok.inj h
    exact ⟨[], [], rfl, nofun, .inl rfl⟩
  | cons a arguments ih =>
    by_cases ha : a = "--"
    · subst ha
      obtain rfl := Except.ok.inj h
      exact ⟨[], _, rfl, nofun, .inr ⟨arguments, rfl⟩⟩
    · rw [ofArguments_cons ha] at h
      cases htoken : ofString a with
      | error why =>
        rw [htoken] at h
        contradiction
      | ok token =>
        cases hrest : ofArguments arguments with
        | error why =>
          rw [htoken, hrest] at h
          contradiction
        | ok tokens' =>
          rw [htoken, hrest] at h
          obtain rfl := Except.ok.inj h
          obtain ⟨front, back, rfl, hfront, hback⟩ := ih hrest
          refine ⟨token :: front, back, rfl, ?_, hback⟩
          rw [List.takeWhile_cons_of_pos (by simpa using ha)]
          intro t ht
          rcases List.mem_cons.mp ht with rfl | ht
          · exact ⟨a, List.mem_cons_self, htoken⟩
          · obtain ⟨b, hb, htold⟩ := hfront t ht
            exact ⟨b, List.mem_cons_of_mem a hb, htold⟩

theorem isLong_of_takesValue {name : String} {s : Switch} (hname : (name, s) ∈ Switch.names)
    (hs : s.takesValue = true) : isLong name.toList = true := by
  have hall : ∀ entry ∈ Switch.names, entry.2.takesValue = true → isLong entry.1.toList = true := by
    decide
  exact hall _ hname hs

theorem eq_of_reads_blank {a : List Char} {s : Switch} {short : Bool}
    (h : Reads a (.switch s short (some "--"))) (hs : s.takesValue = true) :
    ∃ name start, (name, s) ∈ Switch.names ∧ isLong start = true ∧ start <+: name.toList ∧
      a = start ++ "=--".toList := by
  generalize hattached : some "--" = attached at h
  generalize ht : Token.switch s short attached = t at h
  cases h with
  | word | stray => contradiction
  | named hname ha =>
    obtain ⟨rfl, -, rfl⟩ := Token.switch.inj ht
    subst hattached
    exact ⟨_, _, hname, isLong_of_takesValue hname hs, List.prefix_rfl, ha⟩
  | shortened hname hlong hstart ha =>
    obtain ⟨rfl, -, rfl⟩ := Token.switch.inj ht
    subst hattached
    exact ⟨_, _, hname, hlong, hstart, ha⟩
  | @lettered name s' rest hname hshort ha =>
    obtain ⟨rfl, -, -⟩ := Token.switch.inj ht
    obtain ⟨letters, hletters⟩ := List.isPrefixOf_iff_prefix.mp (isLong_of_takesValue hname hs)
    rw [ha, ← hletters] at hshort
    contradiction

theorem eq_of_reads_word {a : List Char} {text : String} (h : Reads a (.word text)) :
    a = text.toList := by
  cases h
  exact String.toList_ofList.symm

end Token

namespace Reading

theorem mem_blank_of_value {r r' : Reading} {s : Switch} {text : String}
    (h : r.value s text = .ok r') {s' : Switch} (hs : s' ∈ r'.blank) :
    s' ∈ r.blank ∨ s' = s ∧ text = "--" := by
  unfold value at h
  split at h
  · rename_i htext
    obtain rfl := Except.ok.inj h
    rcases List.mem_cons.mp hs with rfl | hs
    · exact .inr ⟨rfl, htext⟩
    · exact .inl hs
  · split at h
    · obtain rfl := Except.ok.inj h
      exact .inl (List.mem_filter.mp hs).1
    · contradiction

theorem blank_word (r : Reading) (text : String) : (r.word text).blank = r.blank := by
  unfold word
  split <;> rfl

theorem awaiting_word (r : Reading) (text : String) : (r.word text).awaiting = r.awaiting := by
  unfold word
  split <;> rfl

theorem blank_separator (r : Reading) : r.separator.blank = r.blank := by
  unfold separator
  split <;> rfl

theorem awaiting_separator (r : Reading) : r.separator.awaiting = r.awaiting := by
  unfold separator
  split <;> rfl

theorem blank_flag {r r' : Reading} {s : Switch} {short : Bool} {attached : Option String}
    (h : r.flag s short attached = .ok r') : r'.blank = r.blank := by
  unfold flag at h
  split at h
  · split at h <;> contradiction
  · split at h
    · contradiction
    · obtain rfl := Except.ok.inj h
      rfl

/-- An argument that is not the separator in the place of a value leaves no switch blank, but for
the one to which the separator is attached. -/
theorem mem_blank_of_token {r r' : Reading} {t : Token} (ht : t ≠ .word "--")
    (h : r.token t = .ok r') {s : Switch} (hs : s ∈ r'.blank) :
    s ∈ r.blank ∨ s.takesValue = true ∧ ∃ short, t = .switch s short (some "--") := by
  cases takes_of_token h with
  | awaited _ hvalue =>
    rcases mem_blank_of_value hvalue hs with hs | ⟨-, rfl⟩
    · exact .inl hs
    · contradiction
  | word =>
    rw [blank_word] at hs
    exact .inl hs
  | separator =>
    rw [blank_separator] at hs
    exact .inl hs
  | stray | bare => exact .inl hs
  | attached htakes hvalue =>
    rcases mem_blank_of_value hvalue hs with hs | ⟨rfl, rfl⟩
    · exact .inl hs
    · exact .inr ⟨htakes, _, rfl⟩
  | flag hflag =>
    rw [blank_flag hflag] at hs
    exact .inl hs

theorem mem_blank_of_front {front : List Token} (hfront : .word "--" ∉ front) {r r' : Reading}
    (h : front.foldlM token r = .ok r') {s : Switch} (hs : s ∈ r'.blank) :
    s ∈ r.blank ∨ s.takesValue = true ∧ ∃ short, .switch s short (some "--") ∈ front := by
  induction front generalizing r with
  | nil =>
    obtain rfl := Except.ok.inj h
    exact .inl hs
  | cons t front ih =>
    rw [List.foldlM_cons] at h
    cases htoken : r.token t with
    | error why =>
      rw [htoken] at h
      contradiction
    | ok next =>
      rw [htoken] at h
      rcases ih (List.not_mem_of_not_mem_cons hfront) h with hs | ⟨htakes, short, hmem⟩
      · rcases mem_blank_of_token (fun heq => hfront (heq ▸ List.mem_cons_self)) htoken hs with
          hs | ⟨htakes, short, rfl⟩
        · exact .inl hs
        · exact .inr ⟨htakes, short, List.mem_cons_self⟩
      · exact .inr ⟨htakes, short, List.mem_cons_of_mem t hmem⟩

theorem blank_of_words {words : List String} {r r' : Reading} (hr : r.awaiting = none)
    (h : (words.map Token.word).foldlM token r = .ok r') : r'.blank = r.blank := by
  induction words generalizing r with
  | nil =>
    obtain rfl := Except.ok.inj h
    rfl
  | cons text words ih =>
    have htoken : r.token (.word text) = .ok (r.word text) := by simp only [token, hr]
    rw [List.map_cons, List.foldlM_cons, htoken] at h
    rw [ih ((r.awaiting_word text).trans hr) h, blank_word]

theorem blank_of_back {words : List String} {r r' : Reading}
    (h : (Token.separator :: words.map .word).foldlM token r = .ok r') : r'.blank = r.blank := by
  rw [List.foldlM_cons] at h
  cases htoken : r.token .separator with
  | error why =>
    rw [htoken] at h
    contradiction
  | ok next =>
    rw [htoken] at h
    cases takes_of_token htoken with
    | separator hawaiting =>
      rw [blank_of_words (r.awaiting_separator.trans hawaiting) h, blank_separator]

end Reading

/-- Where the arguments were read to their end, every switch without a value was left blank. -/
theorem leavesBlank_of_mem_blank {arguments : List String} {tokens : List Token} {r : Reading}
    (htokens : Token.ofArguments arguments = .ok tokens) (hscan : scan tokens = .ok r) {s : Switch}
    (hs : s ∈ r.blank) : LeavesBlank arguments s := by
  obtain ⟨front, back, rfl, hfront, hback⟩ := Token.exists_split_of_ofArguments htokens
  have hword : .word "--" ∉ front := by
    intro hmem
    obtain ⟨a, ha, htold⟩ := hfront _ hmem
    have hsame : a = "--" :=
      String.toList_inj.mp (Token.eq_of_reads_word (Token.reads_of_ofString htold))
    have hother := List.mem_takeWhile_imp ha
    simp [hsame] at hother
  rw [scan, List.foldlM_append] at hscan
  cases hread : front.foldlM Reading.token {} with
  | error why =>
    rw [hread] at hscan
    contradiction
  | ok between =>
    rw [hread] at hscan
    have hs' : s ∈ between.blank := by
      rcases hback with rfl | ⟨words, rfl⟩
      · obtain rfl := Except.ok.inj hscan
        exact hs
      · rwa [← Reading.blank_of_back hscan]
    rcases Reading.mem_blank_of_front hword hread hs' with hnone | ⟨htakes, short, hmem⟩
    · contradiction
    · obtain ⟨a, ha, htold⟩ := hfront _ hmem
      exact ⟨a, ha, Token.eq_of_reads_blank (Token.reads_of_ofString htold) htakes⟩

/-- Where arguments are accepted, a number is missing only if it was left blank. -/
theorem inRange_of_parse {arguments : List String} {c : Config} (h : parse arguments = .ok c) :
    c.InRange (LeavesBlank arguments) := by
  obtain ⟨_, r, htokens, hscan, hr, rfl⟩ :=
    exists_reading_of_kept (kept_measured (LeavesBlank arguments)) (Config.measured_default _) h
  have hmeasured := measured_dropValues (fun _ hs => leavesBlank_of_mem_blank htokens hscan hs) hr
  exact {
    toMeasured := { hmeasured with }
    budget_mem := Config.budget_mem_of_speed hmeasured.speed_mem
    volume_mem := clampVolume_mem _
    fadeRate_mem := clampRate_mem _ }

theorem leavesBlank_of_parse {arguments : List String} {b : Blank}
    (h : parse arguments = .error (.blank b)) :
    ∃ s, (s, b) ∈ indispensable ∧ LeavesBlank arguments s := by
  obtain ⟨_, r, htokens, hscan, hoptions⟩ := exists_reading_of_parse h nofun nofun
  unfold Reading.options at hoptions
  split at hoptions
  · rename_i entry hentry
    obtain rfl := Exit.blank.inj (Except.error.inj hoptions)
    refine ⟨entry.1, List.mem_of_find?_eq_some hentry, ?_⟩
    have hblank : entry.1 ∈ r.blank := by simpa using List.find?_some hentry
    exact leavesBlank_of_mem_blank htokens hscan hblank
  · contradiction

end CommandLine
end Chip8
