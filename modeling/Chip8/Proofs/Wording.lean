import Chip8.Proofs.Blanks
import Chip8.Proofs.Numeral
import Chip8.Proofs.Spelling
import Mathlib.Algebra.Group.Int.Defs
import Mathlib.Algebra.Group.Nat.Defs
import Mathlib.Data.List.Perm.Basic

/-!
# Options written as arguments

Options are written as arguments of which each is about a topic of its own: the program, a switch
with its value behind an equals sign, or a switch that takes no value and is there only if it has an
effect. Each argument that is read puts what it tells into the options and leaves the other topics
alone, so the order of the arguments is of no account, and what is read is what was written.
-/

namespace Chip8

open CommandLine

namespace CommandLine.Switch

def name : Switch → String
  | .help => "--help"
  | .variant => "--quirks"
  | .scale => "--scale"
  | .foreground => "--foreground"
  | .background => "--background"
  | .noOutlines => "--no-outlines"
  | .speed => "--ips"
  | .tone => "--tone"
  | .sampleRate => "--sample-rate"
  | .volume => "--volume"
  | .fade => "--lerp"
  | .tall => "--tall-sprites"
  | .debug => "--debug"

theorem ofName?_name (s : Switch) : ofName? s.name = some s := by
  cases s <;> rfl

theorem exists_name_eq (s : Switch) : ∃ letters, s.name.toList = '-' :: '-' :: letters := by
  cases s <;> exact ⟨_, rfl⟩

end CommandLine.Switch

/-- What an argument is about. -/
inductive Topic
  | program
  | switch (s : Switch)
  deriving DecidableEq

def Topic.all : List Topic :=
  .program :: [Switch.variant, .scale, .foreground, .background, .noOutlines, .speed, .tone,
    .sampleRate, .volume, .fade, .tall, .debug].map .switch

/-- The texts that options leave open: a color may be spelled in several ways, and a fade rate is
the nearest double to many fractions. -/
structure Wording where
  foreground : String
  background : String
  rate : String

namespace Config

def value? (c : Config) (w : Wording) : Switch → Option String
  | .variant => some c.variant.name
  | .scale => c.scale.map toString
  | .foreground => c.foreground.map fun _ => w.foreground
  | .background => c.background.map fun _ => w.background
  | .speed => c.speed.map toString
  | .tone => c.frequency.map toString
  | .sampleRate => c.sampleRate.map toString
  | .volume => some (toString c.volume)
  | .fade => some w.rate
  | .help | .noOutlines | .tall | .debug => none

def raises (c : Config) : Switch → Bool
  | .noOutlines => !c.outlines
  | .tall => c.tall
  | .debug => c.debug
  | _ => false

/-- The argument that tells what options say about a topic, if one is needed. -/
def argument? (c : Config) (w : Wording) : Topic → Option String
  | .program => c.program
  | .switch s =>
    match c.value? w s with
    | some text => some (s.name ++ "=" ++ text)
    | none => if c.raises s then some s.name else none

def arguments (c : Config) (w : Wording) : List String := Topic.all.filterMap (c.argument? w)

def topics (c : Config) (w : Wording) : List Topic :=
  Topic.all.filter fun t => (c.argument? w t).isSome

/-- The options `d` with what `c` has to say about a topic put in. -/
def tell (c d : Config) : Topic → Config
  | .program => { d with program := c.program }
  | .switch .variant => { d with variant := c.variant }
  | .switch .scale => { d with scale := c.scale }
  | .switch .foreground => { d with foreground := c.foreground }
  | .switch .background => { d with background := c.background }
  | .switch .noOutlines => { d with outlines := c.outlines }
  | .switch .speed => { d with speed := c.speed }
  | .switch .tone => { d with frequency := c.frequency }
  | .switch .sampleRate => { d with sampleRate := c.sampleRate }
  | .switch .volume => { d with volume := c.volume }
  | .switch .fade => { d with fadeRate := c.fadeRate }
  | .switch .tall => { d with tall := c.tall }
  | .switch .debug => { d with debug := c.debug }
  | .switch .help => d

theorem tell_comm (c d : Config) (t u : Topic) : c.tell (c.tell d t) u = c.tell (c.tell d u) t := by
  cases t with
  | program => cases u with
    | program => rfl
    | switch s => cases s <;> rfl
  | switch s => cases u with
    | program => cases s <;> rfl
    | switch s' => cases s <;> cases s' <;> rfl

end Config

def Numeral.IsReadable (n : Int) : Prop := 0 < n ∧ n < 10 ^ maxDigits

theorem Numeral.lt_of_short {n : Int} (h : n < 10 ^ 9) : n < 10 ^ maxDigits :=
  Int.lt_trans h (Int.pow_lt_pow_of_lt (by decide) (by decide))

/-- A text that is its own path, and does not start like a switch. -/
def Path.IsPlain (text : String) : Prop :=
  (Path.ofString text).toString = text ∧ text.toList.head? ≠ some '-'

def Color.IsSpelledBy (text : String) (n : Int) : Prop :=
  Color.IsPacked n ∧ Color.Spells (Color.rgb n) (Color.alpha n) text

/-- Options that can be written as arguments, in these words. -/
structure Config.Written (c : Config) (w : Wording) : Prop where
  screen : c.OnUsualScreen
  program_mem : Given Path.IsPlain True c.program
  scale_mem : Given Numeral.IsReadable False c.scale
  foreground_mem : Given (Color.IsSpelledBy w.foreground) False c.foreground
  background_mem : Given (Color.IsSpelledBy w.background) False c.background
  speed_mem : Given Numeral.IsReadable False c.speed
  frequency_mem : Given Numeral.IsReadable False c.frequency
  sampleRate_mem : Given Numeral.IsReadable False c.sampleRate
  volume_mem : 0 ≤ c.volume ∧ c.volume ≤ volumeLimit
  fadeRate_mem : 0.1 ≤ c.fadeRate ∧ c.fadeRate ≤ 1.0
  rate_eq : (Numeral.readDecimal w.rate).map Numeral.Decimal.toFloat = some c.fadeRate

/-- Told about every topic that needs an argument, the defaults become the options. -/
theorem Config.foldl_tell {c : Config} {w : Wording} (h : c.Written w) :
    (c.topics w).foldl c.tell {} = c := by
  obtain ⟨hwidth, hheight⟩ := h.screen
  obtain ⟨scale, hscale, -⟩ := h.scale_mem.exists_of_not not_false
  obtain ⟨foreground, hforeground, -⟩ := h.foreground_mem.exists_of_not not_false
  obtain ⟨background, hbackground, -⟩ := h.background_mem.exists_of_not not_false
  obtain ⟨speed, hspeed, -⟩ := h.speed_mem.exists_of_not not_false
  obtain ⟨frequency, hfrequency, -⟩ := h.frequency_mem.exists_of_not not_false
  obtain ⟨sampleRate, hsampleRate, -⟩ := h.sampleRate_mem.exists_of_not not_false
  clear h
  obtain ⟨program, _, _, _, _, _, _, outlines, _, _, _, _, _, tall, debug⟩ := c
  subst hwidth hheight hscale hforeground hbackground hspeed hfrequency hsampleRate
  cases program <;> cases outlines <;> cases tall <;> cases debug <;> rfl

namespace CommandLine

theorem valueFor_eq_ok {read : String → Except ValueError Int} {text : String} {n : Int}
    (h : read text = .ok n) (s : Switch) (needed : String) :
    valueFor s needed read text = .ok n := by
  rw [valueFor, h]

theorem readInteger_toString {n : Int} (hnonneg : 0 ≤ n) (hn : n < 10 ^ Numeral.maxDigits) :
    readInteger (toString n) = .ok n := by
  obtain ⟨k, rfl⟩ := Int.eq_ofNat_of_zero_le hnonneg
  have hk : k < 10 ^ Numeral.maxDigits := by
    rw [← Int.ofNat_lt, Int.natCast_pow]
    exact hn
  have hread : Numeral.readInteger (toString (k : Int)) = .ok k := Numeral.readInteger_toString hk
  rw [readInteger, hread]
  rfl

theorem readPositive_toString {n : Int} (hn : Numeral.IsReadable n) :
    readPositive (toString n) = .ok n := by
  rw [readPositive, readInteger_toString (Int.le_of_lt hn.1) hn.2]
  exact if_pos hn.1

theorem readColor_of_isSpelledBy {text : String} {n : Int} (h : Color.IsSpelledBy text n) :
    readColor text = .ok n := by
  obtain ⟨⟨hnonneg, hle⟩, hspells⟩ := h
  rw [readColor, Color.read?_of_spells hspells]
  exact congrArg Except.ok (Color.pack_rgb hnonneg hle)

section Written

variable {c : Config} {w : Wording} (h : c.Written w)
include h

theorem setValue_of_value? {s : Switch} {text : String} (htext : c.value? w s = some text)
    (d : Config) : setValue d s text = .ok (c.tell d (.switch s)) := by
  have hnumber (s : Switch) {n : Int} (hn : Numeral.IsReadable n) :
      valueFor s "positive_int" readPositive (toString n) = .ok n :=
    valueFor_eq_ok (readPositive_toString hn) s _
  have hcolor (s : Switch) {spelling : String} {n : Int} (hn : Color.IsSpelledBy spelling n) :
      valueFor s "parse_color" readColor spelling = .ok n :=
    valueFor_eq_ok (readColor_of_isSpelledBy hn) s _
  cases s with
  | variant =>
    obtain rfl := Option.some.inj htext
    simp only [setValue, Variant.ofName?_name, Config.tell]
  | scale =>
    obtain ⟨n, hn, rfl, hread⟩ := h.scale_mem.exists_of_map htext
    simp only [setValue, hnumber .scale hread, Config.tell, hn]
    rfl
  | foreground =>
    obtain ⟨n, hn, rfl, hspelled⟩ := h.foreground_mem.exists_of_map htext
    simp only [setValue, hcolor .foreground hspelled, Config.tell, hn]
    rfl
  | background =>
    obtain ⟨n, hn, rfl, hspelled⟩ := h.background_mem.exists_of_map htext
    simp only [setValue, hcolor .background hspelled, Config.tell, hn]
    rfl
  | speed =>
    obtain ⟨n, hn, rfl, hread⟩ := h.speed_mem.exists_of_map htext
    simp only [setValue, hnumber .speed hread, Config.tell, hn]
    rfl
  | tone =>
    obtain ⟨n, hn, rfl, hread⟩ := h.frequency_mem.exists_of_map htext
    simp only [setValue, hnumber .tone hread, Config.tell, hn]
    rfl
  | sampleRate =>
    obtain ⟨n, hn, rfl, hread⟩ := h.sampleRate_mem.exists_of_map htext
    simp only [setValue, hnumber .sampleRate hread, Config.tell, hn]
    rfl
  | volume =>
    obtain rfl := Option.some.inj htext
    obtain ⟨hlow, hhigh⟩ := h.volume_mem
    have hshort : c.volume < 10 ^ 9 := Int.lt_of_le_of_lt hhigh (by decide)
    have hvolume : readInteger (toString c.volume) = .ok c.volume :=
      readInteger_toString hlow (Numeral.lt_of_short hshort)
    simp only [setValue, valueFor_eq_ok hvolume, Config.tell]
    rfl
  | fade =>
    obtain rfl := Option.some.inj htext
    obtain ⟨d', hread, hrate⟩ := Option.map_eq_some_iff.mp h.rate_eq
    simp only [setValue, hread, hrate, Config.tell]
  | help | noOutlines | tall | debug => contradiction

end Written

theorem ne_separator_of_setValue {s : Switch} (hs : s.takesValue = true) {d d' : Config}
    {text : String} (h : setValue d s text = .ok d') : text ≠ "--" := by
  rintro rfl
  cases s <;> contradiction

theorem setFlag_of_raises {c : Config} {s : Switch} (hs : c.raises s = true) (d : Config) :
    setFlag d s = c.tell d (.switch s) := by
  cases s with
  | noOutlines =>
    have houtlines : c.outlines = false := by simpa [Config.raises] using hs
    rw [Config.tell, houtlines, setFlag]
  | tall =>
    have htall : c.tall = true := hs
    rw [Config.tell, htall, setFlag]
  | debug =>
    have hdebug : c.debug = true := hs
    rw [Config.tell, hdebug, setFlag]
  | _ => contradiction

namespace Token

theorem ofString_name (s : Switch) : ofString s.name = .ok (.switch s false none) := by
  obtain ⟨letters, hletters⟩ := s.exists_name_eq
  unfold ofString
  rw [hletters]
  simp only [Switch.ofName?_name]
  rfl

theorem eq_not_mem_name {name : String} {s : Switch} (h : (name, s) ∈ Switch.names) :
    '=' ∉ name.toList := by
  have hall : ∀ entry ∈ Switch.names, '=' ∉ entry.1.toList := by decide
  exact hall _ h

theorem cut_append {name : List Char} (hname : '=' ∉ name) (value : List Char) :
    cut (name ++ '=' :: value) = (name, some value) := by
  induction name with
  | nil => rfl
  | cons x name ih =>
    rw [List.mem_cons, not_or] at hname
    obtain ⟨hx, hrest⟩ := hname
    rw [List.cons_append, cut]
    · rw [ih hrest]
    · rintro rfl
      exact hx rfl

theorem ofString_name_append (s : Switch) (text : String) :
    ofString (s.name ++ "=" ++ text) = .ok (.switch s false (some text)) := by
  obtain ⟨letters, hletters⟩ := s.exists_name_eq
  have hchars : (s.name ++ "=" ++ text).toList = s.name.toList ++ '=' :: text.toList := by
    rw [String.toList_append, String.toList_append, List.append_assoc]
    rfl
  have hnone : Switch.ofName? (s.name ++ "=" ++ text) = none := by
    cases hfound : Switch.ofName? (s.name ++ "=" ++ text) with
    | none => rfl
    | some found =>
      have hnot := eq_not_mem_name (mem_names_of_ofName? hfound)
      rw [hchars] at hnot
      exact absurd (List.mem_append_right _ List.mem_cons_self) hnot
  have hcut : cut (s.name.toList ++ '=' :: text.toList) = (s.name.toList, some text.toList) :=
    cut_append (eq_not_mem_name (mem_names_of_ofName? s.ofName?_name)) text.toList
  have hdashed : ofDashed (s.name.toList ++ '=' :: text.toList) =
      .ok (.switch s false (some text)) := by
    rw [ofDashed, hcut]
    simp only [String.ofList_toList, Switch.ofName?_name]
    rw [hletters]
    rfl
  rw [hletters] at hchars hdashed
  unfold ofString
  rw [hchars]
  simp only [List.cons_append, hnone]
  exact hdashed

theorem ofString_word {text : String} (h : text.toList.head? ≠ some '-') :
    ofString text = .ok (.word text) := by
  unfold ofString
  split
  · rename_i heq
    rw [heq] at h
    contradiction
  · rfl

/-- The separator could be short for every name. -/
theorem ne_separator_of_ofString {text : String} {t : Token} (h : ofString text = .ok t) :
    text ≠ "--" := by
  rintro rfl
  obtain ⟨a, ha⟩ : ∃ a, ofString "--" = .error a := ⟨_, rfl⟩
  rw [ha] at h
  contradiction

end Token

/-- Where a word may still name the program after an argument about a topic. -/
def Slot.after (slot : Slot) : Topic → Slot
  | .program => .filling
  | .switch _ => if slot = .free then .free else .taken

/-- A token that puts into any options what `c` has to say about a topic. No switch waits for its
value in front of it or behind it, and nothing is left blank or over. -/
def Token.Tells (c : Config) (t : Topic) (token : Token) : Prop :=
  ∀ (d : Config) (slot : Slot), (t = .program → slot = .free) →
    Reading.token { config := d, slot := slot } token =
      .ok { config := c.tell d t, slot := slot.after t }

theorem Token.tells_word {c : Config} {text : String} (htext : c.program = some text)
    (hpath : (Path.ofString text).toString = text) : Tells c .program (.word text) := by
  intro d slot hslot
  obtain rfl := hslot rfl
  have hword : Reading.token { config := d } (.word text) =
      .ok { config := { d with program := some (Path.ofString text).toString }
            slot := .filling } := rfl
  rw [hword, hpath, ← htext]
  rfl

theorem Token.tells_flag {c : Config} {s : Switch} (hs : c.raises s = true) :
    Tells c (.switch s) (.switch s false none) := by
  intro d slot _
  have hbare : s.takesValue = false ∧ s ≠ .help := by
    cases s with
    | noOutlines | tall | debug => exact ⟨rfl, by decide⟩
    | _ => contradiction
  obtain ⟨htakes, hhelp⟩ := hbare
  have hread : Reading.token { config := d, slot := slot } (.switch s false none) =
      Reading.flag { config := d, slot := slot } s false none := by
    simp only [Reading.token, htakes]
    rfl
  rw [hread, Reading.flag, if_neg hhelp, setFlag_of_raises hs]
  rfl

section Written

variable {c : Config} {w : Wording} (h : c.Written w)
include h

theorem Token.tells_value {s : Switch} {text : String} (htext : c.value? w s = some text) :
    Tells c (.switch s) (.switch s false (some text)) := by
  intro d slot _
  have htakes : s.takesValue = true := by
    cases s with
    | help | noOutlines | tall | debug => contradiction
    | _ => rfl
  have hset := setValue_of_value? h htext d
  have hread : Reading.token { config := d, slot := slot } (.switch s false (some text)) =
      Reading.value { config := d, slot := slot } s text := by
    simp only [Reading.token, htakes, if_true]
  rw [hread, Reading.value, if_neg (ne_separator_of_setValue htakes hset), hset]
  rfl

theorem exists_token_of_argument? {t : Topic} {text : String}
    (htext : c.argument? w t = some text) :
    ∃ token, Token.ofString text = .ok token ∧ Token.Tells c t token := by
  cases t with
  | program =>
    have hprogram : c.program = some text := htext
    obtain ⟨hpath, hdash⟩ := h.program_mem.of_eq_some hprogram
    exact ⟨.word text, Token.ofString_word hdash, Token.tells_word hprogram hpath⟩
  | switch s =>
    cases hvalue : c.value? w s with
    | some value =>
      simp only [Config.argument?, hvalue, Option.some.injEq] at htext
      obtain rfl := htext
      exact ⟨_, Token.ofString_name_append s value, Token.tells_value h hvalue⟩
    | none =>
      simp only [Config.argument?, hvalue, Option.ite_none_right_eq_some, Option.some.injEq]
        at htext
      obtain ⟨hraised, rfl⟩ := htext
      exact ⟨_, Token.ofString_name s, Token.tells_flag hraised⟩

/-- Arguments about different topics are read to the end, whatever order they come in. -/
theorem exists_tokens_of_arguments {arguments : List String} {topics : List Topic}
    (hwritten : List.Forall₂ (fun text t => c.argument? w t = some text) arguments topics)
    (hnodup : topics.Nodup) {d : Config} {slot : Slot}
    (hslot : .program ∈ topics → slot = .free) :
    ∃ tokens slot', Token.ofArguments arguments = .ok tokens ∧
      tokens.foldlM Reading.token { config := d, slot := slot } =
        .ok { config := topics.foldl c.tell d, slot := slot' } := by
  induction hwritten generalizing d slot with
  | nil => exact ⟨[], slot, rfl, rfl⟩
  | @cons text t arguments topics htext _ ih =>
    obtain ⟨hfresh, hrest⟩ := List.nodup_cons.mp hnodup
    obtain ⟨token, htoken, hread⟩ := exists_token_of_argument? h htext
    have hslot' : .program ∈ topics → slot.after t = .free := by
      intro hlater
      cases t with
      | program => contradiction
      | switch s => exact if_pos (hslot (List.mem_cons_of_mem _ hlater))
    obtain ⟨tokens, last, htokens, hrun⟩ := ih hrest (d := c.tell d t) hslot'
    refine ⟨token :: tokens, last, ?_, ?_⟩
    · rw [Token.ofArguments_cons (Token.ne_separator_of_ofString htoken), htoken, htokens]
      rfl
    · rw [List.foldlM_cons, hread d slot fun ht => hslot (ht ▸ List.mem_cons_self)]
      exact hrun

end Written

theorem forall₂_arguments (c : Config) (w : Wording) :
    List.Forall₂ (fun text t => c.argument? w t = some text) (c.arguments w) (c.topics w) := by
  unfold Config.arguments Config.topics
  induction Topic.all with
  | nil => exact .nil
  | cons t rest ih =>
    cases htext : c.argument? w t with
    | none => simpa [htext] using ih
    | some text => simpa [htext] using ih

/-- Written as arguments in any order, options are read back. -/
theorem parse_of_perm_arguments {c : Config} {w : Wording} (h : c.Written w)
    {arguments : List String} (horder : arguments.Perm (c.arguments w)) :
    parse arguments = .ok c := by
  obtain ⟨topics, hwritten, hperm⟩ := List.perm_comp_forall₂ horder (forall₂_arguments c w)
  have hnodup : topics.Nodup := by
    have hall : Topic.all.Nodup := by decide
    exact hperm.nodup_iff.mpr (hall.filter _)
  obtain ⟨tokens, slot, htokens, hrun⟩ : ∃ tokens slot, Token.ofArguments arguments = .ok tokens ∧
      scan tokens = .ok { config := topics.foldl c.tell {}, slot := slot } :=
    exists_tokens_of_arguments h hwritten hnodup fun _ => rfl
  have htold : topics.foldl c.tell {} = c := by
    rw [hperm.foldl_eq' (fun t _ u _ d => c.tell_comm d t u), c.foldl_tell h]
  rw [htold] at hrun
  have hvolume : clampVolume c.volume = c.volume :=
    clampVolume_of_mem h.volume_mem.1 h.volume_mem.2
  have hrate : clampRate c.fadeRate = c.fadeRate :=
    clampRate_of_mem h.fadeRate_mem.1 h.fadeRate_mem.2
  have hfinish : Reading.finish { config := c, slot := slot } =
      .ok { c with volume := clampVolume c.volume, fadeRate := clampRate c.fadeRate } := rfl
  rw [parse, htokens]
  simp only [hrun, Except.bind, hfinish, hvolume, hrate]

/-- Options of every kind are read back with the program between two switches. -/
theorem parse_of_perm_arguments_mixed :
    parse ["--tall-sprites", "--lerp=0.25", "--sample-rate=22050", "--foreground=3366CCFF",
        "--volume=32767", "games/pong.ch8", "--no-outlines", "--ips=1000", "--quirks=xochip",
        "--background=#102030", "--tone=220", "--scale=15"] =
      .ok {
        program := some "games/pong.ch8"
        variant := .xochip
        scale := some 15
        foreground := some 0x3366ccff
        background := some 0x102030ff
        outlines := false
        speed := some 1000
        frequency := some 220
        sampleRate := some 22050
        volume := 32767
        fadeRate := 0.25
        tall := true } := by
  refine parse_of_perm_arguments (w := ⟨"3366CCFF", "#102030", "0.25"⟩) ?_ (by decide)
  exact {
    screen := ⟨rfl, rfl⟩
    program_mem := ⟨by decide, by decide⟩
    scale_mem := ⟨by decide, Numeral.lt_of_short (by decide)⟩
    foreground_mem := ⟨⟨by decide, by decide⟩, Color.spells_of_read? (n := 0x3366ccff) (by decide)⟩
    background_mem := ⟨⟨by decide, by decide⟩, Color.spells_of_read? (n := 0x102030ff) (by decide)⟩
    speed_mem := ⟨by decide, Numeral.lt_of_short (by decide)⟩
    frequency_mem := ⟨by decide, Numeral.lt_of_short (by decide)⟩
    sampleRate_mem := ⟨by decide, Numeral.lt_of_short (by decide)⟩
    volume_mem := by decide
    fadeRate_mem := by decide
    rate_eq := rfl }

end CommandLine
end Chip8
