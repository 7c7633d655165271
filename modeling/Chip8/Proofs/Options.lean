import Chip8.CommandLine

/-!
# Options of the command line

The options start from their defaults, and each argument that is read sets one of them at most. So a
property that the defaults have and that no value takes away is a property of all options that some
arguments choose. Whatever arguments are accepted, the options are of use: the screen has the size
that it has without options, and every number that was given and has to be positive is.
-/

namespace Chip8

/-- Options on the usual screen, with positive numbers where numbers were given. -/
structure Config.Sound (c : Config) : Prop where
  width_eq : c.width = 64
  height_eq : c.height = 32
  scale_pos : ∀ n, c.scale = some n → 0 < n
  speed_pos : ∀ n, c.speed = some n → 0 < n
  frequency_pos : ∀ n, c.frequency = some n → 0 < n
  sampleRate_pos : ∀ n, c.sampleRate = some n → 0 < n

def Color.IsPacked (color : Int) : Prop := 0 ≤ color ∧ color ≤ 0xffffffff

/-- A number has a property where there is one; `missing` says whether there may be none. -/
def Given {α : Type} (p : α → Prop) (missing : Prop) : Option α → Prop
  | some n => p n
  | none => missing

theorem Given.of_eq_some {α : Type} {p : α → Prop} {missing : Prop} {number : Option α} {n : α}
    (h : Given p missing number) (hn : number = some n) : p n := by
  rw [hn] at h
  exact h

theorem Given.exists_of_not {α : Type} {p : α → Prop} {missing : Prop} {number : Option α}
    (h : Given p missing number) (hgiven : ¬missing) : ∃ n, number = some n ∧ p n := by
  cases number with
  | some n => exact ⟨n, rfl, h⟩
  | none => exact absurd h hgiven

theorem Given.exists_of_map {α β : Type} {p : α → Prop} {missing : Prop} {number : Option α}
    {f : α → β} {b : β} (h : Given p missing number) (hb : number.map f = some b) :
    ∃ n, number = some n ∧ f n = b ∧ p n := by
  obtain ⟨n, hn, hf⟩ := Option.map_eq_some_iff.mp hb
  exact ⟨n, hn, hf, h.of_eq_some hn⟩

def Config.OnUsualScreen (c : Config) : Prop := c.width = 64 ∧ c.height = 32

/-- Options whose numbers are within their ranges, as far as no later step brings them there. A
number may be missing if its switch is. -/
structure Config.Measured (missing : CommandLine.Switch → Prop) (c : Config) : Prop where
  scale_mem : Given (0 < ·) (missing .scale) c.scale
  foreground_mem : Given Color.IsPacked (missing .foreground) c.foreground
  background_mem : Given Color.IsPacked (missing .background) c.background
  speed_mem : Given (0 < ·) (missing .speed) c.speed
  frequency_mem : Given (0 < ·) (missing .tone) c.frequency
  sampleRate_mem : Given (0 < ·) (missing .sampleRate) c.sampleRate

theorem Config.measured_default (missing : CommandLine.Switch → Prop) :
    Config.Measured missing {} := by
  constructor <;> simp [Given, Color.IsPacked]

namespace CommandLine

theorem read_of_valueFor {s : Switch} {needed text : String}
    {read : String → Except ValueError Int} {n : Int} (h : valueFor s needed read text = .ok n) :
    read text = .ok n := by
  unfold valueFor at h
  split at h
  · rename_i hread
    obtain rfl := Except.ok.inj h
    exact hread
  · contradiction
  · contradiction

theorem pos_of_readPositive {text : String} {n : Int} (h : readPositive text = .ok n) : 0 < n := by
  unfold readPositive at h
  split at h
  · split at h
    · rename_i hpos
      obtain rfl := Except.ok.inj h
      exact hpos
    · contradiction
  · contradiction

theorem isPacked_of_readColor {text : String} {n : Int} (h : readColor text = .ok n) :
    Color.IsPacked n := by
  unfold readColor at h
  split at h
  · rename_i color hcolor
    obtain rfl := Except.ok.inj h
    exact ⟨Int.natCast_nonneg color, Int.ofNat_le.mpr (Color.read?_le hcolor)⟩
  · contradiction

theorem exists_of_map_eq_ok {ε α β : Type} {e : Except ε α} {f : α → β} {b : β}
    (h : e.map f = .ok b) : ∃ a, e = .ok a ∧ b = f a := by
  cases e with
  | ok a => exact ⟨a, rfl, (Except.ok.inj h).symm⟩
  | error why => contradiction

inductive Sets (c : Config) : Switch → Config → Prop
  | variant (v : Variant) : Sets c .variant { c with variant := v }
  | scale {n : Int} (hpos : 0 < n) : Sets c .scale { c with scale := some n }
  | foreground {n : Int} (hcolor : Color.IsPacked n) :
      Sets c .foreground { c with foreground := some n }
  | background {n : Int} (hcolor : Color.IsPacked n) :
      Sets c .background { c with background := some n }
  | speed {n : Int} (hpos : 0 < n) : Sets c .speed { c with speed := some n }
  | tone {n : Int} (hpos : 0 < n) : Sets c .tone { c with frequency := some n }
  | sampleRate {n : Int} (hpos : 0 < n) : Sets c .sampleRate { c with sampleRate := some n }
  | volume (v : Int) : Sets c .volume { c with volume := v }
  | fade (rate : Float) : Sets c .fade { c with fadeRate := rate }
  | nothing (s : Switch) : Sets c s c

theorem sets_of_setValue {c c' : Config} {s : Switch} {text : String}
    (h : setValue c s text = .ok c') : Sets c s c' := by
  cases s with
  | scale =>
    obtain ⟨n, hn, rfl⟩ := exists_of_map_eq_ok h
    exact .scale (pos_of_readPositive (read_of_valueFor hn))
  | foreground =>
    obtain ⟨n, hn, rfl⟩ := exists_of_map_eq_ok h
    exact .foreground (isPacked_of_readColor (read_of_valueFor hn))
  | background =>
    obtain ⟨n, hn, rfl⟩ := exists_of_map_eq_ok h
    exact .background (isPacked_of_readColor (read_of_valueFor hn))
  | speed =>
    obtain ⟨n, hn, rfl⟩ := exists_of_map_eq_ok h
    exact .speed (pos_of_readPositive (read_of_valueFor hn))
  | tone =>
    obtain ⟨n, hn, rfl⟩ := exists_of_map_eq_ok h
    exact .tone (pos_of_readPositive (read_of_valueFor hn))
  | sampleRate =>
    obtain ⟨n, hn, rfl⟩ := exists_of_map_eq_ok h
    exact .sampleRate (pos_of_readPositive (read_of_valueFor hn))
  | volume =>
    obtain ⟨n, -, rfl⟩ := exists_of_map_eq_ok h
    exact .volume n
  | variant =>
    simp only [setValue] at h
    split at h
    · obtain rfl := Except.ok.inj h
      exact .variant _
    · contradiction
  | fade =>
    simp only [setValue] at h
    split at h
    · obtain rfl := Except.ok.inj h
      exact .fade _
    · contradiction
  | help | noOutlines | tall | debug =>
    obtain rfl := Except.ok.inj h
    exact .nothing _

/-- A property of options that nothing takes away that is read on a command line. -/
structure Kept (P : Config → Prop) : Prop where
  value : ∀ {c c' : Config} {s : Switch}, P c → Sets c s c' → P c'
  flag : ∀ {c : Config} (s : Switch), P c → P (setFlag c s)
  program : ∀ {c : Config} (name : Option String), P c → P { c with program := name }

theorem Kept.and {P Q : Config → Prop} (hP : Kept P) (hQ : Kept Q) :
    Kept fun c => P c ∧ Q c where
  value := fun hc h => ⟨hP.value hc.1 h, hQ.value hc.2 h⟩
  flag := fun s hc => ⟨hP.flag s hc.1, hQ.flag s hc.2⟩
  program := fun name hc => ⟨hP.program name hc.1, hQ.program name hc.2⟩

theorem kept_onUsualScreen : Kept Config.OnUsualScreen where
  value := fun hc h => by cases h <;> exact hc
  flag := fun s hc => by cases s <;> exact hc
  program := fun _ hc => hc

theorem onUsualScreen_dropValue {c : Config} (hc : c.OnUsualScreen) (s : Switch) :
    (dropValue c s).OnUsualScreen := by
  cases s <;> exact hc

section Measured

variable {missing : Switch → Prop} {c : Config} (hc : c.Measured missing)
include hc

theorem measured_of_sets {c' : Config} {s : Switch} (h : Sets c s c') : c'.Measured missing := by
  cases h with
  | scale hpos => exact { hc with scale_mem := hpos }
  | foreground hcolor => exact { hc with foreground_mem := hcolor }
  | background hcolor => exact { hc with background_mem := hcolor }
  | speed hpos => exact { hc with speed_mem := hpos }
  | tone hpos => exact { hc with frequency_mem := hpos }
  | sampleRate hpos => exact { hc with sampleRate_mem := hpos }
  | variant v | volume v | fade v => exact { hc with }
  | nothing => exact hc

theorem measured_setFlag (s : Switch) : (setFlag c s).Measured missing := by
  cases s with
  | noOutlines | tall | debug => exact { hc with }
  | _ => exact hc

theorem measured_dropValue {s : Switch} (hs : missing s) : (dropValue c s).Measured missing := by
  cases s with
  | scale => exact { hc with scale_mem := hs }
  | foreground => exact { hc with foreground_mem := hs }
  | background => exact { hc with background_mem := hs }
  | speed => exact { hc with speed_mem := hs }
  | tone => exact { hc with frequency_mem := hs }
  | sampleRate => exact { hc with sampleRate_mem := hs }
  | _ => exact hc

end Measured

theorem kept_measured (missing : Switch → Prop) : Kept (Config.Measured missing) :=
  ⟨fun hc h => measured_of_sets hc h, fun s hc => measured_setFlag hc s, fun _ hc => { hc with }⟩

theorem measured_dropValues {missing : Switch → Prop} {blank : List Switch}
    (hblank : ∀ s ∈ blank, missing s) {c : Config} (hc : c.Measured missing) :
    (blank.foldl dropValue c).Measured missing :=
  List.foldlRecOn blank dropValue hc fun _ hc s hs => measured_dropValue hc (hblank s hs)

namespace Reading

/-- How an argument may be read. -/
inductive Takes (r : Reading) : Token → Reading → Prop
  | awaited {s : Switch} {text : String} {r' : Reading} (hawaiting : r.awaiting = some s)
      (hvalue : { r with awaiting := none }.value s text = .ok r') : Takes r (.word text) r'
  | word {text : String} (hawaiting : r.awaiting = none) : Takes r (.word text) (r.word text)
  | separator (hawaiting : r.awaiting = none) : Takes r .separator r.separator
  | stray {text : String} :
      Takes r (.stray text) { r.settle with extra := r.extra ++ [text] }
  | attached {s : Switch} {short : Bool} {text : String} {r' : Reading} (htakes : s.takesValue = true)
      (hvalue : r.value s text = .ok r') : Takes r (.switch s short (some text)) r'
  | bare {s : Switch} {short : Bool} :
      Takes r (.switch s short none) { r.settle with awaiting := some s }
  | flag {s : Switch} {short : Bool} {attached : Option String} {r' : Reading}
      (hflag : r.flag s short attached = .ok r') : Takes r (.switch s short attached) r'

theorem takes_of_token {r r' : Reading} {t : Token} (h : r.token t = .ok r') : r.Takes t r' := by
  unfold token at h
  split at h
  · split at h
    · rename_i hawaiting
      exact .awaited hawaiting h
    · rename_i hawaiting
      obtain rfl := Except.ok.inj h
      exact .word hawaiting
  · split at h
    · contradiction
    · rename_i hawaiting
      split at h
      · obtain rfl := Except.ok.inj h
        exact .separator hawaiting
      · obtain rfl := Except.ok.inj h
        exact .stray
      · split at h
        · rename_i htakes
          split at h
          · exact .attached htakes h
          · obtain rfl := Except.ok.inj h
            exact .bare
        · exact .flag h
      · obtain rfl := Except.ok.inj h
        exact .word hawaiting

section Kept

variable {P : Config → Prop} (hP : Kept P) {r r' : Reading} (hr : P r.config)
include hP hr

theorem keeps_value {s : Switch} {text : String} (h : r.value s text = .ok r') : P r'.config := by
  unfold value at h
  split at h
  · obtain rfl := Except.ok.inj h
    exact hr
  · split at h
    · rename_i c hc
      obtain rfl := Except.ok.inj h
      exact hP.value hr (sets_of_setValue hc)
    · contradiction

theorem keeps_flag {s : Switch} {short : Bool} {attached : Option String}
    (h : r.flag s short attached = .ok r') : P r'.config := by
  unfold flag at h
  split at h
  · split at h <;> contradiction
  · split at h
    · contradiction
    · obtain rfl := Except.ok.inj h
      exact hP.flag s hr

theorem keeps_token {t : Token} (h : r.token t = .ok r') : P r'.config := by
  cases takes_of_token h with
  | awaited _ hvalue => exact keeps_value (r := { r with awaiting := none }) hP hr hvalue
  | word =>
    unfold word
    split
    · exact hP.program _ hr
    · exact hr
  | separator =>
    unfold separator
    split <;> exact hr
  | stray | bare => exact hr
  | attached _ hvalue => exact keeps_value hP hr hvalue
  | flag hflag => exact keeps_flag hP hr hflag

end Kept

end Reading

theorem keeps_scan {P : Config → Prop} (hP : Kept P) {tokens : List Token} {r r' : Reading}
    (hr : P r.config) (h : tokens.foldlM Reading.token r = .ok r') : P r'.config := by
  induction tokens generalizing r with
  | nil =>
    obtain rfl := Except.ok.inj h
    exact hr
  | cons t tokens ih =>
    rw [List.foldlM_cons] at h
    cases htoken : r.token t with
    | error why =>
      rw [htoken] at h
      contradiction
    | ok next =>
      rw [htoken] at h
      exact ih (Reading.keeps_token hP hr htoken) h

theorem shortHelp_ne_blank (text : List Char) (b : Blank) : shortHelp text ≠ .blank b := by
  fun_induction shortHelp text with
  | case1 => nofun
  | case2 rest _ ih => exact ih
  | case3 => nofun

namespace Reading

/-- That a value is missing for good shows only behind all arguments. -/
theorem token_ne_blank (r : Reading) (t : Token) (b : Blank) : r.token t ≠ .error (.blank b) := by
  have hvalue (r : Reading) (s : Switch) (text : String) : r.value s text ≠ .error (.blank b) := by
    unfold value
    split
    · nofun
    · split <;> nofun
  have hflag (s : Switch) (short : Bool) (attached : Option String) :
      r.flag s short attached ≠ .error (.blank b) := by
    unfold flag
    split
    · rename_i text
      split
      · exact fun h => shortHelp_ne_blank text.toList b (Except.error.inj h)
      · nofun
    · split <;> nofun
  unfold token
  split
  · split
    · exact hvalue _ _ _
    · nofun
  · split
    · nofun
    · split
      · nofun
      · nofun
      · split
        · split
          · exact hvalue _ _ _
          · nofun
        · exact hflag _ _ _
      · nofun

theorem eq_of_options {r : Reading} {c : Config} (h : r.options = .ok c) :
    c = { r.blank.foldl dropValue r.config with
      volume := clampVolume (r.blank.foldl dropValue r.config).volume
      fadeRate := clampRate (r.blank.foldl dropValue r.config).fadeRate } := by
  unfold options at h
  split at h
  · contradiction
  · exact (Except.ok.inj h).symm

end Reading

theorem scan_ne_blank (tokens : List Token) (b : Blank) : scan tokens ≠ .error (.blank b) := by
  have hfold (r : Reading) : tokens.foldlM Reading.token r ≠ .error (.blank b) := by
    induction tokens generalizing r with
    | nil => nofun
    | cons t tokens ih =>
      rw [List.foldlM_cons]
      cases htoken : r.token t with
      | ok next => exact ih next
      | error why =>
        intro h
        obtain rfl := Except.error.inj h
        exact r.token_ne_blank t b htoken
  exact hfold {}

/-- Unless help was asked for or an argument is wrong, all arguments are read, and what comes of
them is told by the values that were left blank. -/
theorem exists_reading_of_parse {arguments : List String} {result : Except Exit Config}
    (h : parse arguments = result) (hhelp : result ≠ .error .help)
    (hwrong : ∀ e, result ≠ .error (.wrong e)) :
    ∃ tokens r, Token.ofArguments arguments = .ok tokens ∧ scan tokens = .ok r ∧
      r.options = result := by
  unfold parse at h
  split at h
  · rename_i tokens htokens
    cases hscan : scan tokens with
    | error why =>
      rw [hscan] at h
      cases why with
      | help => exact absurd h.symm hhelp
      | wrong e => exact absurd h.symm (hwrong e)
      | blank b => exact absurd hscan (scan_ne_blank tokens b)
    | ok r =>
      rw [hscan] at h
      simp only [Except.bind, Reading.finish] at h
      split at h
      · exact absurd h.symm (hwrong _)
      · split at h
        · exact ⟨tokens, r, htokens, hscan, h⟩
        · exact absurd h.symm (hwrong _)
  · exact absurd h.symm (hwrong _)

theorem exists_reading_of_kept {P : Config → Prop} (hP : Kept P) (hdefault : P {})
    {arguments : List String} {c : Config} (h : parse arguments = .ok c) :
    ∃ tokens r, Token.ofArguments arguments = .ok tokens ∧ scan tokens = .ok r ∧ P r.config ∧
      c = { r.blank.foldl dropValue r.config with
        volume := clampVolume (r.blank.foldl dropValue r.config).volume
        fadeRate := clampRate (r.blank.foldl dropValue r.config).fadeRate } := by
  obtain ⟨tokens, r, htokens, hscan, hoptions⟩ := exists_reading_of_parse h nofun nofun
  exact ⟨tokens, r, htokens, hscan, keeps_scan hP hdefault hscan, Reading.eq_of_options hoptions⟩

theorem sound_of_parse {arguments : List String} {c : Config} (h : parse arguments = .ok c) :
    c.Sound := by
  have hdefault : Config.OnUsualScreen {} := ⟨rfl, rfl⟩
  obtain ⟨_, r, _, _, ⟨hscreen, hmeasured⟩, rfl⟩ :=
    exists_reading_of_kept (kept_onUsualScreen.and (kept_measured fun _ => True))
      ⟨hdefault, Config.measured_default _⟩ h
  have hscreen' := List.foldlRecOn (motive := Config.OnUsualScreen) r.blank dropValue hscreen
    fun c hc s _ => onUsualScreen_dropValue hc s
  have hmeasured' : (r.blank.foldl dropValue r.config).Measured fun _ => True :=
    measured_dropValues (fun _ _ => trivial) hmeasured
  exact {
    width_eq := hscreen'.1
    height_eq := hscreen'.2
    scale_pos := fun n hn => hmeasured'.scale_mem.of_eq_some hn
    speed_pos := fun n hn => hmeasured'.speed_mem.of_eq_some hn
    frequency_pos := fun n hn => hmeasured'.frequency_mem.of_eq_some hn
    sampleRate_pos := fun n hn => hmeasured'.sampleRate_mem.of_eq_some hn }

end CommandLine
end Chip8
