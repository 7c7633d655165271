import Chip8.CommandLine.Value
import Mathlib.Data.List.Forall2

/-!
# Spellings of colors

A text spells a color if it has two hexadecimal digits of either case for each channel, red first,
perhaps behind a mark and between blanks. Alpha may be left out, and then it is full. A text is read
as a color exactly if it spells one, and the channels of what is read are the bytes that it spells.
-/

namespace Chip8
namespace Color

open Text

def IsDigit (d : Nat) (c : Char) : Prop :=
  "0123456789abcdef".toList[d]? = some c ∨ "0123456789ABCDEF".toList[d]? = some c

instance (d : Nat) (c : Char) : Decidable (IsDigit d c) := inferInstanceAs (Decidable (_ ∨ _))

theorem all_of_isDigit {p : Char → Bool}
    (hp : ("0123456789abcdef".toList ++ "0123456789ABCDEF".toList).all p = true) {d : Nat} {c : Char}
    (h : IsDigit d c) : p c = true :=
  List.all_eq_true.mp hp c
    (List.mem_append.mpr (h.imp List.mem_of_getElem? List.mem_of_getElem?))

theorem ne_of_isDigit {d : Nat} {c : Char} (h : IsDigit d c) : c ≠ '#' ∧ c ≠ 'x' ∧ c ≠ 'X' :=
  of_decide_eq_true
    (all_of_isDigit (p := fun c => decide (c ≠ '#' ∧ c ≠ 'x' ∧ c ≠ 'X')) (by decide) h)

theorem isBlank_of_isDigit {d : Nat} {c : Char} (h : IsDigit d c) : isBlank c = false := by
  have hclear := all_of_isDigit (p := fun c => !isBlank c) (by decide) h
  simpa using hclear

/-- Two digits for each byte, the upper half first. -/
inductive SpellsBytes : List UInt8 → List Char → Prop
  | nil : SpellsBytes [] []
  | cons {b : UInt8} {bs : List UInt8} {high low : Char} {s : List Char}
      (hhigh : IsDigit (b.toNat / 16) high) (hlow : IsDigit (b.toNat % 16) low)
      (hrest : SpellsBytes bs s) : SpellsBytes (b :: bs) (high :: low :: s)

theorem hexValue?_of_isDigit {d : Nat} {c : Char} (h : IsDigit d c) : hexValue? c = some d := by
  rcases h with h | h <;> obtain ⟨hd, rfl⟩ := List.getElem?_eq_some_iff.mp h
  · have hlower : ∀ i : Fin 16, hexValue? "0123456789abcdef".toList[i] = some i.val := by decide
    exact hlower ⟨d, hd⟩
  · have hupper : ∀ i : Fin 16, hexValue? "0123456789ABCDEF".toList[i] = some i.val := by decide
    exact hupper ⟨d, hd⟩

theorem toNat_lt_of_hexValue? {d : Nat} {c : Char} (h : hexValue? c = some d) : c.toNat < 128 := by
  unfold hexValue? at h
  split at h
  · rename_i hc
    exact Nat.lt_of_le_of_lt hc.2 (by decide)
  · split at h
    · rename_i hc
      exact Nat.lt_of_le_of_lt hc.2 (by decide)
    · split at h
      · rename_i hc
        exact Nat.lt_of_le_of_lt hc.2 (by decide)
      · contradiction

theorem isDigit_of_hexValue? {d : Nat} {c : Char} (h : hexValue? c = some d) : IsDigit d c :=
  forall_ascii (p := fun c => ∀ e ∈ hexValue? c, IsDigit e c) (by decide)
    (toNat_lt_of_hexValue? h) d h

theorem forall₂_of_hexValues {s : List Char} {ds : List Nat} (h : s.mapM hexValue? = some ds) :
    List.Forall₂ (fun c d => hexValue? c = some d) s ds := by
  induction s generalizing ds with
  | nil =>
    obtain rfl := Option.some.inj h
    exact .nil
  | cons c s ih =>
    rw [List.mapM_cons] at h
    obtain ⟨d, hd, hrest⟩ := Option.bind_eq_some_iff.mp h
    obtain ⟨rest, hs, hds⟩ := Option.bind_eq_some_iff.mp hrest
    obtain rfl := Option.some.inj hds
    exact .cons hd (ih hs)

theorem exists_hexValues_of_spellsBytes {bs : List UInt8} {s : List Char} (h : SpellsBytes bs s) :
    ∃ ds, s.mapM hexValue? = some ds ∧ ds.length = 2 * bs.length ∧
      ∀ n, ds.foldl (fun n d => 16 * n + d) n = bs.foldl (fun n b => 256 * n + b.toNat) n := by
  induction h with
  | nil => exact ⟨[], rfl, rfl, fun _ => rfl⟩
  | @cons b bs high low s hhigh hlow _ ih =>
    obtain ⟨ds, hds, hlength, hvalue⟩ := ih
    refine ⟨b.toNat / 16 :: b.toNat % 16 :: ds, ?_, ?_, fun n => ?_⟩
    · simp [List.mapM_cons, hexValue?_of_isDigit hhigh, hexValue?_of_isDigit hlow, hds]
    · rw [List.length_cons, List.length_cons, List.length_cons, hlength]
      omega
    · have hbyte : 16 * (16 * n + b.toNat / 16) + b.toNat % 16 = 256 * n + b.toNat := by omega
      rw [List.foldl_cons, List.foldl_cons, List.foldl_cons, hbyte, hvalue]

theorem exists_spellsBytes_of_hexValues (count : Nat) {s : List Char} {ds : List Nat}
    (hvalues : List.Forall₂ (fun c d => hexValue? c = some d) s ds)
    (hlength : ds.length = 2 * count) :
    ∃ bs : List UInt8, bs.length = count ∧ SpellsBytes bs s := by
  induction count generalizing s ds with
  | zero =>
    obtain rfl := List.eq_nil_of_length_eq_zero hlength
    cases hvalues
    exact ⟨[], rfl, .nil⟩
  | succ count ih =>
    cases hvalues with
    | nil => contradiction
    | @cons high upper _ _ hhigh hvalues =>
      cases hvalues with
      | nil => simp at hlength; omega
      | @cons low lower s ds hlow hrest =>
        obtain ⟨bs, hcount, hspells⟩ := ih hrest (by simp at hlength; omega)
        have hupper := hexValue?_lt hhigh
        have hlower := hexValue?_lt hlow
        have hbyte : (UInt8.ofNat (16 * upper + lower)).toNat = 16 * upper + lower :=
          UInt8.toNat_ofNat_of_lt' (show 16 * upper + lower < 256 by omega)
        refine ⟨.ofNat (16 * upper + lower) :: bs, by rw [List.length_cons, hcount],
          .cons ?_ ?_ hspells⟩
        · rw [hbyte, show (16 * upper + lower) / 16 = upper by omega]
          exact isDigit_of_hexValue? hhigh
        · rw [hbyte, show (16 * upper + lower) % 16 = lower by omega]
          exact isDigit_of_hexValue? hlow

/-- What may stand in front of the digits. -/
def marks : List (List Char) := [[], ['#'], ['0', 'x'], ['0', 'X']]

theorem isBlank_of_mem_mark {mark : List Char} (hmark : mark ∈ marks) {x : Char} (hx : x ∈ mark) :
    isBlank x = false := by
  have hall : marks.flatten.all (fun x => !isBlank x) = true := by decide
  have hclear := List.all_eq_true.mp hall x (List.mem_flatten_of_mem hmark hx)
  simpa using hclear

/-- The digits of a color and its alpha. -/
inductive SpellsDigits (c : Rgb UInt8) : UInt8 → List Char → Prop
  | short {s : List Char} (hbytes : SpellsBytes [c.red, c.green, c.blue] s) : SpellsDigits c 255 s
  | long {a : UInt8} {s : List Char} (hbytes : SpellsBytes [c.red, c.green, c.blue, a] s) :
      SpellsDigits c a s

/-- A text that spells a color and its alpha. -/
inductive Spells (c : Rgb UInt8) (a : UInt8) (text : String) : Prop
  | intro {front mark digits back : List Char} (hfront : ∀ x ∈ front, isBlank x = true)
      (hmark : mark ∈ marks) (hdigits : SpellsDigits c a digits)
      (hback : ∀ x ∈ back, isBlank x = true)
      (htext : text.toList = front ++ (mark ++ digits) ++ back)

def pack (c : Rgb UInt8) (a : UInt8) : Nat :=
  0x1000000 * c.red.toNat + 0x10000 * c.green.toNat + 0x100 * c.blue.toNat + a.toNat

theorem ofInt_eq {n : Int} {b : UInt8} (h : n % 256 = b.toNat) : UInt8.ofInt n = b := by
  rw [← UInt8.toNat_inj, ← Int.natCast_inj, toNat_ofInt, h]

theorem rgb_pack (c : Rgb UInt8) (a : UInt8) : rgb (pack c a) = c := by
  have hred := c.red.toNat_lt
  have hgreen := c.green.toNat_lt
  have hblue := c.blue.toNat_lt
  have halpha := a.toNat_lt
  have hr : UInt8.ofInt (pack c a / 0x1000000) = c.red := ofInt_eq (by unfold pack; omega)
  have hg : UInt8.ofInt (pack c a / 0x10000) = c.green := ofInt_eq (by unfold pack; omega)
  have hb : UInt8.ofInt (pack c a / 0x100) = c.blue := ofInt_eq (by unfold pack; omega)
  rw [rgb, hr, hg, hb]

theorem alpha_pack (c : Rgb UInt8) (a : UInt8) : alpha (pack c a) = a := by
  have halpha := a.toNat_lt
  exact ofInt_eq (by unfold pack; omega)

/-- A number that fills four channels at most is put together from them. -/
theorem pack_rgb {n : Int} (h : 0 ≤ n) (h' : n ≤ 0xffffffff) :
    (pack (rgb n) (alpha n) : Int) = n := by
  have hred := toNat_ofInt (n / 0x1000000)
  have hgreen := toNat_ofInt (n / 0x10000)
  have hblue := toNat_ofInt (n / 0x100)
  have halpha := toNat_ofInt n
  simp only [pack, rgb, alpha]
  omega

theorem foldl_bytes (c : Rgb UInt8) (a : UInt8) :
    [c.red, c.green, c.blue, a].foldl (fun n b => 256 * n + b.toNat) 0 = pack c a := by
  unfold pack
  simp only [List.foldl_cons, List.foldl_nil]
  omega

theorem exists_mark (s : List Char) : ∃ mark ∈ marks, s = mark ++ dropMark s := by
  unfold dropMark
  split
  · exact ⟨['#'], by decide, rfl⟩
  · exact ⟨['0', 'x'], by decide, rfl⟩
  · exact ⟨['0', 'X'], by decide, rfl⟩
  · exact ⟨[], by decide, rfl⟩

/-- A mark is told from digits, since it ends in no digit. -/
theorem dropMark_append {mark digits : List Char} {bs : List UInt8} (hmark : mark ∈ marks)
    (hdigits : SpellsBytes bs digits) : dropMark (mark ++ digits) = digits := by
  have hnone : dropMark digits = digits := by
    cases hdigits with
    | nil => rfl
    | @cons b bs high low s hhigh hlow _ =>
      obtain ⟨hhash, -, -⟩ := ne_of_isDigit hhigh
      obtain ⟨-, hx, hX⟩ := ne_of_isDigit hlow
      unfold dropMark
      split <;> simp_all
  simp only [marks, List.mem_cons, List.not_mem_nil, or_false] at hmark
  rcases hmark with rfl | rfl | rfl | rfl
  · exact hnone
  · rfl
  · rfl
  · rfl

theorem isBlank_of_spellsBytes {bs : List UInt8} {s : List Char} (h : SpellsBytes bs s) :
    ∀ x ∈ s, isBlank x = false := by
  induction h with
  | nil => nofun
  | cons hhigh hlow _ ih =>
    exact List.forall_mem_cons.mpr ⟨isBlank_of_isDigit hhigh,
      List.forall_mem_cons.mpr ⟨isBlank_of_isDigit hlow, ih⟩⟩

theorem strip_spelling {bs : List UInt8} {b : UInt8} {front mark digits back : List Char}
    (hfront : ∀ x ∈ front, isBlank x = true) (hmark : mark ∈ marks)
    (hdigits : SpellsBytes (b :: bs) digits) (hback : ∀ x ∈ back, isBlank x = true) :
    strip isBlank (front ++ (mark ++ digits) ++ back) = mark ++ digits := by
  refine strip_append hfront ?_ ?_ hback
  · cases hdigits
    simp
  · intro x hx
    rcases List.mem_append.mp hx with hx | hx
    · exact isBlank_of_mem_mark hmark hx
    · exact isBlank_of_spellsBytes hdigits x hx

theorem read?_of_spells {c : Rgb UInt8} {a : UInt8} {text : String} (h : Spells c a text) :
    read? text = some (pack c a) := by
  obtain ⟨hfront, hmark, hdigits, hback, htext⟩ := h
  unfold read?
  rw [htext]
  cases hdigits with
  | short hbytes =>
    obtain ⟨ds, hds, hlength, hvalue⟩ := exists_hexValues_of_spellsBytes hbytes
    have hnumber : ofHexDigits (ds ++ [15, 15]) = pack c 255 := by
      rw [ofHexDigits, List.foldl_append, hvalue, ← foldl_bytes]
      simp only [List.foldl_cons, List.foldl_nil]
      have hfull : (255 : UInt8).toNat = 255 := rfl
      omega
    have hshort : ds.length = 6 := hlength
    rw [strip_spelling hfront hmark hbytes hback, dropMark_append hmark hbytes, hds]
    simp only [if_pos hshort, hnumber]
  | long hbytes =>
    obtain ⟨ds, hds, hlength, hvalue⟩ := exists_hexValues_of_spellsBytes hbytes
    have hnumber : ofHexDigits ds = pack c a := by rw [ofHexDigits, hvalue, foldl_bytes]
    have hlong : ds.length = 8 := hlength
    rw [strip_spelling hfront hmark hbytes hback, dropMark_append hmark hbytes, hds]
    simp only [hlong, if_neg (show ¬8 = 6 by decide), if_pos, hnumber]

theorem exists_spells_of_read? {text : String} {n : Nat} (h : read? text = some n) :
    ∃ c a, Spells c a text := by
  obtain ⟨front, back, htext, hfront, hback⟩ := exists_eq_append_strip isBlank text.toList
  obtain ⟨mark, hmark, hsplit⟩ := exists_mark (strip isBlank text.toList)
  rw [hsplit] at htext
  unfold read? at h
  split at h
  · rename_i ds hds
    have hvalues := forall₂_of_hexValues hds
    split at h
    · rename_i hlength
      obtain ⟨bs, hcount, hspells⟩ := exists_spellsBytes_of_hexValues 3 hvalues hlength
      match bs, hcount with
      | [red, green, blue], _ =>
        exact ⟨⟨red, green, blue⟩, 255, .intro hfront hmark (.short hspells) hback htext⟩
    · split at h
      · rename_i hlength
        obtain ⟨bs, hcount, hspells⟩ := exists_spellsBytes_of_hexValues 4 hvalues hlength
        match bs, hcount with
        | [red, green, blue, a], _ =>
          exact ⟨⟨red, green, blue⟩, a, .intro hfront hmark (.long hspells) hback htext⟩
      · contradiction
  · contradiction

theorem spells_of_read? {text : String} {n : Nat} (h : read? text = some n) :
    Spells (rgb n) (alpha n) text := by
  obtain ⟨c, a, hspells⟩ := exists_spells_of_read? h
  obtain rfl := Option.some.inj ((read?_of_spells hspells).symm.trans h)
  rwa [rgb_pack, alpha_pack]

/-- A text is read as a color exactly if it spells one. Then the channels of what is read are the
bytes that were spelled, and what spells no color is refused as such. -/
theorem readColor_iff_spells (text : String) :
    (∀ c a, (∃ n, CommandLine.readColor text = .ok n ∧ rgb n = c ∧ alpha n = a) ↔ Spells c a text) ∧
      ∀ why, CommandLine.readColor text = .error why ↔
        why = .notColor text ∧ ∀ c a, ¬Spells c a text := by
  have hread {c : Rgb UInt8} {a : UInt8} (h : Spells c a text) :
      CommandLine.readColor text = .ok (pack c a) := by
    rw [CommandLine.readColor, read?_of_spells h]
  cases hcolor : read? text with
  | some n =>
    have hspells := spells_of_read? hcolor
    have hok : CommandLine.readColor text = .ok n := by rw [CommandLine.readColor, hcolor]
    refine ⟨fun c a => ⟨?_, fun h => ⟨_, hread h, rgb_pack c a, alpha_pack c a⟩⟩, fun why => ?_⟩
    · rintro ⟨n', hn', rfl, rfl⟩
      obtain rfl := Except.ok.inj (hok.symm.trans hn')
      exact hspells
    · rw [hok]
      exact ⟨nofun, fun h => absurd hspells (h.2 _ _)⟩
  | none =>
    have hrefused : CommandLine.readColor text = .error (.notColor text) := by
      rw [CommandLine.readColor, hcolor]
    have hnot (c : Rgb UInt8) (a : UInt8) : ¬Spells c a text := by
      intro h
      rw [read?_of_spells h] at hcolor
      contradiction
    rw [hrefused]
    refine ⟨fun c a => ⟨nofun, fun h => absurd h (hnot c a)⟩, fun why => ?_⟩
    exact ⟨fun h => ⟨(Except.error.inj h).symm, hnot⟩, fun h => h.1 ▸ rfl⟩

end Color
end Chip8
