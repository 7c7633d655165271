import Chip8.Text.Blank
import Chip8.Text.Digit

/-!
# Colors

A color packs four channels of one byte, red first and alpha last. It is written with two
hexadecimal digits for each channel, after an optional mark; alpha may be left out and is then full.
-/

namespace Chip8

structure Rgb (α : Type) where
  red : α
  green : α
  blue : α
  deriving DecidableEq

namespace Rgb

variable {α β : Type}

def map (f : α → β) (c : Rgb α) : Rgb β := ⟨f c.red, f c.green, f c.blue⟩

end Rgb

namespace Color

/-- The channels of a packed color: red, green and blue. -/
def rgb (color : Int) : Rgb UInt8 :=
  ⟨.ofInt (color / 0x1000000), .ofInt (color / 0x10000), .ofInt (color / 0x100)⟩

def alpha (color : Int) : UInt8 := .ofInt color

/-- A byte keeps what is left of a number above its multiples of 256. -/
theorem toNat_ofInt (n : Int) : ((UInt8.ofInt n).toNat : Int) = n % 256 := by
  have hbyte : (UInt8.ofInt n).toNat = (n % 256).toNat % 256 := rfl
  omega

def hexValue? (c : Char) : Option Nat :=
  if '0' ≤ c ∧ c ≤ '9' then some (c.toNat - '0'.toNat)
  else if 'a' ≤ c ∧ c ≤ 'f' then some (c.toNat - 'a'.toNat + 10)
  else if 'A' ≤ c ∧ c ≤ 'F' then some (c.toNat - 'A'.toNat + 10)
  else none

def dropMark : List Char → List Char
  | '#' :: s => s
  | '0' :: 'x' :: s => s
  | '0' :: 'X' :: s => s
  | s => s

def ofHexDigits (ds : List Nat) : Nat := ds.foldl (fun n d => 16 * n + d) 0

/-- The color that a text writes. -/
def read? (text : String) : Option Nat :=
  match (dropMark (Text.strip Text.isBlank text.toList)).mapM hexValue? with
  | some ds =>
    if ds.length = 6 then some (ofHexDigits (ds ++ [15, 15]))
    else if ds.length = 8 then some (ofHexDigits ds)
    else none
  | none => none

theorem hexValue?_lt {c : Char} {d : Nat} (h : hexValue? c = some d) : d < 16 := by
  unfold hexValue? at h
  split at h
  · rename_i hc
    have : c.toNat ≤ '9'.toNat := hc.2
    have h₉ : '9'.toNat = 57 := rfl
    have h₀ : '0'.toNat = 48 := rfl
    simp only [Option.some.injEq] at h
    omega
  · split at h
    · rename_i hc
      have : c.toNat ≤ 'f'.toNat := hc.2
      have hf : 'f'.toNat = 102 := rfl
      have ha : 'a'.toNat = 97 := rfl
      simp only [Option.some.injEq] at h
      omega
    · split at h
      · rename_i hc
        have : c.toNat ≤ 'F'.toNat := hc.2
        have hf : 'F'.toNat = 70 := rfl
        have ha : 'A'.toNat = 65 := rfl
        simp only [Option.some.injEq] at h
        omega
      · contradiction

theorem hexValues_lt {s : List Char} {ds : List Nat} (h : s.mapM hexValue? = some ds) :
    ∀ d ∈ ds, d < 16 := by
  induction s generalizing ds with
  | nil =>
    obtain rfl := Option.some.inj h
    nofun
  | cons c s ih =>
    rw [List.mapM_cons] at h
    obtain ⟨d, hd, hrest⟩ := Option.bind_eq_some_iff.mp h
    obtain ⟨rest, hs, hds⟩ := Option.bind_eq_some_iff.mp hrest
    obtain rfl := Option.some.inj hds
    exact List.forall_mem_cons.mpr ⟨hexValue?_lt hd, ih hs⟩

theorem ofHexDigits_lt {ds : List Nat} (h : ∀ d ∈ ds, d < 16) :
    ofHexDigits ds < Nat.pow 16 ds.length := by
  have hread (n : Nat) : ds.foldl (fun n d => 16 * n + d) n < (n + 1) * Nat.pow 16 ds.length := by
    induction ds generalizing n with
    | nil => exact Nat.lt_of_lt_of_eq (Nat.lt_succ_self n) (Nat.mul_one _).symm
    | cons d ds ih =>
      obtain ⟨hd, hrest⟩ := List.forall_mem_cons.mp h
      calc ds.foldl (fun n d => 16 * n + d) (16 * n + d)
          < (16 * n + d + 1) * Nat.pow 16 ds.length := ih hrest _
        _ ≤ ((n + 1) * 16) * Nat.pow 16 ds.length := Nat.mul_le_mul_right _ (by omega)
        _ = (n + 1) * (Nat.pow 16 ds.length * 16) := by
          rw [Nat.mul_assoc, Nat.mul_comm 16]
  exact Nat.lt_of_lt_of_eq (hread 0) (Nat.one_mul _)

/-- What is read fills four channels at most. -/
theorem read?_le {text : String} {n : Nat} (h : read? text = some n) : n ≤ 0xffffffff := by
  unfold read? at h
  split at h
  · rename_i ds hds
    have hdigits := hexValues_lt hds
    split at h
    · rename_i hlength
      obtain rfl := Option.some.inj h
      have hfull : ∀ d ∈ ds ++ [15, 15], d < 16 := by
        intro d hd
        rcases List.mem_append.mp hd with hd | hd
        · exact hdigits d hd
        · simp at hd
          omega
      have hlt := ofHexDigits_lt hfull
      rw [List.length_append, hlength] at hlt
      exact Nat.le_of_lt_succ hlt
    · split at h
      · rename_i hlength
        obtain rfl := Option.some.inj h
        have hlt := ofHexDigits_lt hdigits
        rw [hlength] at hlt
        exact Nat.le_of_lt_succ hlt
      · contradiction
  · contradiction

end Color
end Chip8
