import Chip8.Failure

/-!
# Rows of bytes

Memory and the general registers are rows of bytes. A negative number counts a cell, or an end of a
block, from the end of the row. A block lies between its two ends and is empty where they cross.
What is put in the place of a block need not be as long as the block: the row then grows or shrinks.
-/

namespace Chip8

structure Bytes where
  cells : Array UInt8
  deriving DecidableEq

namespace Bytes

def blank (n : Nat) : Bytes := ⟨Array.replicate n 0⟩

def size (b : Bytes) : Nat := b.cells.size

def toList (b : Bytes) : List UInt8 := b.cells.toList

def get (b : Bytes) (k : Nat) : UInt8 := b.cells[k]?.getD 0

def set (b : Bytes) (k : Nat) (v : UInt8) : Bytes := ⟨b.cells.setIfInBounds k v⟩

/-- The cell that a number stands for. -/
def cell? (b : Bytes) (a : Int) : Option Nat :=
  let k := if a < 0 then a + b.size else a
  if 0 ≤ k ∧ k < b.size then some k.toNat else none

/-- A number put into the cell that another number stands for. -/
def store (b : Bytes) (a v : Int) : Except Failure Bytes :=
  if a < -wideLimit ∨ wideLimit ≤ a then .error .indexTooWide
  else if v < 0 ∨ 256 ≤ v then .error .notByte
  else
    match b.cell? a with
    | some k => .ok (b.set k (UInt8.ofNat v.toNat))
    | none => .error .byteMissing

def storeAll (b : Bytes) (a : Int) : List UInt8 → Except Failure Bytes
  | [] => .ok b
  | v :: vs => do (← b.store a v.toNat).storeAll (a + 1) vs

/-- Where an end of a block lies: in front of the row, behind it, or in between. -/
def bound (b : Bytes) (a : Int) : Nat := min (if a < 0 then a + b.size else a).toNat b.size

def between (b : Bytes) (start stop : Int) : List UInt8 :=
  (b.cells.extract (b.bound start) (b.bound stop)).toList

/-- The block of so many cells from a number on. -/
def block (b : Bytes) (a : Int) (n : Nat) : List UInt8 := b.between a (a + n)

/-- The row with other bytes in the place of the block of so many cells from a number on. -/
def replace (b : Bytes) (a : Int) (n : Nat) (new : List UInt8) : Bytes :=
  let start := b.bound a
  let stop := max start (b.bound (a + n))
  ⟨b.cells.extract 0 start ++ new.toArray ++ b.cells.extract stop b.size⟩

@[simp] theorem size_blank (n : Nat) : (blank n).size = n := by
  simp [size, blank]

@[simp] theorem get_blank (n k : Nat) : (blank n).get k = 0 := by
  simp only [get, blank, Array.getElem?_replicate]
  split <;> rfl

theorem get_of_le (b : Bytes) {k : Nat} (h : b.size ≤ k) : b.get k = 0 := by
  simp [get, Array.getElem?_eq_none h]

@[simp] theorem size_set (b : Bytes) (k : Nat) (v : UInt8) : (b.set k v).size = b.size := by
  simp [size, set]

theorem get_set (b : Bytes) (k : Nat) (v : UInt8) (j : Nat) :
    (b.set k v).get j = if k = j ∧ j < b.size then v else b.get j := by
  by_cases hj : j < b.size
  · by_cases h : k = j
    · subst h
      have hj' : k < b.cells.size := hj
      simp [get, set, hj, hj']
    · simp [get, set, h, Array.getElem?_setIfInBounds_ne]
  · rw [get_of_le _ (by simp; omega), get_of_le _ (by omega)]
    simp [hj]

theorem get_set_self (b : Bytes) {k : Nat} (v : UInt8) (h : k < b.size) :
    (b.set k v).get k = v := by
  simp [get_set, h]

theorem get_set_of_ne (b : Bytes) {k j : Nat} (v : UInt8) (h : k ≠ j) :
    (b.set k v).get j = b.get j := by
  simp [get_set, h]

theorem cell?_of_lt (b : Bytes) {k : Nat} (h : k < b.size) : b.cell? k = some k := by
  have h₀ : ¬(k : Int) < 0 := by omega
  simp [cell?, h₀, h]

theorem bound_of_le (b : Bytes) {k : Nat} (h : k ≤ b.size) : b.bound k = k := by
  have h₀ : ¬(k : Int) < 0 := by omega
  simp [bound, h₀, h]

@[ext] theorem ext {b c : Bytes} (hsize : b.size = c.size)
    (hget : ∀ k, k < b.size → b.get k = c.get k) : b = c := by
  obtain ⟨cells⟩ := b
  obtain ⟨cells'⟩ := c
  congr 1
  apply Array.ext hsize
  intro k hk hk'
  simpa [get, hk, hk'] using hget k hk

theorem block_eq (b : Bytes) {a n : Nat} (h : a + n ≤ b.size) :
    b.block a n = (List.range n).map fun j => b.get (a + j) := by
  have hstart : b.bound a = a := b.bound_of_le (by omega)
  have hstop : b.bound (a + n) = a + n := by
    have := b.bound_of_le h
    rwa [Int.natCast_add] at this
  have hs : a + n ≤ b.cells.size := h
  simp only [block, between, hstart, hstop]
  apply List.ext_getElem
  · simp; omega
  · intro j hj hj'
    have hj₂ : j < n := by simpa using hj'
    have hlt : a + j < b.cells.size := by omega
    simp [get, hlt]

theorem length_block (b : Bytes) {a n : Nat} (h : a + n ≤ b.size) : (b.block a n).length = n := by
  rw [b.block_eq h, List.length_map, List.length_range]

theorem size_replace (b : Bytes) {a n : Nat} {new : List UInt8} (h : a + n ≤ b.size)
    (hn : new.length = n) : (b.replace a n new).size = b.size := by
  have hstart : b.bound a = a := b.bound_of_le (by omega)
  have hstop : b.bound (a + n) = a + n := by
    have := b.bound_of_le h
    rwa [Int.natCast_add] at this
  have hs : a + n ≤ b.cells.size := h
  simp only [replace, hstart, hstop, size, Array.size_append, Array.size_extract,
    List.size_toArray, hn]
  omega

/-- A block inside the row that is replaced by as many bytes holds them; nothing else changes. -/
theorem get_replace (b : Bytes) {a n : Nat} {new : List UInt8} (h : a + n ≤ b.size)
    (hn : new.length = n) (k : Nat) :
    (b.replace a n new).get k =
      if a ≤ k ∧ k < a + n then new[k - a]?.getD 0 else b.get k := by
  have hstart : b.bound a = a := b.bound_of_le (by omega)
  have hstop : b.bound (a + n) = a + n := by
    have := b.bound_of_le h
    rwa [Int.natCast_add] at this
  have hs : a + n ≤ b.cells.size := h
  have hmax : max a (a + n) = a + n := by omega
  have ha : min a b.cells.size = a := by omega
  simp only [replace, get, hstart, hstop, hmax, size, Array.getElem?_append, Array.size_append,
    Array.size_extract, List.size_toArray, hn, ha, Nat.sub_zero]
  by_cases h₁ : k < a
  · have hk : k < a + n := by omega
    have hnot : ¬(a ≤ k ∧ k < a + n) := by omega
    rw [if_pos hk, if_pos h₁, if_neg hnot, Array.getElem?_extract]
    simp [h₁, ha]
  · by_cases h₂ : k < a + n
    · have hin : a ≤ k ∧ k < a + n := by omega
      rw [if_pos h₂, if_neg h₁, if_pos hin]
      simp
    · have hnot : ¬(a ≤ k ∧ k < a + n) := by omega
      rw [if_neg h₂, if_neg hnot, Array.getElem?_extract]
      have hk : a + n + (k - (a + n)) = k := by omega
      by_cases h₃ : k < b.cells.size
      · have hlt : k - (a + n) < b.cells.size - (a + n) := by omega
        simp [hlt, hk]
      · have hge : ¬k - (a + n) < b.cells.size - (a + n) := by omega
        simp [hge, Array.getElem?_eq_none (show b.cells.size ≤ k by omega)]

theorem get_replace_block (b c : Bytes) {a a' n : Nat} (h : a + n ≤ b.size) (h' : a' + n ≤ c.size)
    (k : Nat) :
    (b.replace a n (c.block a' n)).get k =
      if a ≤ k ∧ k < a + n then c.get (a' + (k - a)) else b.get k := by
  rw [b.get_replace h (c.length_block h')]
  split
  · rename_i hin
    have hk : k - a < n := by omega
    simp [c.block_eq h', hk]
  · rfl

theorem replace_nil (b : Bytes) {a : Nat} (h : a ≤ b.size) : b.replace a 0 [] = b := by
  apply ext
  · exact b.size_replace (n := 0) (by omega) rfl
  · intro k _
    rw [b.get_replace (n := 0) (by omega) rfl, if_neg (by omega)]

/-- The bytes in front of a block inside the row, those in its place, and the bytes behind it. -/
theorem toList_replace (b : Bytes) {a n : Nat} (new : List UInt8) (h : a + n ≤ b.size) :
    (b.replace a n new).toList = b.toList.take a ++ new ++ b.toList.drop (a + n) := by
  have hstart : b.bound a = a := b.bound_of_le (by omega)
  have hstop : b.bound (a + n) = a + n := by
    have := b.bound_of_le h
    rwa [Int.natCast_add] at this
  have hmax : max a (a + n) = a + n := by omega
  simp only [replace, toList, hstart, hstop, hmax, Array.toList_append, Array.toList_extract,
    List.extract_eq_take_drop, List.drop_zero, Nat.sub_zero]
  congr 1
  exact List.take_of_length_le (by rw [List.length_drop]; exact Nat.le_refl _)

theorem store_eq (b : Bytes) {a : Nat} (v : UInt8) (h : a < b.size)
    (hsize : b.size ≤ wideLimit) : b.store a v.toNat = .ok (b.set a v) := by
  have hv := v.toNat_lt
  have hwide : ¬((a : Int) < -wideLimit ∨ wideLimit ≤ (a : Int)) := by
    simp only [wideLimit] at hsize ⊢
    omega
  have hbyte : ¬((v.toNat : Int) < 0 ∨ 256 ≤ (v.toNat : Int)) := by omega
  simp only [store, if_neg hwide, if_neg hbyte, b.cell?_of_lt h, Int.toNat_natCast,
    UInt8.ofNat_toNat]

/-- Bytes stored one after the other stand in the place of the block that they cover. -/
theorem storeAll_eq (b : Bytes) {a : Nat} (vs : List UInt8) (h : a + vs.length ≤ b.size)
    (hsize : b.size ≤ wideLimit) : b.storeAll a vs = .ok (b.replace a vs.length vs) := by
  induction vs generalizing b a with
  | nil => exact congrArg Except.ok (b.replace_nil (by simpa using h)).symm
  | cons v vs ih =>
    have hlen : (v :: vs).length = vs.length + 1 := rfl
    have hset : (b.set a v).size = b.size := b.size_set a v
    have hrest : a + 1 + vs.length ≤ (b.set a v).size := by omega
    have hih := ih (b.set a v) hrest (by omega)
    rw [storeAll, b.store_eq v (by omega) hsize]
    show (b.set a v).storeAll ((a + 1 : Nat) : Int) vs = _
    rw [hih]
    congr 1
    apply ext
    · rw [size_replace _ hrest rfl, hset, b.size_replace h rfl]
    · intro k hk
      rw [size_replace _ hrest rfl, hset] at hk
      rw [get_replace _ hrest rfl, b.get_replace h rfl, get_set]
      by_cases hka : a = k
      · subst hka
        rw [if_neg (by omega), if_pos ⟨rfl, hk⟩, if_pos ⟨by omega, by omega⟩]
        simp
      · rw [if_neg (show ¬(a = k ∧ k < b.size) from fun h => hka h.1)]
        by_cases hin : a + 1 ≤ k ∧ k < a + 1 + vs.length
        · rw [if_pos hin, if_pos ⟨by omega, by omega⟩, show k - a = k - (a + 1) + 1 by omega,
            List.getElem?_cons_succ]
        · rw [if_neg hin, if_neg (by omega)]

end Bytes
end Chip8
