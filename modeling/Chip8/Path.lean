/-!
# Paths

A path is a root, if it is absolute, and the names that lead from there to a file. Empty names and
single dots are dropped when a path is read; double dots are kept. Exactly two leading slashes are a
root of their own.
-/

namespace Chip8

structure Path where
  /-- Nothing, or one or two slashes. -/
  root : String
  names : List String
  deriving DecidableEq

namespace Path

def split (s : List Char) : List (List Char) :=
  s.foldr
    (fun c names => match names with
      | [] => if c = '/' then [[], []] else [[c]]
      | name :: rest => if c = '/' then [] :: name :: rest else (c :: name) :: rest)
    []

def rootOf : List Char → String
  | '/' :: '/' :: '/' :: _ => "/"
  | '/' :: '/' :: _ => "//"
  | '/' :: _ => "/"
  | _ => ""

def ofString (text : String) : Path where
  root := rootOf text.toList
  names := ((split text.toList).map String.ofList).filter fun name => name ≠ "" ∧ name ≠ "."

/-- A path without a root and without names is the current directory, written as a dot. -/
def toString (p : Path) : String :=
  if p.root = "" ∧ p.names = [] then "." else p.root ++ String.intercalate "/" p.names

def name (p : Path) : String := p.names.getLast?.getD ""

/-- The part of a name in front of its last dot, unless that dot is its first or last character. -/
def stemOf (name : List Char) : List Char :=
  let extension := name.reverse.takeWhile (· != '.')
  let stem := name.take (name.length - extension.length - 1)
  if stem.isEmpty || extension.isEmpty || extension.length == name.length then name else stem

def stem (p : Path) : String := String.ofList (stemOf p.name.toList)

theorem mem_of_mem_split {s name : List Char} (hname : name ∈ split s) {c : Char}
    (hc : c ∈ name) : c ∈ s := by
  induction s generalizing name with
  | nil => simp [split] at hname
  | cons a s ih =>
    have hsplit : split (a :: s) = match split s with
        | [] => if a = '/' then [[], []] else [[a]]
        | first :: rest => if a = '/' then [] :: first :: rest else (a :: first) :: rest := rfl
    cases hs : split s with
    | nil =>
      by_cases ha : a = '/'
      · simp only [hsplit, hs, if_pos ha, List.mem_cons, List.not_mem_nil, or_false, or_self]
          at hname
        rw [hname] at hc
        contradiction
      · simp only [hsplit, hs, if_neg ha, List.mem_singleton] at hname
        rw [hname] at hc
        exact List.mem_singleton.mp hc ▸ List.mem_cons_self
    | cons first rest =>
      have hfirst : c ∈ first → c ∈ a :: s := fun h =>
        List.mem_cons_of_mem a (ih (hs ▸ List.mem_cons_self) h)
      have hrest : name ∈ rest → c ∈ a :: s := fun h =>
        List.mem_cons_of_mem a (ih (hs ▸ List.mem_cons_of_mem first h) hc)
      by_cases ha : a = '/'
      · simp only [hsplit, hs, if_pos ha] at hname
        rcases List.mem_cons.mp hname with rfl | hname
        · contradiction
        · rcases List.mem_cons.mp hname with rfl | hname
          · exact hfirst hc
          · exact hrest hname
      · simp only [hsplit, hs, if_neg ha] at hname
        rcases List.mem_cons.mp hname with rfl | hname
        · rcases List.mem_cons.mp hc with rfl | hc
          · exact List.mem_cons_self
          · exact hfirst hc
        · exact hrest hname

theorem mem_rootOf {s : List Char} {c : Char} (hc : c ∈ (rootOf s).toList) : c = '/' := by
  unfold rootOf at hc
  split at hc <;> simp at hc <;> exact hc

theorem mem_intercalate {names : List String} {c : Char}
    (hc : c ∈ ("/".intercalate names).toList) : c = '/' ∨ ∃ name ∈ names, c ∈ name.toList := by
  induction names with
  | nil => simp at hc
  | cons name names ih =>
    cases names with
    | nil =>
      rw [String.intercalate_singleton] at hc
      exact .inr ⟨name, List.mem_cons_self, hc⟩
    | cons next rest =>
      rw [String.intercalate_cons_cons, String.toList_append, String.toList_append] at hc
      rcases List.mem_append.mp hc with hc | hc
      · rcases List.mem_append.mp hc with hc | hc
        · exact .inr ⟨name, List.mem_cons_self, hc⟩
        · exact .inl (List.mem_singleton.mp hc)
      · rcases ih hc with hslash | ⟨later, hlater, hmem⟩
        · exact .inl hslash
        · exact .inr ⟨later, List.mem_cons_of_mem name hlater, hmem⟩

theorem mem_toString_ofString {text : String} {c : Char}
    (hc : c ∈ (ofString text).toString.toList) : c ∈ text.toList ∨ c = '/' ∨ c = '.' := by
  unfold toString at hc
  split at hc
  · exact .inr (.inr (List.mem_singleton.mp hc))
  · rw [String.toList_append] at hc
    rcases List.mem_append.mp hc with hroot | hnames
    · exact .inr (.inl (mem_rootOf hroot))
    · rcases mem_intercalate hnames with hslash | ⟨name, hname, hmem⟩
      · exact .inr (.inl hslash)
      · obtain ⟨chars, hchars, rfl⟩ := List.mem_map.mp (List.mem_filter.mp hname).1
        rw [String.toList_ofList] at hmem
        exact .inl (mem_of_mem_split hchars hmem)

end Path
end Chip8
