import Namesake.SortedMap.KeyOrder

/-! # Sorted maps

A finite map kept as the list of its entries in key order, so that two maps with the same entries
are equal and every enumeration comes out sorted. `get?` is the view every operation is described
by; `toList` is the enumeration.
-/

namespace Namesake

open KeyOrder (before)

/-- A finite map whose entries stand in strictly increasing key order. -/
structure SortedMap (κ : Type) [KeyOrder κ] (ν : Type) where
  /-- The entries, smallest key first. -/
  toList : List (κ × ν)
  sorted : toList.Pairwise fun a b => before a.1 b.1 = true

namespace SortedMap

variable {κ ν ω : Type} [KeyOrder κ]

@[ext]
theorem ext {m m' : SortedMap κ ν} (h : m.toList = m'.toList) : m = m' := by
  cases m; cases m'; simp_all

instance [DecidableEq κ] [DecidableEq ν] : DecidableEq (SortedMap κ ν) := fun m m' =>
  decidable_of_iff (m.toList = m'.toList) ⟨SortedMap.ext, fun h => h ▸ rfl⟩

/-- The map without entries. -/
def empty : SortedMap κ ν := ⟨[], .nil⟩

instance : EmptyCollection (SortedMap κ ν) := ⟨empty⟩
instance : Inhabited (SortedMap κ ν) := ⟨empty⟩

/-- Search of a sorted entry list. -/
def lookup (k : κ) : List (κ × ν) → Option ν
  | [] => none
  | (k', v) :: rest =>
    if before k' k then lookup k rest else if before k k' then none else some v

/-- The value stored under a key. -/
def get? (m : SortedMap κ ν) (k : κ) : Option ν := lookup k m.toList

/-- Whether a key has a value. -/
def contains (m : SortedMap κ ν) (k : κ) : Bool := (m.get? k).isSome

/-- The value stored under a key, or a default. -/
def getD (m : SortedMap κ ν) (k : κ) (default : ν) : ν := (m.get? k).getD default

/-- The keys in increasing order. -/
def keys (m : SortedMap κ ν) : List κ := m.toList.map Prod.fst

/-- The values in the order of their keys. -/
def values (m : SortedMap κ ν) : List ν := m.toList.map Prod.snd

/-- The number of entries. -/
def size (m : SortedMap κ ν) : Nat := m.toList.length

/-- Whether there is no entry. -/
def isEmpty (m : SortedMap κ ν) : Bool := m.toList.isEmpty

/-- Put an entry at its place, replacing the one that has its key. -/
def insertEntry (k : κ) (v : ν) : List (κ × ν) → List (κ × ν)
  | [] => [(k, v)]
  | (k', v') :: rest =>
    if before k' k then (k', v') :: insertEntry k v rest
    else if before k k' then (k, v) :: (k', v') :: rest
    else (k, v) :: rest

theorem fst_of_mem_insertEntry {k : κ} {v : ν} {l : List (κ × ν)} {e : κ × ν}
    (h : e ∈ insertEntry k v l) : e.1 = k ∨ e ∈ l := by
  induction l with
  | nil => simp_all [insertEntry]
  | cons hd tl ih =>
    obtain ⟨k', v'⟩ := hd
    rw [insertEntry] at h
    split at h
    · rcases List.mem_cons.1 h with rfl | h
      · exact .inr (by simp)
      · exact (ih h).imp_right fun h => List.mem_cons_of_mem _ h
    · split at h
      · rcases List.mem_cons.1 h with rfl | h
        · exact .inl rfl
        · exact .inr h
      · rcases List.mem_cons.1 h with rfl | h
        · exact .inl rfl
        · exact .inr (List.mem_cons_of_mem _ h)

theorem sorted_insertEntry (k : κ) (v : ν) {l : List (κ × ν)}
    (h : l.Pairwise fun a b => before a.1 b.1 = true) :
    (insertEntry k v l).Pairwise fun a b => before a.1 b.1 = true := by
  induction l with
  | nil => simp [insertEntry]
  | cons hd tl ih =>
    obtain ⟨k', v'⟩ := hd
    have ⟨first, tail⟩ := List.pairwise_cons.1 h
    rw [insertEntry]
    split
    · next lower =>
      refine List.pairwise_cons.2 ⟨fun e he => ?_, ih tail⟩
      rcases fst_of_mem_insertEntry he with hk | he
      · rw [hk]; exact lower
      · exact first e he
    · next notLower =>
      split
      · next higher =>
        refine List.pairwise_cons.2 ⟨fun e he => ?_, h⟩
        rcases List.mem_cons.1 he with rfl | he
        · exact higher
        · exact KeyOrder.trans higher (first e he)
      · next notHigher =>
        have same : k = k' := KeyOrder.connex (by simpa using notHigher) (by simpa using notLower)
        exact List.pairwise_cons.2 ⟨fun e he => by rw [same]; exact first e he, tail⟩

/-- Store a value under a key, replacing what was there. -/
def insert (m : SortedMap κ ν) (k : κ) (v : ν) : SortedMap κ ν :=
  ⟨insertEntry k v m.toList, sorted_insertEntry k v m.sorted⟩

/-- Keep the entries that satisfy a test. -/
def filter (m : SortedMap κ ν) (keep : κ → ν → Bool) : SortedMap κ ν :=
  ⟨m.toList.filter fun e => keep e.1 e.2, m.sorted.filter _⟩

/-- Remove the entry of a key. -/
def erase [DecidableEq κ] (m : SortedMap κ ν) (k : κ) : SortedMap κ ν :=
  m.filter fun k' _ => k' ≠ k

/-- Change every value, keeping the keys. -/
def mapValues (m : SortedMap κ ν) (f : κ → ν → ω) : SortedMap κ ω :=
  ⟨m.toList.map fun e => (e.1, f e.1 e.2), m.sorted.map _ fun _ _ h => h⟩

/-- Change every value or drop its entry, keeping the other keys. -/
def filterMap (m : SortedMap κ ν) (f : κ → ν → Option ω) : SortedMap κ ω where
  toList := m.toList.filterMap fun e => (f e.1 e.2).map (e.1, ·)
  sorted := by
    refine List.pairwise_filterMap.2 (m.sorted.imp fun {a b} h x hx y hy => ?_)
    obtain ⟨v, -, rfl⟩ := Option.map_eq_some_iff.1 hx
    obtain ⟨w, -, rfl⟩ := Option.map_eq_some_iff.1 hy
    exact h

/-- Change the value of a key that has one. -/
def modify (m : SortedMap κ ν) (k : κ) (f : ν → ν) : SortedMap κ ν :=
  match m.get? k with
  | none => m
  | some v => m.insert k (f v)

/-- The map of a list of entries, later ones replacing earlier ones of the same key. -/
def ofList (entries : List (κ × ν)) : SortedMap κ ν :=
  entries.foldl (fun m e => m.insert e.1 e.2) ∅

end SortedMap

end Namesake
