import Namesake.SortedMap.Basic

/-! # Laws of sorted maps

Each operation is described by what it does to `get?`. The entries of a map are exactly what `get?`
answers (`mem_toList`), so two maps with the same answers are equal (`ext_get?`).
-/

namespace Namesake.SortedMap

open KeyOrder (before)

variable {κ ν ω : Type} [KeyOrder κ]

@[simp]
theorem get?_empty (k : κ) : (∅ : SortedMap κ ν).get? k = none := rfl

private theorem lookup_eq_some_iff {k : κ} {v : ν} {l : List (κ × ν)}
    (h : l.Pairwise fun a b => before a.1 b.1 = true) : lookup k l = some v ↔ (k, v) ∈ l := by
  induction l with
  | nil => simp [lookup]
  | cons hd tl ih =>
    obtain ⟨k', v'⟩ := hd
    have ⟨first, tail⟩ := List.pairwise_cons.1 h
    rw [lookup]
    split
    · next lower =>
      rw [ih tail]
      have : k ≠ k' := (KeyOrder.ne_of_before lower).symm
      simp [this]
    · next notLower =>
      split
      · next higher =>
        have notIn : (k, v) ∉ tl := fun he => by
          simpa [KeyOrder.asymm higher] using first _ he
        have : k ≠ k' := KeyOrder.ne_of_before higher
        simp [this, notIn]
      · next notHigher =>
        have same : k = k' := KeyOrder.connex (by simpa using notHigher) (by simpa using notLower)
        subst same
        have notIn : (k, v) ∉ tl := fun he => by
          simpa [KeyOrder.irrefl] using first _ he
        simp [notIn, eq_comm]

/-- The entries are what `get?` answers. -/
theorem mem_toList {m : SortedMap κ ν} {k : κ} {v : ν} :
    (k, v) ∈ m.toList ↔ m.get? k = some v :=
  (lookup_eq_some_iff m.sorted).symm

theorem lookup_insertEntry_self (k : κ) (v : ν) (l : List (κ × ν)) :
    lookup k (insertEntry k v l) = some v := by
  induction l with
  | nil => simp [insertEntry, lookup, KeyOrder.irrefl]
  | cons hd tl ih =>
    obtain ⟨k', v'⟩ := hd
    rw [insertEntry]
    split
    · next lower => simp [lookup, lower, ih]
    · split <;> simp [lookup, KeyOrder.irrefl]

theorem lookup_insertEntry_of_ne {k k' : κ} (v : ν) (h : k ≠ k') (l : List (κ × ν)) :
    lookup k' (insertEntry k v l) = lookup k' l := by
  have apart : before k k' = false → before k' k = true := fun h₁ => by
    cases h₂ : before k' k with
    | true => rfl
    | false => exact absurd (KeyOrder.connex h₁ h₂) h
  induction l with
  | nil =>
    by_cases h₁ : before k k' = true
    · simp [insertEntry, lookup, h₁]
    · simp [insertEntry, lookup, h₁, apart (by simpa using h₁)]
  | cons hd tl ih =>
    obtain ⟨c, v'⟩ := hd
    rw [insertEntry]
    split
    · simp [lookup, ih]
    · next notLower =>
      split
      · next higher =>
        rw [lookup]
        by_cases h₁ : before k k' = true
        · simp [h₁]
        · have h₂ := apart (by simpa using h₁)
          simp [h₁, h₂, lookup, KeyOrder.trans h₂ higher, KeyOrder.asymm (KeyOrder.trans h₂ higher)]
      · next notHigher =>
        have same : k = c := KeyOrder.connex (by simpa using notHigher) (by simpa using notLower)
        subst same
        cases h₁ : before k k' with
        | true => simp [lookup, h₁]
        | false => simp [lookup, h₁, apart h₁]

@[simp]
theorem get?_insert_self (m : SortedMap κ ν) (k : κ) (v : ν) : (m.insert k v).get? k = some v :=
  lookup_insertEntry_self k v m.toList

theorem get?_insert_of_ne (m : SortedMap κ ν) {k k' : κ} (v : ν) (h : k ≠ k') :
    (m.insert k v).get? k' = m.get? k' :=
  lookup_insertEntry_of_ne v h m.toList

theorem get?_insert [DecidableEq κ] (m : SortedMap κ ν) (k k' : κ) (v : ν) :
    (m.insert k v).get? k' = if k = k' then some v else m.get? k' := by
  split
  · next h => subst h; exact get?_insert_self m k v
  · next h => exact get?_insert_of_ne m v h

/-- Maps with the same answers are equal. -/
theorem ext_get? {m m' : SortedMap κ ν} (h : ∀ k, m.get? k = m'.get? k) : m = m' := by
  have same : ∀ e, e ∈ m.toList ↔ e ∈ m'.toList := fun ⟨k, v⟩ => by
    rw [mem_toList, mem_toList, h]
  apply SortedMap.ext
  obtain ⟨l, hl⟩ := m
  obtain ⟨l', hl'⟩ := m'
  simp only at same ⊢
  clear h
  induction l generalizing l' with
  | nil =>
    cases l' with
    | nil => rfl
    | cons e _ => exact absurd ((same e).2 (by simp)) (by simp)
  | cons e l ih =>
    cases l' with
    | nil => exact absurd ((same e).1 (by simp)) (by simp)
    | cons e' l' =>
      have ⟨first, tail⟩ := List.pairwise_cons.1 hl
      have ⟨first', tail'⟩ := List.pairwise_cons.1 hl'
      have heads : e = e' := by
        rcases List.mem_cons.1 ((same e).1 (by simp)) with h | h
        · exact h
        rcases List.mem_cons.1 ((same e').2 (by simp)) with h' | h'
        · exact h'.symm
        · simpa [KeyOrder.asymm (first _ h')] using first' _ h
      subst heads
      rw [ih tail l' tail' fun x => ?_]
      constructor
      · intro hx
        rcases List.mem_cons.1 ((same x).1 (List.mem_cons_of_mem _ hx)) with h | h
        · subst h; simpa [KeyOrder.irrefl] using first _ hx
        · exact h
      · intro hx
        rcases List.mem_cons.1 ((same x).2 (List.mem_cons_of_mem _ hx)) with h | h
        · subst h; simpa [KeyOrder.irrefl] using first' _ hx
        · exact h

theorem get?_filter (m : SortedMap κ ν) (keep : κ → ν → Bool) (k : κ) :
    (m.filter keep).get? k = (m.get? k).filter (keep k) := by
  apply Option.ext
  intro v
  rw [← mem_toList]
  simp only [filter, List.mem_filter, Option.filter_eq_some_iff]
  rw [mem_toList]

theorem get?_erase [DecidableEq κ] (m : SortedMap κ ν) (k k' : κ) :
    (m.erase k).get? k' = if k' = k then none else m.get? k' := by
  rw [erase, get?_filter]
  split
  · next h => simp [h]
  · next h => cases m.get? k' <;> simp [h]

theorem get?_mapValues (m : SortedMap κ ν) (f : κ → ν → ω) (k : κ) :
    (m.mapValues f).get? k = (m.get? k).map (f k) := by
  obtain ⟨l, h⟩ := m
  simp only [get?, mapValues]
  clear h
  induction l with
  | nil => rfl
  | cons e l ih =>
    simp only [List.map_cons, lookup]
    split
    · exact ih
    · split
      · rfl
      · next notLower notHigher =>
        have same : k = e.1 := KeyOrder.connex (by simpa using notHigher) (by simpa using notLower)
        simp [same]

theorem contains_iff {m : SortedMap κ ν} {k : κ} : m.contains k = true ↔ ∃ v, m.get? k = some v :=
  Option.isSome_iff_exists

end Namesake.SortedMap
