import Mathlib.Data.List.Perm.Subperm
import Namesake.SortedMap.Lemmas

/-! # Views of sorted maps

What the derived operations of a sorted map do to `get?`, which keys and values a map enumerates,
and how many entries it has. A map is as large as its list of keys, and this list has no
repetitions, so the size of a map is bounded by any universe its keys are taken from.
-/

namespace Namesake.SortedMap

variable {κ ν ω : Type} [KeyOrder κ]

/-! ## Membership -/

theorem contains_eq_false_iff {m : SortedMap κ ν} {k : κ} :
    m.contains k = false ↔ m.get? k = none := by
  rw [contains, Option.isSome_eq_false_iff, Option.isNone_iff_eq_none]

theorem contains_of_get? {m : SortedMap κ ν} {k : κ} {v : ν} (found : m.get? k = some v) :
    m.contains k = true :=
  contains_iff.mpr ⟨v, found⟩

theorem mem_values {m : SortedMap κ ν} {v : ν} : v ∈ m.values ↔ ∃ k, m.get? k = some v := by
  rw [values, List.mem_map]
  constructor
  · rintro ⟨⟨k, w⟩, member, rfl⟩
    exact ⟨k, mem_toList.mp member⟩
  · rintro ⟨k, found⟩
    exact ⟨(k, v), mem_toList.mpr found, rfl⟩

theorem mem_keys {m : SortedMap κ ν} {k : κ} : k ∈ m.keys ↔ m.contains k = true := by
  rw [keys, List.mem_map, contains_iff]
  constructor
  · rintro ⟨⟨k', v⟩, member, rfl⟩
    exact ⟨v, mem_toList.mp member⟩
  · rintro ⟨v, found⟩
    exact ⟨(k, v), mem_toList.mpr found, rfl⟩

/-- A map without answers is empty. -/
theorem eq_empty_iff {m : SortedMap κ ν} : m = ∅ ↔ ∀ k, m.get? k = none := by
  constructor
  · rintro rfl k
    exact get?_empty k
  · intro silent
    exact ext_get? fun k => (silent k).trans (get?_empty k).symm

/-! ## Answers of the derived operations -/

/-- Storing what is there already changes nothing. -/
theorem insert_of_get? [DecidableEq κ] {m : SortedMap κ ν} {k : κ} {v : ν}
    (found : m.get? k = some v) : m.insert k v = m := by
  apply ext_get?
  intro k'
  rw [get?_insert]
  split_ifs with same
  · rw [← same, found]
  · rfl

theorem contains_insert [DecidableEq κ] (m : SortedMap κ ν) (k k' : κ) (v : ν) :
    (m.insert k v).contains k' = (decide (k = k') || m.contains k') := by
  rw [contains, get?_insert]
  by_cases same : k = k'
  · simp [same]
  · simp [same, contains]

theorem get?_modify [DecidableEq κ] (m : SortedMap κ ν) (k k' : κ) (f : ν → ν) :
    (m.modify k f).get? k' = if k = k' then (m.get? k').map f else m.get? k' := by
  unfold modify
  cases found : m.get? k with
  | none =>
      by_cases same : k = k'
      · subst same
        simp [found]
      · simp [same]
  | some v =>
      rw [get?_insert]
      by_cases same : k = k'
      · subst same
        simp [found]
      · simp [same]

theorem contains_filter_key {m : SortedMap κ ν} {keep : κ → Bool} {k : κ} :
    (m.filter fun k' _ => keep k').contains k = (m.contains k && keep k) := by
  rw [contains, get?_filter, contains]
  cases m.get? k with
  | none => rfl
  | some v => cases keep k <;> simp

theorem get?_filterMap (m : SortedMap κ ν) (f : κ → ν → Option ω) (k : κ) :
    (m.filterMap f).get? k = (m.get? k).bind (f k) := by
  apply Option.ext
  intro w
  rw [← mem_toList, Option.bind_eq_some_iff]
  simp only [filterMap, List.mem_filterMap, Option.map_eq_some_iff, Prod.mk.injEq]
  constructor
  · rintro ⟨⟨k', v⟩, member, w', kept, rfl, rfl⟩
    exact ⟨v, mem_toList.mp member, kept⟩
  · rintro ⟨v, found, kept⟩
    exact ⟨(k, v), mem_toList.mpr found, w, kept, rfl, rfl⟩

/-! ## Many keys at once -/

/-- A value that is put under several keys is found under each of them. -/
theorem get?_foldl_insert [DecidableEq κ] (keys : List κ) (v : ν) (m : SortedMap κ ν) (k : κ) :
    (keys.foldl (fun m k => m.insert k v) m).get? k = if k ∈ keys then some v else m.get? k := by
  induction keys generalizing m with
  | nil => rfl
  | cons first rest ih =>
      rw [List.foldl_cons, ih, get?_insert]
      by_cases later : k ∈ rest
      · rw [if_pos later, if_pos (List.mem_cons_of_mem first later)]
      · simp only [later, if_false, List.mem_cons, or_false, eq_comm]

/-- A key that stands for one value only finds it in the map of a list. -/
theorem get?_ofList_of_mem [DecidableEq κ] {entries : List (κ × ν)} {key : κ} {value : ν}
    (member : (key, value) ∈ entries) (only : ∀ v, (key, v) ∈ entries → v = value) :
    (ofList entries).get? key = some value := by
  have found : ∀ (entries : List (κ × ν)) (m : SortedMap κ ν),
      (∀ v, (key, v) ∈ entries → v = value) →
      (key, value) ∈ entries ∨ m.get? key = some value →
      (entries.foldl (fun m e => m.insert e.1 e.2) m).get? key = some value := by
    intro entries
    induction entries with
    | nil => exact fun m _ found => found.resolve_left (List.not_mem_nil)
    | cons first rest ih =>
        intro m only found
        apply ih _ (fun v later => only v (List.mem_cons_of_mem _ later))
        rw [get?_insert]
        split_ifs with here
        · right
          rw [only first.2 (here ▸ List.mem_cons_self)]
        · rcases found with found | found
          · rcases List.mem_cons.mp found with same | later
            · exact (here (congrArg Prod.fst same).symm).elim
            · exact .inl later
          · exact .inr found
  exact found entries ∅ only (.inl member)

/-- Where each step of a fold over items gives a key a value by the item of that key alone, the item
is in the list. -/
theorem mem_of_foldl {ι : Type} {step : SortedMap κ ω → κ × ι → SortedMap κ ω} {key : κ} {item : ι}
    {value : ω} (items : List (κ × ι)) (m : SortedMap κ ω)
    (given : ∀ m e, (step m e).get? key = some value → m.get? key = some value ∨ (key, item) = e)
    (found : (items.foldl step m).get? key = some value) :
    m.get? key = some value ∨ (key, item) ∈ items := by
  induction items generalizing m with
  | nil => exact .inl found
  | cons first rest ih =>
      rcases ih (step m first) found with before | later
      · rcases given m first before with before | rfl
        · exact .inl before
        · exact .inr List.mem_cons_self
      · exact .inr (List.mem_cons_of_mem first later)

/-- An entry of the map of a list is in the list. -/
theorem mem_of_ofList [DecidableEq κ] {entries : List (κ × ν)} {key : κ} {value : ν}
    (found : (ofList entries).get? key = some value) : (key, value) ∈ entries := by
  refine (mem_of_foldl entries ∅ ?_ found).resolve_left nofun
  intro m e inserted
  rw [get?_insert] at inserted
  split_ifs at inserted with same
  · obtain rfl := Option.some.inj inserted
    exact .inr (Prod.ext same.symm rfl)
  · exact .inl inserted

/-- A map is the map of its own list. -/
theorem ofList_toList [DecidableEq κ] (m : SortedMap κ ν) : ofList m.toList = m := by
  apply ext_get?
  intro k
  cases found : m.get? k with
  | none =>
      rw [Option.eq_none_iff_forall_ne_some]
      intro v stored
      rw [mem_toList.mp (mem_of_ofList stored)] at found
      cases found
  | some v =>
      apply get?_ofList_of_mem (mem_toList.mpr found)
      intro v' member
      rw [mem_toList, found] at member
      exact (Option.some.inj member).symm

/-! ## Size -/

/-- The keys come in strictly increasing order. -/
theorem keys_pairwise (m : SortedMap κ ν) :
    m.keys.Pairwise fun k k' => KeyOrder.before k k' = true :=
  m.sorted.map _ fun _ _ ordered => ordered

theorem keys_nodup (m : SortedMap κ ν) : m.keys.Nodup :=
  m.keys_pairwise.imp KeyOrder.ne_of_before

theorem length_keys (m : SortedMap κ ν) : m.keys.length = m.size := by
  rw [keys, size, List.length_map]

/-- A map whose keys come from a list has at most as many entries. -/
theorem size_le_of_keys_subset {m : SortedMap κ ν} {pool : List κ}
    (inside : ∀ k, m.contains k = true → k ∈ pool) : m.size ≤ pool.length := by
  rw [← length_keys]
  apply List.Subperm.length_le
  apply List.subperm_of_subset m.keys_nodup
  intro k member
  exact inside k (mem_keys.mp member)

theorem nodup_toList (m : SortedMap κ ν) : m.toList.Nodup :=
  m.sorted.imp fun {_ _} ordered same => KeyOrder.ne_of_before ordered (congrArg Prod.fst same)

/-- An entry and the others make up a map. -/
theorem perm_toList_of_get? [DecidableEq κ] {m : SortedMap κ ν} {k : κ} {v : ν}
    (found : m.get? k = some v) : m.toList.Perm ((k, v) :: (m.erase k).toList) := by
  have apart : (k, v) ∉ (m.erase k).toList := by
    rw [mem_toList, get?_erase, if_pos rfl]
    exact nofun
  rw [List.perm_ext_iff_of_nodup m.nodup_toList
    (List.nodup_cons.mpr ⟨apart, (m.erase k).nodup_toList⟩)]
  rintro ⟨k', v'⟩
  rw [List.mem_cons, mem_toList, mem_toList, get?_erase, Prod.mk.injEq]
  by_cases same : k' = k
  · subst same
    simp [found, eq_comm]
  · simp [same]

/-- A value is stored once exactly if it is stored under one key only. -/
theorem count_values_eq_one_iff [DecidableEq κ] [DecidableEq ν] {m : SortedMap κ ν} {k : κ} {v : ν}
    (found : m.get? k = some v) : m.values.count v = 1 ↔ ∀ k', m.get? k' = some v → k' = k := by
  have values : m.values.Perm (v :: (m.erase k).values) := (perm_toList_of_get? found).map Prod.snd
  rw [values.count_eq, List.count_cons_self, Nat.add_eq_right, List.count_eq_zero, mem_values,
    not_exists]
  refine forall_congr' fun k' => ?_
  rw [get?_erase]
  by_cases same : k' = k
  · simp [same]
  · simp [same]

/-- A new key makes a map larger by one entry. -/
theorem size_insert_of_not_contains [DecidableEq κ] {m : SortedMap κ ν} {k : κ} (v : ν)
    (fresh : m.contains k = false) : (m.insert k v).size = m.size + 1 := by
  have grown : (m.insert k v).keys.Perm (k :: m.keys) := by
    have absent : k ∉ m.keys := by
      rw [mem_keys, fresh]
      exact Bool.false_ne_true
    rw [List.perm_ext_iff_of_nodup (m.insert k v).keys_nodup
      (List.nodup_cons.mpr ⟨absent, m.keys_nodup⟩)]
    intro k'
    rw [mem_keys, contains_insert, List.mem_cons, mem_keys, Bool.or_eq_true, decide_eq_true_eq,
      eq_comm]
  rw [← length_keys, grown.length_eq, List.length_cons, length_keys]

end Namesake.SortedMap
