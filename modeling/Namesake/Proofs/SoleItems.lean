import Namesake.Merge.Elimination
import Namesake.Proofs.SortedMap

/-! # Keys that occur once

While keyed items are gone through, what is stored about a key is told by the items it was met with
(`storedAbout`): from the second one on there is none to tell, and a third one does not bring it
back. So in the end a key has an item exactly if it occurs once, with that item
(`get?_soleItems_eq_some_iff`), and the order of the items does not matter. Pairing two lists by
their keys joins, in the order of the keys, the items of those that occur once on either side
(`discretePairs_join_single_keys`).
-/

namespace Namesake

variable {κ ι : Type} [KeyOrder κ] [DecidableEq κ]

/-- A key occurs exactly once among keyed items, with the given item. -/
structure OccursOnce (items : List (κ × ι)) (key : κ) (item : ι) : Prop where
  once : (items.map Prod.fst).count key = 1
  listed : (key, item) ∈ items

/-- The items that have a key, in order. -/
def itemsOf (items : List (κ × ι)) (key : κ) : List ι :=
  (items.filter fun e => e.1 = key).map Prod.snd

/-- What is stored about a key that was met with some items: nothing without any, the item if there
was one, and that there is none to tell if there were more. -/
def storedAbout : List ι → Option (Option ι)
  | [] => none
  | [only] => some (some only)
  | _ :: _ :: _ => some none

/-! ## One item after the other -/

/-- Another item of a key is stored if it is the first one. -/
theorem storedAbout_concat (met : List ι) (item : ι) :
    storedAbout (met ++ [item]) =
      some (if (storedAbout met).isSome then none else some item) := by
  cases met with
  | nil => rfl
  | cons first rest => cases rest <;> rfl

omit [KeyOrder κ] in
theorem itemsOf_cons (first : κ × ι) (rest : List (κ × ι)) (key : κ) :
    itemsOf (first :: rest) key =
      if first.1 = key then first.2 :: itemsOf rest key else itemsOf rest key := by
  by_cases same : first.1 = key <;> simp [itemsOf, same]

/-- An item changes what is stored about its key, and nothing else. -/
theorem get?_meetKey (m : SortedMap κ (Option ι)) (k key : κ) (item : ι) :
    (meetKey m k item).get? key =
      if k = key then some (if (m.get? k).isSome then none else some item) else m.get? key := by
  rw [meetKey, SortedMap.get?_insert]
  rfl

/-- Going through further items, what is stored about every key stays told by what it was met
with. -/
theorem get?_foldl_meetKey (items : List (κ × ι)) {met : κ → List ι} {m : SortedMap κ (Option ι)}
    (before : ∀ key, m.get? key = storedAbout (met key)) (key : κ) :
    (items.foldl (fun m e => meetKey m e.1 e.2) m).get? key =
      storedAbout (met key ++ itemsOf items key) := by
  induction items generalizing m met with
  | nil =>
      rw [List.foldl_nil, before]
      simp [itemsOf]
  | cons first rest ih =>
      let met' (key : κ) : List ι := if first.1 = key then met key ++ [first.2] else met key
      have step (key : κ) : (meetKey m first.1 first.2).get? key = storedAbout (met' key) := by
        rw [get?_meetKey]
        by_cases same : first.1 = key
        · simp only [met', same, if_true, before, storedAbout_concat]
        · simp only [met', same, if_false, before]
      rw [List.foldl_cons, ih step, itemsOf_cons]
      by_cases same : first.1 = key
      · simp [met', same]
      · simp [met', same]

/-! ## Keys with one item -/

omit [KeyOrder κ] in
/-- A key that has one item occurs once. -/
theorem itemsOf_eq_singleton_iff {items : List (κ × ι)} {key : κ} {item : ι} :
    itemsOf items key = [item] ↔ OccursOnce items key item := by
  have number : (items.map Prod.fst).count key = (itemsOf items key).length := by
    rw [itemsOf, List.length_map, ← List.countP_eq_length_filter, List.count, List.countP_map]
    rfl
  have listed (i : ι) : i ∈ itemsOf items key ↔ (key, i) ∈ items := by
    simp [itemsOf]
  constructor
  · intro alone
    refine ⟨?_, ?_⟩
    · rw [number, alone, List.length_singleton]
    · rw [← listed, alone]
      exact List.mem_singleton_self item
  · intro occurs
    obtain ⟨only, alone⟩ := List.length_eq_one_iff.mp (number.symm.trans occurs.once)
    have member : item ∈ itemsOf items key := (listed item).mpr occurs.listed
    rw [alone, List.mem_singleton] at member
    rw [alone, member]

/-- **A key has a sole item exactly if it occurs once, with that item.** -/
theorem get?_soleItems_eq_some_iff {items : List (κ × ι)} {key : κ} {item : ι} :
    (soleItems items).get? key = some item ↔ OccursOnce items key item := by
  have begun (key : κ) : (∅ : SortedMap κ (Option ι)).get? key = storedAbout ([] : List ι) :=
    SortedMap.get?_empty key
  rw [soleItems, SortedMap.get?_filterMap, get?_foldl_meetKey items begun, List.nil_append,
    ← itemsOf_eq_singleton_iff]
  cases itemsOf items key with
  | nil => simp [storedAbout]
  | cons first rest => cases rest <;> simp [storedAbout]

omit [KeyOrder κ] in
/-- How often a key occurs does not depend on the order. -/
theorem OccursOnce.perm {items items' : List (κ × ι)} {key : κ} {item : ι}
    (order : items'.Perm items) (occurs : OccursOnce items key item) :
    OccursOnce items' key item where
  once := ((order.map Prod.fst).count_eq key).trans occurs.once
  listed := order.mem_iff.mpr occurs.listed

/-- The sole items do not depend on the order either. -/
theorem soleItems_perm {items items' : List (κ × ι)} (order : items'.Perm items) :
    soleItems items' = soleItems items := by
  apply SortedMap.ext_get?
  intro key
  apply Option.ext
  intro item
  rw [get?_soleItems_eq_some_iff, get?_soleItems_eq_some_iff]
  exact ⟨fun occurs => occurs.perm order.symm, fun occurs => occurs.perm order⟩

/-! ## Pairs -/

section

variable {ι : Type}

/-- The pairs of the items that stand under one key on both sides, by their keys. -/
def joinedItems (old new : List (String × ι)) : SortedMap String (ι × ι) :=
  (soleItems new).filterMap fun key n => ((soleItems old).get? key).map fun o => (o, n)

theorem discretePairs_eq (old new : List (String × ι)) :
    discretePairs old new = (joinedItems old new).values := by
  rw [discretePairs, SortedMap.values, joinedItems, SortedMap.filterMap, List.map_filterMap]
  simp only [Option.map_map]
  rfl

theorem get?_joinedItems_eq_some_iff {old new : List (String × ι)} {key : String} {o n : ι} :
    (joinedItems old new).get? key = some (o, n) ↔ OccursOnce old key o ∧ OccursOnce new key n := by
  rw [joinedItems, SortedMap.get?_filterMap, ← get?_soleItems_eq_some_iff,
    ← get?_soleItems_eq_some_iff]
  simp [Option.bind_eq_some_iff, and_comm]

/-- **Discrete pairs join the keys that occur once on both sides.** They are the pairs of items
whose common key occurs exactly once in the one list and exactly once in the other, one pair for
each such key, and the keys increase from pair to pair. Putting either list in another order gives
the same pairs in the same order. -/
theorem discretePairs_join_single_keys (old new : List (String × ι)) :
    (∃ joined : List (String × ι × ι), discretePairs old new = joined.map Prod.snd ∧
      joined.Pairwise (fun a b => a.1 < b.1) ∧
      ∀ key o n, (key, o, n) ∈ joined ↔ OccursOnce old key o ∧ OccursOnce new key n) ∧
    ∀ old' new', old'.Perm old → new'.Perm new →
      discretePairs old' new' = discretePairs old new := by
  refine ⟨⟨(joinedItems old new).toList, discretePairs_eq old new, ?_, ?_⟩, ?_⟩
  · exact (joinedItems old new).sorted.imp of_decide_eq_true
  · intro key o n
    rw [SortedMap.mem_toList, get?_joinedItems_eq_some_iff]
  · intro old' new' order order'
    rw [discretePairs, discretePairs, soleItems_perm order, soleItems_perm order']

/-- A key that occurs three times on one side is dropped, like one that only one side has. -/
example : discretePairs [("J", 2), ("I", 1), ("J", 3), ("D", 5), ("J", 4), ("Z", 6)]
    [("Z", 60), ("J", 20), ("B", 30), ("I", 10)] = [(1, 10), (6, 60)] := by decide +kernel

end

end Namesake
