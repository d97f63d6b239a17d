import Mathlib.Data.Option.Basic
import Namesake.Proofs.SortedMap
import Namesake.SortedMap.Sole

/-! # The owner of a key

While keyed items are gone through, a key is unmet, owned by one item, or shared by several, and
what is stored about it says which (`KeyStanding`). An item that comes later never makes a shared
key anyone's own again (`KeyStanding.claim`). So in the end a key tells an owner exactly if all its
items are that one, however often it occurs (`get?_soleOwners_eq_some_iff`).
-/

namespace Namesake

variable {κ ι : Type} [KeyOrder κ]

/-- What is stored about a key that was met with some items: nothing if there was none, the item if
there was only one, and that nobody owns it otherwise. -/
inductive KeyStanding (met : ι → Prop) : Option (Option ι) → Prop
  | unmet (never : ∀ i, ¬ met i) : KeyStanding met none
  | owned (i : ι) (only : ∀ j, met j ↔ j = i) : KeyStanding met (some (some i))
  | shared {i j : ι} (first : met i) (second : met j) (differ : i ≠ j) :
      KeyStanding met (some none)

namespace KeyStanding

variable {met : ι → Prop} {stored : Option (Option ι)}

/-- A key tells an item exactly if that is the only one it was met with. -/
theorem tells_iff (standing : KeyStanding met stored) (i : ι) :
    stored.bind id = some i ↔ ∀ j, met j ↔ j = i := by
  cases standing with
  | unmet never =>
      refine iff_of_false (by simp) fun only => ?_
      exact never i ((only i).mpr rfl)
  | owned owner only =>
      constructor
      · intro same
        obtain rfl := Option.some.inj same
        exact only
      · intro only'
        obtain rfl := (only' owner).mp ((only owner).mpr rfl)
        rfl
  | shared first second differ =>
      refine iff_of_false (by simp) fun only => ?_
      exact differ (((only _).mp first).trans ((only _).mp second).symm)

variable [DecidableEq ι] {m : SortedMap κ (Option ι)} {key : κ}

/-- Another item of a key changes what is stored about it as it should. -/
theorem claim (standing : KeyStanding met (m.get? key)) (item : ι) :
    KeyStanding (fun j => met j ∨ j = item) ((claimKey m key item).get? key) := by
  unfold claimKey
  generalize found : m.get? key = stored at standing
  cases standing with
  | unmet never =>
      rw [SortedMap.get?_insert_self]
      exact .owned item fun j => or_iff_right (never j)
  | owned owner only =>
      by_cases same : owner = item
      · simp only [same, if_true, found]
        exact .owned item fun j => by rw [only j, same, or_self]
      · simp only [same, if_false, SortedMap.get?_insert_self]
        exact .shared (.inl ((only owner).mpr rfl)) (.inr rfl) same
  | shared first second differ =>
      simp only [found]
      exact .shared (.inl first) (.inl second) differ

end KeyStanding

variable [DecidableEq ι]

/-- An item says nothing about other keys. -/
theorem get?_claimKey_of_ne (m : SortedMap κ (Option ι)) {key other : κ} (item : ι)
    (differ : key ≠ other) : (claimKey m key item).get? other = m.get? other := by
  unfold claimKey
  split
  · exact SortedMap.get?_insert_of_ne m _ differ
  · split_ifs
    · rfl
    · exact SortedMap.get?_insert_of_ne m _ differ
  · rfl

/-- Whatever was met before, going through further items keeps the standing of every key. -/
theorem keyStanding_foldl [DecidableEq κ] {met : κ → ι → Prop} {m : SortedMap κ (Option ι)}
    (before : ∀ key, KeyStanding (met key) (m.get? key)) (items : List (κ × ι)) (key : κ) :
    KeyStanding (fun i => met key i ∨ (key, i) ∈ items)
      ((items.foldl (fun m e => claimKey m e.1 e.2) m).get? key) := by
  induction items generalizing m met with
  | nil => simpa using before key
  | cons first rest ih =>
      obtain ⟨k, item⟩ := first
      have step : ∀ key, KeyStanding (fun j => met key j ∨ (key, j) = (k, item))
          ((claimKey m k item).get? key) := by
        intro key
        by_cases same : key = k
        · subst same
          simpa using (before key).claim item
        · rw [get?_claimKey_of_ne m item (Ne.symm same)]
          simpa [same] using before key
      simpa [or_assoc] using ih step

/-- **A key tells an owner exactly if all its items are that one.** -/
theorem get?_soleOwners_eq_some_iff [DecidableEq κ] {items : List (κ × ι)} {key : κ} {item : ι} :
    (soleOwners items).get? key = some item ↔ ∀ i, (key, i) ∈ items ↔ i = item := by
  have begun (key : κ) :
      KeyStanding (fun _ : ι => False) ((∅ : SortedMap κ (Option ι)).get? key) :=
    .unmet fun _ => id
  have standing := keyStanding_foldl begun items key
  simp only [false_or] at standing
  rw [soleOwners, SortedMap.get?_filterMap]
  exact standing.tells_iff item

/-- An item owns a key that no other item has. -/
theorem get?_soleOwners_eq_some_iff_alone [DecidableEq κ] {items : List (κ × ι)} {key : κ}
    {item : ι} : (soleOwners items).get? key = some item ↔
      (key, item) ∈ items ∧ ∀ i, (key, i) ∈ items → i = item := by
  rw [get?_soleOwners_eq_some_iff]
  constructor
  · intro only
    exact ⟨(only item).mpr rfl, fun i => (only i).mp⟩
  · rintro ⟨listed, alone⟩ i
    exact ⟨alone i, fun same => same ▸ listed⟩

end Namesake
