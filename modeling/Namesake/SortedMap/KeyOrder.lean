/-! # Key orders

A sorted map needs a decidable strict total order on its keys. The order is part of the key type:
numbers and text have their usual one, pairs compare component by component, and an absent key
comes before every present one.
-/

namespace Namesake

/-- A decidable strict total order. -/
class KeyOrder (κ : Type) where
  /-- Whether the first key comes strictly before the second. -/
  before : κ → κ → Bool
  irrefl : ∀ a, before a a = false
  trans : ∀ {a b c}, before a b = true → before b c = true → before a c = true
  connex : ∀ {a b}, before a b = false → before b a = false → a = b

namespace KeyOrder

variable {κ : Type} [KeyOrder κ]

/-- No two keys come before each other. -/
theorem asymm {a b : κ} (h : before a b = true) : before b a = false := by
  cases hb : before b a with
  | false => rfl
  | true => simpa [KeyOrder.irrefl] using KeyOrder.trans h hb

/-- A key that comes before another differs from it. -/
theorem ne_of_before {a b : κ} (h : before a b = true) : a ≠ b := by
  rintro rfl
  simp [KeyOrder.irrefl] at h

/-- Order by an injective rank into ordered keys. -/
@[reducible]
def ofRank {ι : Type} (rank : ι → κ) (injective : ∀ {a b}, rank a = rank b → a = b) :
    KeyOrder ι where
  before a b := before (rank a) (rank b)
  irrefl a := KeyOrder.irrefl (rank a)
  trans := KeyOrder.trans
  connex h h' := injective (KeyOrder.connex h h')

end KeyOrder

open KeyOrder (before)

instance : KeyOrder Nat where
  before a b := decide (a < b)
  irrefl a := by simp
  trans h h' := by simp only [decide_eq_true_eq] at *; omega
  connex h h' := by simp only [decide_eq_false_iff_not] at *; omega

/-- Text is ordered by code points. -/
instance : KeyOrder String where
  before a b := decide (a < b)
  irrefl a := decide_eq_false (String.lt_irrefl a)
  trans h h' := by simp only [decide_eq_true_eq] at *; exact String.lt_trans h h'
  connex h h' := by
    simp only [decide_eq_false_iff_not, String.not_lt] at *
    exact String.le_antisymm h' h

/-- Pairs compare by their first components, and by their second ones where the first agree. -/
instance {α β : Type} [KeyOrder α] [KeyOrder β] : KeyOrder (α × β) where
  before a b := before a.1 b.1 || (!before b.1 a.1 && before a.2 b.2)
  irrefl a := by simp [KeyOrder.irrefl]
  trans {a b c} h h' := by
    simp only [Bool.or_eq_true, Bool.and_eq_true, Bool.not_eq_true'] at *
    rcases h with h | ⟨h₁, h₂⟩ <;> rcases h' with h' | ⟨h₁', h₂'⟩
    · exact .inl (KeyOrder.trans h h')
    · cases hb : before b.1 c.1 with
      | true => exact .inl (KeyOrder.trans h hb)
      | false => exact .inl (KeyOrder.connex hb h₁' ▸ h)
    · cases hb : before a.1 b.1 with
      | true => exact .inl (KeyOrder.trans hb h')
      | false => exact .inl (KeyOrder.connex hb h₁ ▸ h')
    · cases hb : before a.1 c.1 with
      | true => exact .inl rfl
      | false =>
        refine .inr ⟨?_, KeyOrder.trans h₂ h₂'⟩
        cases hab : before a.1 b.1 with
        | false =>
          have := KeyOrder.connex hab h₁
          rwa [this]
        | true =>
          cases hca : before c.1 a.1 with
          | false => rfl
          | true => exact absurd (KeyOrder.trans hca hab) (by simp [h₁'])
  connex {a b} h h' := by
    simp only [Bool.or_eq_false_iff, Bool.and_eq_false_iff, Bool.not_eq_false'] at *
    have first : a.1 = b.1 := KeyOrder.connex h.1 h'.1
    refine Prod.ext first (KeyOrder.connex ?_ ?_)
    · exact h.2.resolve_left (by simp [h'.1])
    · exact h'.2.resolve_left (by simp [h.1])

/-- An absent key comes before every present one. -/
instance {α : Type} [KeyOrder α] : KeyOrder (Option α) where
  before
    | _, none => false
    | none, some _ => true
    | some a, some b => before a b
  irrefl a := by cases a <;> simp [KeyOrder.irrefl]
  trans {a b c} h h' := by
    cases a <;> cases b <;> cases c <;> simp_all
    exact KeyOrder.trans h h'
  connex {a b} h h' := by
    cases a <;> cases b <;> simp_all
    exact KeyOrder.connex h h'

end Namesake
