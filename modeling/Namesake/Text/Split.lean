/-! # Cutting text at a mark

`splitFirst?` cuts a text at the first place of a mark, `splitLast?` at the last one; the mark
itself goes to neither part. Each gives nothing exactly when the mark does not occur.
-/

namespace Namesake.Text

/-- The parts before and after the first place of a mark. -/
def splitFirst? (mark : Char) : List Char → Option (List Char × List Char)
  | [] => none
  | c :: rest =>
    if c = mark then some ([], rest)
    else (splitFirst? mark rest).map fun (before, after) => (c :: before, after)

/-- The parts before and after the last place of a mark. -/
def splitLast? (mark : Char) : List Char → Option (List Char × List Char)
  | [] => none
  | c :: rest =>
    match splitLast? mark rest with
    | some (before, after) => some (c :: before, after)
    | none => if c = mark then some ([], rest) else none

theorem splitFirst?_eq_some {mark : Char} {text before after : List Char}
    (h : splitFirst? mark text = some (before, after)) :
    text = before ++ mark :: after ∧ mark ∉ before := by
  induction text generalizing before with
  | nil => simp [splitFirst?] at h
  | cons c rest ih =>
    rw [splitFirst?] at h
    split at h
    · next same => simp_all
    · next differs =>
      obtain ⟨⟨b, a⟩, found, equal⟩ := Option.map_eq_some_iff.1 h
      obtain ⟨rfl, rfl⟩ := Prod.mk.inj equal
      have ⟨text, free⟩ := ih found
      exact ⟨by simp [text], by simp [free, Ne.symm differs]⟩

theorem splitLast?_eq_none {mark : Char} {text : List Char} :
    splitLast? mark text = none ↔ mark ∉ text := by
  induction text with
  | nil => simp [splitLast?]
  | cons c rest ih =>
    rw [splitLast?]
    cases h : splitLast? mark rest with
    | none => simp [ih.1 h, eq_comm]
    | some parts =>
      have : mark ∈ rest := Classical.not_not.1 fun notIn => by simp [ih.2 notIn] at h
      simp [this]

theorem splitLast?_eq_some {mark : Char} {text before after : List Char}
    (h : splitLast? mark text = some (before, after)) :
    text = before ++ mark :: after ∧ mark ∉ after := by
  induction text generalizing before with
  | nil => simp [splitLast?] at h
  | cons c rest ih =>
    rw [splitLast?] at h
    split at h
    · next b a found =>
      obtain ⟨rfl, rfl⟩ := Prod.mk.inj (Option.some.inj h)
      have ⟨text, free⟩ := ih found
      exact ⟨by simp [text], free⟩
    · next missing =>
      have free := splitLast?_eq_none.1 missing
      split at h <;> simp_all

end Namesake.Text
