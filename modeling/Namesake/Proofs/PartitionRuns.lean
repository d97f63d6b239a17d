import Namesake.Proofs.Partition

/-! # Runs of partition operations

A partition is only ever changed by a handful of operations, in any order and with any handles and
ids. Whatever they are, the partitions they lead to are sound (`Partition.sound_afterAll`), and no
operation takes back a confirmed pair (`Partition.Sound.extends_perform`).
-/

namespace Namesake.Partition

/-- An operation on a partition. -/
inductive Operation (ι : Type) where
  /-- Make sure that an old thing has an entry. -/
  | touch (old : Handle ι)
  | vote (old : Handle ι) (new : ι)
  | removeVote (old : Handle ι) (new : ι)
  | setTarget (old : Handle ι) (new : ι)
  | confirm (old : Handle ι)
  | tryMatch (old : Handle ι) (new : ι)
  | markMerged (old : Handle ι)
  /-- Take back the votes of a pending entry for all candidates that fail a test. -/
  | retainVotes (old : Handle ι) (keep : ι → Bool)

variable {ι : Type} [KeyOrder ι] [DecidableEq ι]

/-- The partition an operation leaves behind. A confirmation that is refused changes nothing, and a
match that were refused would leave the target fixed. -/
def perform (p : Partition ι) : Operation ι → Partition ι
  | .touch old => p.touch old
  | .vote old new => p.vote old new
  | .removeVote old new => p.removeVote old new
  | .setTarget old new => p.setTarget old new
  | .confirm old =>
    match p.confirm old with
    | .ok (_, p') => p'
    | .error _ => p
  | .tryMatch old new =>
    match p.tryMatch old new with
    | .ok (_, p') => p'
    | .error _ => p.setTarget old new
  | .markMerged old => (p.markMerged? old).getD p
  | .retainVotes old keep => p.modifyPending old (·.retainVotes keep)

/-- The partition operations lead to, from the empty one on. -/
def afterAll (operations : List (Operation ι)) : Partition ι := operations.foldl perform ∅

/-! ## One operation -/

theorem Sound.perform {p : Partition ι} (sound : p.Sound) (operation : Operation ι) :
    (p.perform operation).Sound := by
  cases operation with
  | touch old => exact sound.touch old
  | vote old new => exact sound.vote old new
  | removeVote old new => exact sound.removeVote old new
  | setTarget old new => exact sound.setTarget old new
  | confirm old =>
      simp only [Partition.perform]
      cases confirming : p.confirm old with
      | error e => exact sound
      | ok result =>
          obtain ⟨target, p'⟩ := result
          obtain rfl | ⟨entry, found, fixed, fresh, free, rfl⟩ := sound.confirm_cases confirming
          · exact sound
          · exact sound.settle (sound.pendingKey found) fixed fresh free
  | tryMatch old new =>
      simp only [Partition.perform]
      cases matching : p.tryMatch old new with
      | error e => exact sound.setTarget old new
      | ok result => exact sound.tryMatch matching
  | markMerged old => exact sound.marked old
  | retainVotes old keep => exact sound.retainVotes old keep

omit [DecidableEq ι] in
/-- What leaves the confirmed entries alone keeps the confirmed pairs. -/
private theorem extends_of_confirmed_eq {p p' : Partition ι} (same : p'.confirmed = p.confirmed) :
    p.Extends p' := by
  intro k t confirmed
  rw [target?, same]
  exact confirmed

theorem Sound.extends_perform {p : Partition ι} (sound : p.Sound) (operation : Operation ι) :
    p.Extends (p.perform operation) := by
  cases operation with
  | touch old => exact extends_of_confirmed_eq (confirmed_touch p old)
  | vote old new => exact extends_of_confirmed_eq (confirmed_vote p old new)
  | removeVote old new => exact extends_of_confirmed_eq rfl
  | setTarget old new => exact extends_of_confirmed_eq (confirmed_setTarget p old new)
  | confirm old =>
      simp only [Partition.perform]
      cases confirming : p.confirm old with
      | error e => exact .refl p
      | ok result =>
          obtain ⟨target, p'⟩ := result
          obtain rfl | ⟨entry, found, fixed, fresh, free, rfl⟩ := sound.confirm_cases confirming
          · exact .refl _
          · exact extends_settle entry target fresh
  | tryMatch old new =>
      simp only [Partition.perform, tryMatch_eq]
      split_ifs with taken
      · exact .refl p
      · rw [Bool.or_eq_true, not_or, Bool.not_eq_true] at taken
        exact extends_settle (p.entryFor old new) new taken.1
  | markMerged old =>
      intro k t confirmed
      exact (target?_marked p old k).trans confirmed
  | retainVotes old keep => exact extends_of_confirmed_eq rfl

/-! ## Any number of operations -/

theorem Sound.foldl_perform {p : Partition ι} (sound : p.Sound) (operations : List (Operation ι)) :
    (operations.foldl Partition.perform p).Sound := by
  induction operations generalizing p with
  | nil => exact sound
  | cons operation rest ih => exact ih (sound.perform operation)

theorem sound_afterAll (operations : List (Operation ι)) : (afterAll operations).Sound :=
  empty_sound.foldl_perform operations

/-- **Partitions stay in step.** After any operations, nothing is both pending and confirmed; every
entry stands under its own old thing; a confirmed entry has a target and no evidence; the index of
claimed things inverts the confirmed targets, which are therefore distinct; nothing that is claimed
has votes; and no further operation removes a confirmed entry or changes its target. -/
theorem afterAll_in_step (operations : List (Operation ι)) :
    let p := afterAll operations
    (∀ k, ¬ (p.pending.contains k = true ∧ p.confirmed.contains k = true)) ∧
    (∀ k e, p.pending.get? k = some e ∨ p.confirmed.get? k = some e → e.old = k) ∧
    (∀ k e, p.confirmed.get? k = some e → (∃ t, e.target = some t) ∧ e.votes = ∅ ∧
      e.highest = none ∧ e.highestVotes = 0 ∧ e.secondVotes = 0) ∧
    (∀ t k, p.inverse.get? t = some k ↔ ∃ e, p.confirmed.get? k = some e ∧ e.target = some t) ∧
    (∀ k k' e e', p.confirmed.get? k = some e → p.confirmed.get? k' = some e' →
      e.target = e'.target → k = k') ∧
    (∀ k e k' e' t, p.pending.get? k = some e → p.confirmed.get? k' = some e' →
      e'.target = some t → e.votes.contains t = false) ∧
    ∀ operation k e, p.confirmed.get? k = some e →
      ∃ e', (p.perform operation).confirmed.get? k = some e' ∧ e'.target = e.target := by
  intro p
  have sound : p.Sound := sound_afterAll operations
  refine ⟨?_, ?_, ?_, ?_, ?_, ?_, ?_⟩
  · rintro k ⟨pending, confirmed⟩
    rw [sound.apart confirmed] at pending
    cases pending
  · rintro k e (pending | confirmed)
    · exact sound.pendingKey pending
    · exact sound.confirmedKey confirmed
  · intro k e confirmed
    obtain ⟨votes, highest, highestVotes, secondVotes⟩ := sound.bare confirmed
    exact ⟨sound.settled confirmed, votes, highest, highestVotes, secondVotes⟩
  · intro t k
    exact sound.holder_iff.trans target?_eq_some_iff
  · intro k k' e e' confirmed confirmed' same
    obtain ⟨t, target⟩ := sound.settled confirmed
    exact sound.target?_injective (target?_eq_some_iff.mpr ⟨e, confirmed, target⟩)
      (target?_eq_some_iff.mpr ⟨e', confirmed', same ▸ target⟩)
  · intro k e k' e' t pending confirmed target
    cases voted : e.votes.contains t with
    | false => rfl
    | true =>
        have claimed :=
          sound.isClaimed_iff.mpr ⟨k', target?_eq_some_iff.mpr ⟨e', confirmed, target⟩⟩
        rw [sound.unclaimed pending voted] at claimed
        cases claimed
  · intro operation k e confirmed
    obtain ⟨t, target⟩ := sound.settled confirmed
    rw [target]
    exact target?_eq_some_iff.mp (sound.extends_perform operation k t
      (target?_eq_some_iff.mpr ⟨e, confirmed, target⟩))

end Namesake.Partition
