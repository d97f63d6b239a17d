import Namesake.Proofs.PartitionRuns
import Namesake.Proofs.Reachable

/-! # Reachable partitions

A partition is reachable if operations on partitions and hints about owners lead to it from the
empty one on (`Partition.Reachable`). All reachable partitions are sound, and what pending entries
keep whatever happens to them (`MatchEntry.Lasting`) holds of all their pending entries. A merge
only ever comes to reachable partitions (`State.Reachable.partitions`).
-/

namespace Namesake

namespace Partition

variable {ι : Type} [KeyOrder ι]

/-- Note the new type the counterpart of a pending thing has to belong to. -/
def hint (p : Partition ι) (old : Handle ι) (owner : TypeId) : Partition ι :=
  p.modifyPending old fun e => { e with ownerHint := some owner }

/-- A partition that operations and hints lead to. -/
inductive Reachable : Partition ι → Prop
  | empty : Reachable ∅
  | performed [DecidableEq ι] {p : Partition ι} (before : Reachable p)
      (operation : Operation ι) : Reachable (p.perform operation)
  | hinted {p : Partition ι} (before : Reachable p) (old : Handle ι) (owner : TypeId) :
      Reachable (p.hint old owner)

theorem Sound.hint [DecidableEq ι] {p : Partition ι} (sound : p.Sound) (old : Handle ι)
    (owner : TypeId) : (p.hint old owner).Sound := by
  apply sound.modifyPending
  intro e found
  have leader : e.LeaderListed := sound.leader found
  exact ⟨rfl, leader, rfl, fun t voted => sound.unclaimed found voted⟩

theorem Reachable.sound [DecidableEq ι] {p : Partition ι} (reachable : p.Reachable) : p.Sound := by
  induction reachable with
  | empty => exact empty_sound
  | performed before operation ih => exact ih.perform operation
  | hinted before old owner ih => exact ih.hint old owner

/-- Operations lead to reachable partitions. -/
theorem reachable_afterAll [DecidableEq ι] (operations : List (Operation ι)) :
    (afterAll operations).Reachable := by
  have reached (operations : List (Operation ι)) {p : Partition ι} (before : p.Reachable) :
      (operations.foldl Partition.perform p).Reachable := by
    induction operations generalizing p with
    | nil => exact before
    | cons operation rest ih => exact ih (before.performed operation)
  exact reached operations .empty

/-! ## What all pending entries keep -/

variable {holds : MatchEntry ι → Prop} {p : Partition ι}

theorem PendingAll.touch [DecidableEq ι] (all : p.PendingAll holds) {old : Handle ι}
    (blank : holds (.blank old)) : (p.touch old).PendingAll holds := by
  intro k e found
  rw [get?_pending_touch] at found
  split_ifs at found
  · rw [← Option.some.inj found]
    cases present : p.pending.get? old with
    | none => exact blank
    | some e' => exact all old e' present
  · exact all k e found

end Partition

/-- What pending entries keep whatever happens to them, a fixed target included. -/
structure MatchEntry.Lasting (holds : ∀ {ι : Type} [KeyOrder ι], MatchEntry ι → Prop) : Prop
    extends MatchEntry.Invariant holds where
  targeted {ι : Type} [KeyOrder ι] {e : MatchEntry ι} (before : holds e) (target : ι) :
    holds { e with target := some target }

namespace MatchEntry.Lasting

variable {holds : ∀ {ι : Type} [KeyOrder ι], MatchEntry ι → Prop}
  (lasting : MatchEntry.Lasting holds) {ι : Type} [KeyOrder ι] {p : Partition ι}

include lasting

theorem setTarget [DecidableEq ι] (all : p.PendingAll holds) (old : Handle ι) (new : ι) :
    (p.setTarget old new).PendingAll holds := by
  unfold Partition.setTarget
  split_ifs
  · exact all
  · exact (all.touch (lasting.blank old)).modifyPending old fun e before =>
      lasting.targeted before new

/-- An operation keeps what pending entries keep. -/
theorem perform [DecidableEq ι] (sound : p.Sound) (all : p.PendingAll holds)
    (operation : Partition.Operation ι) : (p.perform operation).PendingAll holds := by
  cases operation with
  | touch old => exact all.touch (lasting.blank old)
  | vote old new => exact lasting.vote all old new
  | removeVote old new =>
      exact all.modifyPending old fun e before => lasting.retainVotes before (· ≠ new)
  | setTarget old new => exact lasting.setTarget all old new
  | confirm old =>
      simp only [Partition.perform]
      cases confirming : p.confirm old with
      | error e => exact all
      | ok result =>
          obtain ⟨target, p'⟩ := result
          obtain rfl | ⟨entry, -, -, -, -, rfl⟩ := sound.confirm_cases confirming
          · exact all
          · exact lasting.settle all old entry target
  | tryMatch old new =>
      simp only [Partition.perform, Partition.tryMatch_eq]
      split_ifs
      · exact all
      · exact lasting.settle all old (p.entryFor old new) new
  | markMerged old => exact MatchEntry.Invariant.marked all old
  | retainVotes old keep =>
      exact all.modifyPending old fun e before => lasting.retainVotes before keep

/-- **What pending entries keep holds of all pending entries of reachable partitions.** -/
theorem of_reachable [DecidableEq ι] (reachable : p.Reachable) : p.PendingAll holds := by
  induction reachable with
  | empty => exact fun k e found => nomatch found
  | performed before operation ih => exact lasting.perform before.sound ih operation
  | hinted before old owner ih =>
      exact ih.modifyPending old fun e before => lasting.hinted before owner

end MatchEntry.Lasting

/-! ## The partitions of a merge -/

namespace Partition

variable {ι : Type} [KeyOrder ι]

/-- Restricting an entry takes votes back and leaves a hint. -/
theorem modifyPending_restrictEntry [DecidableEq ι] (p : Partition ι) (ownerOf : ι → TypeId)
    (owner : TypeId) (old : Handle ι) :
    p.modifyPending old (Work.restrictEntry ownerOf owner) =
      (p.perform (.retainVotes old fun candidate => ownerOf candidate = owner)).hint old owner := by
  have pending : p.pending.modify old (Work.restrictEntry ownerOf owner) =
      (p.pending.modify old (·.retainVotes fun candidate => ownerOf candidate = owner)).modify old
        fun e => { e with ownerHint := some owner } := by
    apply SortedMap.ext_get?
    intro k
    simp only [SortedMap.get?_modify]
    split_ifs
    · rw [Option.map_map]
      rfl
    · rfl
  simp only [modifyPending, pending, hint, perform]

/-- All that happens to a partition during a merge keeps it reachable. -/
theorem invariant_reachable : Partition.Invariant Reachable where
  empty := .empty
  vote before old new := before.performed (.vote old new)
  settle {_ _ _ p} before old new free := by
    have matched := before.performed (.tryMatch old new)
    rwa [perform, tryMatch_eq, if_neg] at matched
    rw [← isTaken, free]
    exact Bool.false_ne_true
  restricted {_ _ _ p} before ownerOf owner members := by
    induction members generalizing p with
    | nil => exact before
    | cons m rest ih =>
        apply ih
        simp only [modifyPending_restrictEntry]
        exact (before.performed _).hinted (.real m) owner
  marked before old := before.performed (.markMerged old)

end Partition

/-- **A merge only ever comes to reachable partitions.** -/
theorem State.Reachable.partitions {c : Context} {s : State} (reachable : s.Reachable c) :
    s.ledger.Each Partition.Reachable :=
  reachable.each Partition.invariant_reachable

end Namesake
