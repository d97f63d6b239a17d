import Namesake.Proofs.Actions

/-! # Invariants of partitions

All that happens to a partition during a merge is that a vote is cast, a free pair is settled, the
votes of members are cut down, or a pair is marked as compared. What survives these four
(`Partition.Invariant`) holds of all partitions of a ledger whatever actions are carried out
(`Ledger.Each.foldl_after`). Being sound is one such invariant. Others are what an entry has from
the start and keeps whatever happens to its votes and its hint
(`MatchEntry.Invariant.pendingAll`).
-/

namespace Namesake

/-- What holds of the entry of an old thing nothing is known about, and keeps holding while it is
pending. -/
structure MatchEntry.Invariant (holds : ∀ {ι : Type} [KeyOrder ι], MatchEntry ι → Prop) :
    Prop where
  blank {ι : Type} [KeyOrder ι] (old : Handle ι) : holds (.blank old)
  countVote {ι : Type} [KeyOrder ι] [DecidableEq ι] {e : MatchEntry ι} (before : holds e)
    (new : ι) : holds (e.countVote new)
  retainVotes {ι : Type} [KeyOrder ι] {e : MatchEntry ι} (before : holds e) (keep : ι → Bool) :
    holds (e.retainVotes keep)
  hinted {ι : Type} [KeyOrder ι] {e : MatchEntry ι} (before : holds e) (owner : TypeId) :
    holds { e with ownerHint := some owner }

namespace Partition

/-- What holds of empty partitions and is kept by all that happens to one during a merge. -/
structure Invariant (holds : ∀ {ι : Type} [KeyOrder ι], Partition ι → Prop) : Prop where
  empty {ι : Type} [KeyOrder ι] : holds (∅ : Partition ι)
  vote {ι : Type} [KeyOrder ι] [DecidableEq ι] {p : Partition ι} (before : holds p)
    (old : Handle ι) (new : ι) : holds (p.vote old new)
  settle {ι : Type} [KeyOrder ι] [DecidableEq ι] {p : Partition ι} (before : holds p)
    (old : Handle ι) (new : ι) (free : p.isTaken old new = false) :
    holds (p.settle old (p.entryFor old new) new)
  restricted {ι : Type} [KeyOrder ι] [DecidableEq ι] {p : Partition ι} (before : holds p)
    (ownerOf : ι → TypeId) (owner : TypeId) (members : List ι) :
    holds (p.restricted ownerOf owner members)
  marked {ι : Type} [KeyOrder ι] [DecidableEq ι] {p : Partition ι} (before : holds p)
    (old : Handle ι) : holds (p.marked old)

theorem invariant_sound : Invariant Sound where
  empty := empty_sound
  vote sound old new := sound.vote old new
  settle sound old new free := by
    obtain ⟨fresh, unclaimed⟩ := isTaken_eq_false_iff.mp free
    exact sound.settle (sound.old_entryFor old new) rfl fresh unclaimed
  restricted sound _ _ members := sound.restricted members
  marked sound old := sound.marked old

/-! ## Pending entries -/

variable {ι : Type} [KeyOrder ι]

/-- Something holds of all pending entries. -/
def PendingAll (holds : MatchEntry ι → Prop) (p : Partition ι) : Prop :=
  ∀ k e, p.pending.get? k = some e → holds e

/-- What a change of an entry keeps still holds of all pending entries after it. -/
theorem PendingAll.modifyPending [DecidableEq ι] {holds : MatchEntry ι → Prop}
    {p : Partition ι} (all : p.PendingAll holds) (old : Handle ι)
    {f : MatchEntry ι → MatchEntry ι} (kept : ∀ e, holds e → holds (f e)) :
    (p.modifyPending old f).PendingAll holds := by
  intro k e found
  simp only [Partition.modifyPending, SortedMap.get?_modify] at found
  split_ifs at found
  · obtain ⟨e', present, rfl⟩ := Option.map_eq_some_iff.mp found
    exact kept e' (all k e' present)
  · exact all k e found

end Partition

namespace MatchEntry.Invariant

variable {holds : ∀ {ι : Type} [KeyOrder ι], MatchEntry ι → Prop}
  (kept : MatchEntry.Invariant holds) {ι : Type} [KeyOrder ι] [DecidableEq ι] {p : Partition ι}
  (before : p.PendingAll holds)

include kept before

theorem vote (old : Handle ι) (new : ι) : (p.vote old new).PendingAll holds := by
  have current : holds ((p.pending.get? old).getD (.blank old)) := by
    cases present : p.pending.get? old with
    | none => exact kept.blank old
    | some e => exact before old e present
  intro k e found
  rw [Partition.get?_pending_vote] at found
  split_ifs at found with here claimed
  · exact Option.some.inj found ▸ current
  · rw [← Option.some.inj found, addVote?]
    split_ifs
    · exact current
    · exact kept.countVote current new
  · exact before k e found

theorem settle (old : Handle ι) (entry : MatchEntry ι) (target : ι) :
    (p.settle old entry target).PendingAll holds := by
  intro k e found
  rw [Partition.get?_pending_settle] at found
  split_ifs at found
  obtain ⟨e', present, rfl⟩ := Option.map_eq_some_iff.mp found
  exact kept.retainVotes (before k e' present) _

theorem restricted (ownerOf : ι → TypeId) (owner : TypeId) (members : List ι) :
    (p.restricted ownerOf owner members).PendingAll holds := by
  induction members generalizing p with
  | nil => exact before
  | cons m rest ih =>
      apply ih
      exact before.modifyPending (.real m) fun e holding =>
        kept.hinted (kept.retainVotes holding _) owner

omit [DecidableEq ι] kept in
theorem marked (old : Handle ι) : (p.marked old).PendingAll holds := by
  intro k e found
  rw [Partition.pending_marked] at found
  exact before k e found

omit before in
/-- **What entries keep while they are pending holds of all pending entries.** -/
theorem pendingAll : Partition.Invariant fun p => p.PendingAll holds where
  empty _ _ found := nomatch found
  vote before := kept.vote before
  settle before _ _ _ := kept.settle before _ _ _
  restricted before := kept.restricted before
  marked before := marked before

end MatchEntry.Invariant

/-! ## Ledgers -/

namespace Ledger

/-- Something holds of each partition of a ledger. -/
structure Each (holds : ∀ {ι : Type} [KeyOrder ι], Partition ι → Prop) (l : Ledger) : Prop where
  types : holds l.types
  methods : holds l.methods
  fields : holds l.fields

end Ledger

namespace Partition.Invariant

variable {holds : ∀ {ι : Type} [KeyOrder ι], Partition ι → Prop} (kept : Partition.Invariant holds)

include kept

theorem each_empty : (∅ : Ledger).Each holds := ⟨kept.empty, kept.empty, kept.empty⟩

theorem cast {l : Ledger} (each : l.Each holds) (c : Context) (b : Ballot) :
    (b.cast c l).Each holds := by
  unfold Ballot.cast
  split_ifs
  · cases b with
    | type old new => exact ⟨kept.vote each.types _ new, each.methods, each.fields⟩
    | method old new => exact ⟨each.types, kept.vote each.methods _ new, each.fields⟩
    | field old new => exact ⟨each.types, each.methods, kept.vote each.fields _ new⟩
  · exact each

theorem settleType {l : Ledger} (each : l.Each holds) (c : Context) {old : Handle TypeId}
    {new : TypeId} (free : l.types.isTaken old new = false) :
    (l.settleType c old new).Each holds := by
  have types := kept.settle each.types _ _ free
  cases old with
  | real o =>
      exact ⟨types, kept.restricted each.methods _ new _, kept.restricted each.fields _ new _⟩
  | synthetic s => exact ⟨types, each.methods, each.fields⟩

/-- **An action keeps the invariants of partitions.** -/
theorem after {s : State} (each : s.ledger.Each holds) (c : Context) (a : Action) :
    (s.after c a).ledger.Each holds := by
  cases a with
  | vote b => exact kept.cast each c b
  | confirmType old new =>
      simp only [State.after, State.confirmType]
      split_ifs with taken
      · exact each
      · exact kept.settleType each c (Bool.not_eq_true _ ▸ taken)
  | confirmMethod old new =>
      simp only [State.after, State.confirmMethod]
      split_ifs with taken
      · exact each
      · exact ⟨each.types, kept.settle each.methods _ _ (Bool.not_eq_true _ ▸ taken), each.fields⟩
  | confirmField old new =>
      simp only [State.after, State.confirmField]
      split_ifs with taken
      · exact each
      · exact ⟨each.types, each.methods, kept.settle each.fields _ _ (Bool.not_eq_true _ ▸ taken)⟩
  | mergedType old => exact ⟨kept.marked each.types _, each.methods, each.fields⟩
  | mergedMethod old => exact ⟨each.types, kept.marked each.methods _, each.fields⟩
  | mergedField old => exact ⟨each.types, each.methods, kept.marked each.fields _⟩

/-- A run of actions keeps the invariants of partitions. -/
theorem foldl_after {s : State} (each : s.ledger.Each holds) (c : Context)
    (actions : List Action) : (actions.foldl (State.after c) s).ledger.Each holds := by
  induction actions generalizing s with
  | nil => exact each
  | cons a rest ih => exact ih (kept.after each c a)

end Partition.Invariant

end Namesake
