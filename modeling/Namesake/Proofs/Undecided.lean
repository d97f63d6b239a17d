import Namesake.Proofs.PartitionInvariants

/-! # Undecided entries

During a merge a target is fixed only to be confirmed at once, so what is pending has none
(`Ledger.Undecided`). Every action keeps it that way.
-/

namespace Namesake

/-- No target is fixed by votes, by taking them back, or by a hint. -/
theorem MatchEntry.invariant_untargeted : MatchEntry.Invariant fun e => e.target = none where
  blank _ := rfl
  countVote {_ _ _ e} untargeted new := (e.countVote_standing new).target.trans untargeted
  retainVotes {_ _ e} untargeted keep := (e.retainVotes_standing keep).target.trans untargeted
  hinted untargeted _ := untargeted

namespace Partition

variable {ι : Type} [KeyOrder ι]

/-- No pending entry has its target fixed. -/
def Undecided (p : Partition ι) : Prop :=
  ∀ k e, p.pending.get? k = some e → e.target = none

theorem empty_undecided : (∅ : Partition ι).Undecided := fun _ _ found => nomatch found

theorem Undecided.vote [DecidableEq ι] {p : Partition ι} (undecided : p.Undecided)
    (old : Handle ι) (new : ι) : (p.vote old new).Undecided :=
  MatchEntry.invariant_untargeted.vote undecided old new

end Partition

namespace Ledger

/-- Nothing that is pending has its target fixed. -/
structure Undecided (l : Ledger) : Prop where
  types : l.types.Undecided
  methods : l.methods.Undecided
  fields : l.fields.Undecided

theorem empty_undecided : (∅ : Ledger).Undecided :=
  ⟨Partition.empty_undecided, Partition.empty_undecided, Partition.empty_undecided⟩

/-- **No run of actions leaves a target behind.** -/
theorem Undecided.foldl_after {s : State} (undecided : s.ledger.Undecided) (c : Context)
    (actions : List Action) : (actions.foldl (State.after c) s).ledger.Undecided := by
  have each : s.ledger.Each fun p => p.PendingAll fun e => e.target = none :=
    ⟨undecided.types, undecided.methods, undecided.fields⟩
  obtain ⟨types, methods, fields⟩ :=
    MatchEntry.invariant_untargeted.pendingAll.foldl_after each c actions
  exact ⟨types, methods, fields⟩

end Ledger

end Namesake
