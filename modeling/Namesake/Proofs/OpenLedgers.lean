import Namesake.Proofs.LedgerRules
import Namesake.Proofs.Tallies

/-! # Before anything is confirmed

As long as nothing is confirmed and no target is fixed, no owner is required of a member either
(`Ledger.Lawful.isOpen`), and the ledger is open (`Ledger.IsOpen`). Then the only ballots turned
down are those that pair a static member with one that is not, bridges aside
(`Ledger.IsOpen.judged`). All others count: casting them leaves the ledger open, and each tally
grows by the number of ballots cast for it (`Ledger.IsOpen.castAll`).
-/

namespace Namesake

/-! ## Open partitions -/

namespace Partition

variable {ι : Type} [KeyOrder ι]

/-- Nothing is confirmed, and what is pending has neither a target nor a hint. -/
structure IsOpen (p : Partition ι) : Prop where
  sound : p.Sound
  unconfirmed : p.confirmed = ∅
  undecided : p.Undecided
  unhinted : ∀ k e, p.pending.get? k = some e → e.ownerHint = none

theorem empty_isOpen : (∅ : Partition ι).IsOpen :=
  ⟨empty_sound, rfl, empty_undecided, fun _ _ found => nomatch found⟩

namespace IsOpen

variable {p : Partition ι}

theorem isConfirmed_eq_false (isOpen : p.IsOpen) (k : Handle ι) : p.isConfirmed k = false := by
  rw [isConfirmed, isOpen.unconfirmed]
  rfl

theorem target?_eq_none (isOpen : p.IsOpen) (k : Handle ι) : p.target? k = none :=
  target?_of_not_isConfirmed (isOpen.isConfirmed_eq_false k)

theorem isClaimed_eq_false (isOpen : p.IsOpen) (t : ι) : p.isClaimed t = false := by
  rw [Bool.eq_false_iff]
  intro claimed
  obtain ⟨k, target⟩ := isOpen.sound.isClaimed_iff.mp claimed
  rw [isOpen.target?_eq_none k] at target
  cases target

/-- All entries are pending. -/
theorem get?_eq (isOpen : p.IsOpen) (k : Handle ι) : p.get? k = p.pending.get? k := by
  rw [get?, isOpen.unconfirmed]
  rfl

/-- No entry has a hint. -/
theorem ownerHint_eq_none (isOpen : p.IsOpen) (k : Handle ι) :
    (p.get? k >>= (·.ownerHint)) = none := by
  rw [isOpen.get?_eq]
  cases found : p.pending.get? k with
  | none => rfl
  | some e => exact isOpen.unhinted k e found

/-- Every vote counts. -/
theorem counts (isOpen : p.IsOpen) (old : Handle ι) (new : ι) : p.counts old new = true := by
  have fresh := isOpen.isConfirmed_eq_false old
  have untargeted : (p.entryOf old).target = none := by
    rw [entryOf_of_not_isConfirmed fresh]
    cases present : p.pending.get? old with
    | none => rfl
    | some e => exact isOpen.undecided old e present
  rw [Partition.counts, fresh, isOpen.isClaimed_eq_false, untargeted]
  rfl

variable [DecidableEq ι]

/-- A vote leaves everything open. -/
theorem vote (isOpen : p.IsOpen) (old : Handle ι) (new : ι) : (p.vote old new).IsOpen where
  sound := isOpen.sound.vote old new
  unconfirmed := (confirmed_vote p old new).trans isOpen.unconfirmed
  undecided := isOpen.undecided.vote old new
  unhinted k e found := by
    have confirmed := (confirmed_vote p old new).trans isOpen.unconfirmed
    have present : (p.vote old new).get? k = some e := by
      rw [Partition.get?, confirmed, found]
      rfl
    have kept := (p.vote_sameButTallies old new).ownerHint k
    rw [present, isOpen.ownerHint_eq_none] at kept
    exact kept

end IsOpen

end Partition

/-! ## Open ledgers -/

namespace Ballot

/-- Whether both members are static or neither is. -/
def IsFair (c : Context) : Ballot → Prop
  | type _ _ => True
  | method old new => (c.old.program.method old).isStatic = (c.new.program.method new).isStatic
  | field old new => (c.old.program.field old).isStatic = (c.new.program.field new).isStatic

/-- Whether a ballot may be cast where no owner is required. -/
def isCompatible (old new : Program) : Ballot → Bool
  | type _ _ => true
  | method o n => (old.method o).isSynthetic || (new.method n).isSynthetic ||
      (old.method o).isStatic == (new.method n).isStatic
  | field o n => (old.field o).isStatic == (new.field n).isStatic

theorem IsFair.isCompatible {c : Context} {b : Ballot} (fair : b.IsFair c) :
    b.isCompatible c.old.program c.new.program = true := by
  cases b with
  | type old new => rfl
  | method old new =>
      have same : (c.old.program.method old).isStatic = (c.new.program.method new).isStatic := fair
      simp [Ballot.isCompatible, same]
  | field old new =>
      have same : (c.old.program.field old).isStatic = (c.new.program.field new).isStatic := fair
      simp [Ballot.isCompatible, same]

end Ballot

namespace Ledger

/-- A ledger in which nothing is confirmed, no target is fixed and no owner is required. -/
structure IsOpen (l : Ledger) : Prop where
  types : l.types.IsOpen
  methods : l.methods.IsOpen
  fields : l.fields.IsOpen

theorem empty_isOpen : (∅ : Ledger).IsOpen :=
  ⟨Partition.empty_isOpen, Partition.empty_isOpen, Partition.empty_isOpen⟩

/-- Within the rules an owner is required only once it is the confirmed counterpart of another, so a
lawful ledger in which nothing is confirmed and no target is fixed is open. -/
theorem Lawful.isOpen {c : Context} {pool : Pool c.old.program c.new.program} {l : Ledger}
    (lawful : l.Lawful c pool) (undecided : l.Undecided) (types : l.types.confirmed = ∅)
    (methods : l.methods.confirmed = ∅) (fields : l.fields.confirmed = ∅) : l.IsOpen := by
  have untargeted : ∀ k, l.types.target? k = none := by
    intro k
    rw [Partition.target?, types]
    rfl
  have unhinted : ∀ {ι : Type} {kind : MemberKind ι} {k t},
      ¬ (kind.rules l.types).hint k t := by
    rintro ι kind k t ⟨o, -, target⟩
    rw [untargeted] at target
    cases target
  refine ⟨⟨lawful.types.sound, types, undecided.types, ?_⟩,
    ⟨lawful.methods.sound, methods, undecided.methods, ?_⟩,
    ⟨lawful.fields.sound, fields, undecided.fields, ?_⟩⟩
  · intro k e found
    exact Option.eq_none_iff_forall_ne_some.mpr fun t hint =>
      lawful.types.follows.hint (.inl found) hint
  · intro k e found
    exact Option.eq_none_iff_forall_ne_some.mpr fun t hint =>
      unhinted (lawful.methods.follows.hint (.inl found) hint)
  · intro k e found
    exact Option.eq_none_iff_forall_ne_some.mpr fun t hint =>
      unhinted (lawful.fields.follows.hint (.inl found) hint)

namespace IsOpen

variable {l : Ledger}

/-- No owner is required of a member. -/
theorem requiredOwner?_eq_none {ι : Type} [KeyOrder ι] (isOpen : l.IsOpen)
    {members : Partition ι} (membersOpen : members.IsOpen) (old : ι) (owner : TypeId) :
    Ballot.requiredOwner? l members old owner = none := by
  rw [Ballot.requiredOwner?, isOpen.types.target?_eq_none, Option.or_none]
  exact membersOpen.ownerHint_eq_none (.real old)

/-- A ballot that may be cast at all is accepted, and counts. -/
theorem judged (isOpen : l.IsOpen) {c : Context} (b : Ballot) :
    b.accepted c l = b.isCompatible c.old.program c.new.program ∧
      b.counts c l = b.isCompatible c.old.program c.new.program := by
  have admissible : b.isAdmissible c l = b.isCompatible c.old.program c.new.program := by
    cases b with
    | type o n => rfl
    | method o n =>
        simp [Ballot.isAdmissible, Ballot.isCompatible,
          isOpen.requiredOwner?_eq_none isOpen.methods]
    | field o n =>
        simp [Ballot.isAdmissible, Ballot.isCompatible,
          isOpen.requiredOwner?_eq_none isOpen.fields]
  have types := isOpen.types.counts
  have methods := isOpen.methods.counts
  have fields := isOpen.fields.counts
  unfold Ballot.accepted Ballot.counts
  rw [admissible]
  cases b <;> simp [types, methods, fields, Partition.accepts_of_counts]

/-- Every fair ballot counts. -/
theorem counts (isOpen : l.IsOpen) {c : Context} {b : Ballot} (fair : b.IsFair c) :
    b.counts c l = true := by
  rw [(isOpen.judged b).2]
  exact fair.isCompatible

theorem accepted (isOpen : l.IsOpen) {c : Context} {b : Ballot} (fair : b.IsFair c) :
    b.isAdmissible c l = true ∧ b.accepted c l = true :=
  Ballot.accepted_of_counts (isOpen.counts fair)

/-- Ballots confirm nothing. -/
theorem cast (isOpen : l.IsOpen) (c : Context) (b : Ballot) : (b.cast c l).IsOpen := by
  unfold Ballot.cast
  split_ifs
  · cases b with
    | type old new => exact ⟨isOpen.types.vote _ new, isOpen.methods, isOpen.fields⟩
    | method old new => exact ⟨isOpen.types, isOpen.methods.vote _ new, isOpen.fields⟩
    | field old new => exact ⟨isOpen.types, isOpen.methods, isOpen.fields.vote _ new⟩
  · exact isOpen

/-- **Every fair ballot that is cast counts.** -/
theorem castAll (isOpen : l.IsOpen) {c : Context} {ballots : List Ballot}
    (fair : ∀ b ∈ ballots, b.IsFair c) :
    (l.castAll c ballots).IsOpen ∧
      ∀ o n, (l.castAll c ballots).types.tally (.real o) n =
        l.types.tally (.real o) n + ballots.count (.type o n) := by
  constructor
  · exact List.foldlRecOn ballots _ isOpen fun _ isOpen b _ => isOpen.cast c b
  · intro o n
    have all : (ballots.filter fun b => b.counts c l) = ballots :=
      List.filter_eq_self.mpr fun b member => isOpen.counts (fair b member)
    have gained := (l.castAll_gains c ballots).tally (.type o n)
    rw [all] at gained
    exact gained

end IsOpen

end Ledger

/-! ## Comparisons -/

/-- A comparison of accepted ballots alone goes through all of them. -/
theorem Comparison.verdict_of_accepted {accepted : Ballot → Bool} {ballots : List Ballot}
    (all : ∀ b ∈ ballots, accepted b = true) :
    Comparison.verdict accepted (ballots.map .ballot) = ⟨true, ballots⟩ := by
  induction ballots with
  | nil => rfl
  | cons b rest ih =>
      obtain ⟨first, later⟩ := List.forall_mem_cons.mp all
      rw [List.map_cons, verdict, if_pos first, ih later]

end Namesake
