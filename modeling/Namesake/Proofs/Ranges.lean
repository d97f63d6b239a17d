import Namesake.Proofs.BuiltIndexes
import Namesake.Proofs.Exploring
import Namesake.Proofs.LedgerRules
import Namesake.Proofs.Undecided

/-! # Staying in range

A number that is looked up in a program should be one of that program. This is spelled out for
everything numbers come from: a program itself, with its hierarchy and its nesting
(`Program.Closed`); what is worked out about a build (`Build.InRange`); a ledger, where old things
belong to one program and their candidates, targets and hints to another (`Ledger.InRange`); and
actions. Valid programs are closed, and a lawful ledger that may name nothing else is in range.
-/

namespace Namesake

/-! ## Programs -/

namespace Program

/-- Whatever a program leads to, by name, along the hierarchy, by nesting or from type to member and
back, is part of it. -/
structure Closed (p : Program) : Prop where
  named : ∀ {name t}, p.typeNamed? name = some t → p.HasType t
  methods : ∀ {t m}, m ∈ (p.type t).methods → p.HasMethod m
  fields : ∀ {t f}, f ∈ (p.type t).fields → p.HasField f
  methodOwner : ∀ {m}, p.HasMethod m → p.HasType (p.method m).owner
  fieldOwner : ∀ {f}, p.HasField f → p.HasType (p.field f).owner
  superclasses : ∀ {t u}, p.HasType t → u ∈ p.superclassChain t → p.HasType u
  supertypes : ∀ {t u}, p.HasType t → u ∈ p.supertypeClosure t → p.HasType u
  subtypes : ∀ {t u}, u ∈ p.subtypes.getD t [] → p.HasType u
  ordered : ∀ {t}, t ∈ p.supertypesFirst → p.HasType t
  outer : ∀ {t u}, p.outerType? t = some u → p.HasType u
  nested : ∀ {t u}, u ∈ p.nestedIn t → p.HasType u

theorem Coherent.closed {p : Program} (coherent : p.Coherent) : p.Closed where
  named found := (coherent.named found).1
  methods listed := (coherent.methodListed listed).1
  fields listed := (coherent.fieldListed listed).1
  methodOwner := coherent.hasType_methodOwner
  fieldOwner := coherent.hasType_fieldOwner
  superclasses inside member := by
    rcases List.mem_cons.mp (mem_of_mem_explore member) with rfl | listed
    · exact inside
    · exact mem_typeIds.mp listed
  supertypes inside member := by
    rcases List.mem_cons.mp (mem_of_mem_explore member) with rfl | listed
    · exact inside
    · exact mem_typeIds.mp listed
  subtypes member := (coherent.mem_subtypes_iff.mp member).hasType
  ordered member := by
    rcases mem_of_mem_postorder member with inside | waiting
    · exact mem_typeIds.mp inside
    · obtain ⟨t, -, impossible⟩ := List.mem_map.mp waiting
      cases impossible
  outer := coherent.hasType_of_outerType?
  nested := hasType_of_mem_nestedIn

end Program

/-! ## Builds -/

/-- All numbers of a build are in range: those in its program, in its groups and in its index. -/
structure Build.InRange (b : Build) : Prop where
  closed : b.program.Closed
  grouped : ∀ {m n}, b.groups.groupOf.get? m = some n →
    b.program.HasMethod m ∧ n < b.groups.archetypes.length
  archetype : ∀ {m}, m ∈ b.groups.archetypes → b.program.HasMethod m
  reference : ∀ {r}, b.references.entries.contains r = true → r.IsWithin b.program
  referrer : ∀ {r m}, m ∈ b.references.referrers r → b.program.HasMethod m

theorem Build.inRange {b : Build} (coherent : b.program.Coherent) : b.InRange := by
  refine ⟨coherent.closed, ?_, ?_, ?_, ?_⟩
  · intro m n found
    rw [b.groups_eq] at found ⊢
    exact ⟨((OverrideGroups.isGrouped_build_iff coherent).mp ⟨n, found⟩).1,
      OverrideGroups.lt_length_archetypes found⟩
  · intro m member
    rw [b.groups_eq] at member
    exact OverrideGroups.hasMethod_of_mem_archetypes coherent member
  · intro r known
    rw [b.references_eq] at known
    exact ReferenceIndex.isWithin_of_contains_build coherent known
  · intro r m member
    rw [b.references_eq] at member
    exact ReferenceIndex.isWithin_build b.program r m member

/-! ## Ledgers -/

namespace Partition

variable {ι : Type} [KeyOrder ι]

/-- All numbers of a partition are in range: those of old things, of new things, and of the new
types that are hinted at. -/
structure InRange (isOld isNew : ι → Prop) (isOwner : TypeId → Prop) (p : Partition ι) :
    Prop where
  /-- What has an entry, and what an entry says it is about. -/
  subject : ∀ {k e o}, p.HasEntry k e → k = .real o ∨ e.old = .real o → isOld o
  candidate : ∀ {k e n}, p.HasEntry k e → e.votes.contains n = true → isNew n
  highest : ∀ {k e n}, p.HasEntry k e → e.highest = some n → isNew n
  target : ∀ {k e n}, p.HasEntry k e → e.target = some n → isNew n
  hint : ∀ {k e t}, p.HasEntry k e → e.ownerHint = some t → isOwner t
  claimed : ∀ {n k}, p.inverse.get? n = some k → isNew n
  holder : ∀ {n o}, p.inverse.get? n = some (.real o) → isOld o

variable {p : Partition ι} {r : Rules ι}

/-- Where the rules only allow what is in range, and nothing pending has a target, all is in
range. -/
theorem Lawful.inRange {isOld isNew : ι → Prop} {isOwner : TypeId → Prop} (lawful : p.Lawful r)
    (undecided : p.Undecided) (subject : ∀ o, r.subject (.real o) → isOld o)
    (ballot : ∀ k n, r.ballot k n → isNew n) (pair : ∀ k n, r.pair k n → isNew n)
    (hint : ∀ k t, r.hint k t → isOwner t) : p.InRange isOld isNew isOwner where
  subject {k e o} entry about := by
    apply subject o
    rcases about with rfl | about
    · exact lawful.follows.subject entry
    · rw [← about]
      have key : e.old = k := entry.elim lawful.sound.pendingKey lawful.sound.confirmedKey
      exact key ▸ lawful.follows.subject entry
  candidate {k e n} entry voted := by
    rcases entry with found | found
    · exact ballot k n (lawful.follows.ballot found voted)
    · rw [(lawful.sound.bare found).votes] at voted
      cases voted
  highest {k e n} entry leads := by
    rcases entry with found | found
    · exact ballot k n (lawful.follows.ballot found (lawful.sound.leader found n leads))
    · rw [(lawful.sound.bare found).highest] at leads
      cases leads
  target {k e n} entry fixed := by
    rcases entry with found | found
    · rw [undecided k e found] at fixed
      cases fixed
    · exact pair k n (lawful.follows.pair (target?_eq_some_iff.mpr ⟨e, found, fixed⟩))
  hint {k e t} entry set := hint k t (lawful.follows.hint entry set)
  claimed {n k} held := pair k n (lawful.follows.pair (lawful.sound.holder_iff.mp held))
  holder {n o} held := by
    obtain ⟨e, found, -⟩ := target?_eq_some_iff.mp (lawful.sound.holder_iff.mp held)
    exact subject o (lawful.follows.subject (.inr found))

/-- A confirmed pair is in range where the rules only allow what is. -/
theorem Lawful.inRange_of_target? {isOld isNew : ι → Prop} (lawful : p.Lawful r)
    (subject : ∀ o, r.subject (.real o) → isOld o) (pair : ∀ k n, r.pair k n → isNew n) {o n : ι}
    (target : p.target? (.real o) = some n) : isOld o ∧ isNew n := by
  obtain ⟨e, found, -⟩ := target?_eq_some_iff.mp target
  exact ⟨subject o (lawful.follows.subject (.inr found)),
    pair _ n (lawful.follows.pair target)⟩

/-- So is what a confirmed entry is about and what it is confirmed onto. -/
theorem Lawful.inRange_of_mem_confirmed {isOld isNew : ι → Prop} (lawful : p.Lawful r)
    (subject : ∀ o, r.subject (.real o) → isOld o) (pair : ∀ k n, r.pair k n → isNew n)
    {e : MatchEntry ι} (member : e ∈ p.confirmed.values) :
    (∀ o, e.old = .real o → isOld o) ∧ ∀ n, e.target = some n → isNew n := by
  obtain ⟨k, found⟩ := SortedMap.mem_values.mp member
  have key := lawful.sound.confirmedKey found
  constructor
  · intro o about
    refine subject o (lawful.follows.subject (e := e) (.inr ?_))
    rw [← about, key]
    exact found
  · exact fun n fixed => pair k n (lawful.follows.pair (target?_eq_some_iff.mpr ⟨e, found, fixed⟩))

end Partition

namespace Ledger

/-- All numbers of a ledger are in range of an old and a new program. -/
structure InRange (old new : Program) (l : Ledger) : Prop where
  types : l.types.InRange old.HasType new.HasType new.HasType
  methods : l.methods.InRange old.HasMethod new.HasMethod new.HasType
  fields : l.fields.InRange old.HasField new.HasField new.HasType

/-- A lawful ledger that may name nothing but what is in the programs is in range. -/
theorem Lawful.inRange {c : Context} {coherent : c.new.program.Coherent} {l : Ledger}
    (lawful : l.Lawful c (.inside coherent)) (undecided : l.Undecided) :
    l.InRange c.old.program c.new.program where
  types := by
    apply lawful.types.inRange undecided.types
    · exact fun o subject => subject o rfl
    · exact fun k n ballot => ballot
    · exact fun k n pair => pair
    · exact fun k t impossible => impossible.elim
  methods := by
    apply lawful.methods.inRange undecided.methods
    · exact fun o subject => subject o rfl
    · exact fun k n ballot => ballot.1
    · exact fun k n pair => pair.1
    · rintro k t ⟨o, -, target⟩
      exact lawful.types.follows.pair target
  fields := by
    apply lawful.fields.inRange undecided.fields
    · exact fun o subject => subject o rfl
    · exact fun k n ballot => ballot.1
    · exact fun k n pair => pair.1
    · rintro k t ⟨o, -, target⟩
      exact lawful.types.follows.pair target

/-! ### What is confirmed -/

section

variable {c : Context} {coherent : c.new.program.Coherent} {l : Ledger}
  (lawful : l.Lawful c (.inside coherent))

include lawful

theorem Lawful.hasType_of_target? {o n : TypeId} (target : l.types.target? (.real o) = some n) :
    c.old.program.HasType o ∧ c.new.program.HasType n :=
  lawful.types.inRange_of_target? (fun o subject => subject o rfl) (fun _ _ pair => pair) target

theorem Lawful.hasMethod_of_target? {o n : MethodId}
    (target : l.methods.target? (.real o) = some n) :
    c.old.program.HasMethod o ∧ c.new.program.HasMethod n :=
  lawful.methods.inRange_of_target? (fun o subject => subject o rfl) (fun _ _ pair => pair.1) target

theorem Lawful.hasField_of_target? {o n : FieldId} (target : l.fields.target? (.real o) = some n) :
    c.old.program.HasField o ∧ c.new.program.HasField n :=
  lawful.fields.inRange_of_target? (fun o subject => subject o rfl) (fun _ _ pair => pair.1) target

theorem Lawful.hasType_of_mem_confirmed {e : MatchEntry TypeId}
    (member : e ∈ l.types.confirmed.values) :
    (∀ o, e.old = .real o → c.old.program.HasType o) ∧
      ∀ n, e.target = some n → c.new.program.HasType n :=
  lawful.types.inRange_of_mem_confirmed (fun o subject => subject o rfl) (fun _ _ pair => pair)
    member

theorem Lawful.hasMethod_of_mem_confirmed {e : MatchEntry MethodId}
    (member : e ∈ l.methods.confirmed.values) :
    (∀ o, e.old = .real o → c.old.program.HasMethod o) ∧
      ∀ n, e.target = some n → c.new.program.HasMethod n :=
  lawful.methods.inRange_of_mem_confirmed (fun o subject => subject o rfl)
    (fun _ _ pair => pair.1) member

theorem Lawful.hasField_of_mem_confirmed {e : MatchEntry FieldId}
    (member : e ∈ l.fields.confirmed.values) :
    (∀ o, e.old = .real o → c.old.program.HasField o) ∧
      ∀ n, e.target = some n → c.new.program.HasField n :=
  lawful.fields.inRange_of_mem_confirmed (fun o subject => subject o rfl)
    (fun _ _ pair => pair.1) member

end

end Ledger

/-! ## Actions -/

/-- A ballot is for things of the two programs. -/
def Ballot.InRange (old new : Program) : Ballot → Prop
  | type o n => old.HasType o ∧ new.HasType n
  | method o n => old.HasMethod o ∧ new.HasMethod n
  | field o n => old.HasField o ∧ new.HasField n

/-- What an action casts or confirms is in range. -/
def Action.InRange (old new : Program) : Action → Prop
  | vote b => b.InRange old new
  | confirmType k n => (∀ o, k = .real o → old.HasType o) ∧ new.HasType n
  | confirmMethod k n => (∀ o, k = .real o → old.HasMethod o) ∧ new.HasMethod n
  | confirmField k n => (∀ o, k = .real o → old.HasField o) ∧ new.HasField n
  | mergedType _ | mergedMethod _ | mergedField _ => True

theorem Ballot.IsWellFormed.inRange {c : Context} {coherent : c.new.program.Coherent} {b : Ballot}
    (formed : b.IsWellFormed c (.inside coherent)) : b.InRange c.old.program c.new.program := by
  cases b <;> exact formed

theorem Action.Warranted.inRange {c : Context} {coherent : c.new.program.Coherent} {l : Ledger}
    {a : Action} (warranted : a.Warranted c (.inside coherent) l) :
    a.InRange c.old.program c.new.program := by
  cases a with
  | vote b => exact Ballot.IsWellFormed.inRange warranted
  | confirmType k n => exact warranted
  | confirmMethod k n => exact ⟨warranted.1, warranted.2.1⟩
  | confirmField k n => exact ⟨warranted.1, warranted.2.1⟩
  | mergedType | mergedMethod | mergedField => trivial

end Namesake
