import Namesake.Proofs.Actions
import Namesake.Proofs.ValidPrograms

/-! # Lawful ledgers

Members follow their owners: a confirmed pair of members belongs to a confirmed pair of types, a
member whose owner is confirmed has votes for members of the counterpart only, and a hint is that
counterpart. Compiler-made methods are exempt as far as pairs and votes go. The rules of the members
thus depend on the types confirmed so far (`MemberKind.rules`), and a ledger is lawful if its three
partitions are sound and within the rules (`Ledger.Lawful`).

Every action keeps a ledger lawful if it is warranted (`Ledger.Lawful.after`): votes are checked
when they are cast, and a confirmed type has the votes of its members cut down, so only a
confirmation of members has to bring its reasons along.
-/

namespace Namesake

/-- What a merge may name: all types of the old program and everything in the new one, and possibly
more. With a new member its owner may be named. -/
structure Pool (old new : Program) where
  oldType : TypeId → Prop
  type : TypeId → Prop
  method : MethodId → Prop
  field : FieldId → Prop
  has_oldType : ∀ {t}, old.HasType t → oldType t
  has_type : ∀ {t}, new.HasType t → type t
  has_method : ∀ {m}, new.HasMethod m → method m
  has_field : ∀ {f}, new.HasField f → field f
  has_methodOwner : ∀ {m}, method m → type (new.method m).owner
  has_fieldOwner : ∀ {f}, field f → type (new.field f).owner

namespace Pool

/-- Any types of the old program and any new things at all. -/
def unlimited {old : Program} (new : Program) : Pool old new where
  oldType _ := True
  type _ := True
  method _ := True
  field _ := True
  has_oldType _ := trivial
  has_type _ := trivial
  has_method _ := trivial
  has_field _ := trivial
  has_methodOwner _ := trivial
  has_fieldOwner _ := trivial

/-- What is in the two programs, and nothing else. -/
def inside {old new : Program} (coherent : new.Coherent) : Pool old new where
  oldType := old.HasType
  type := new.HasType
  method := new.HasMethod
  field := new.HasField
  has_oldType := id
  has_type := id
  has_method := id
  has_field := id
  has_methodOwner := coherent.hasType_methodOwner
  has_fieldOwner := coherent.hasType_fieldOwner

end Pool

/-! ## Rules of members -/

/-- What the rules of the members of a kind go by. -/
structure MemberKind (ι : Type) where
  /-- Whether a member is part of the old program. -/
  isOld : ι → Prop
  /-- Which new members may be named. -/
  isNew : ι → Prop
  oldOwner : ι → TypeId
  newOwner : ι → TypeId
  /-- Whether a pair need not follow its owners. -/
  isExempt : ι → ι → Prop
  /-- Whether both members are static or neither is. -/
  isAlike : ι → ι → Prop

namespace Context

/-- What the rules of methods go by. -/
def methodKind (c : Context) (pool : Pool c.old.program c.new.program) : MemberKind MethodId where
  isOld := c.old.program.HasMethod
  isNew := pool.method
  oldOwner m := (c.old.program.method m).owner
  newOwner m := (c.new.program.method m).owner
  isExempt o n :=
    (c.old.program.method o).isSynthetic = true ∨ (c.new.program.method n).isSynthetic = true
  isAlike o n := (c.old.program.method o).isStatic = (c.new.program.method n).isStatic

/-- What the rules of fields go by. -/
def fieldKind (c : Context) (pool : Pool c.old.program c.new.program) : MemberKind FieldId where
  isOld := c.old.program.HasField
  isNew := pool.field
  oldOwner f := (c.old.program.field f).owner
  newOwner f := (c.new.program.field f).owner
  isExempt _ _ := False
  isAlike o n := (c.old.program.field o).isStatic = (c.new.program.field n).isStatic

end Context

/-- The rules of types: only what may be named, and no hints. -/
def typeRules {old new : Program} (pool : Pool old new) : Partition.Rules TypeId where
  subject k := ∀ o, k = .real o → pool.oldType o
  ballot _ n := pool.type n
  pair _ n := pool.type n
  hint _ _ := False

namespace MemberKind

variable {ι : Type}

/-- The rules of members while certain types are confirmed. -/
def rules (kind : MemberKind ι) (types : Partition TypeId) : Partition.Rules ι where
  subject k := ∀ o, k = .real o → kind.isOld o
  ballot k n := kind.isNew n ∧ ∀ o, k = .real o → kind.isExempt o n ∨
    kind.isAlike o n ∧ ∀ t, types.target? (.real (kind.oldOwner o)) = some t → kind.newOwner n = t
  pair k n := kind.isNew n ∧ ∀ o, k = .real o → kind.isExempt o n ∨
    kind.isAlike o n ∧ types.target? (.real (kind.oldOwner o)) = some (kind.newOwner n)
  hint k t := ∃ o, k = .real o ∧ types.target? (.real (kind.oldOwner o)) = some t

variable (kind : MemberKind ι) {types types' : Partition TypeId}

/-- A pair that is allowed stays so as types are confirmed. -/
theorem pair_mono (extends_ : types.Extends types') {k : Handle ι} {n : ι}
    (allowed : (kind.rules types).pair k n) : (kind.rules types').pair k n := by
  refine ⟨allowed.1, ?_⟩
  intro o key
  rcases allowed.2 o key with exempt | ⟨alike, owner⟩
  · exact .inl exempt
  · exact .inr ⟨alike, extends_ _ _ owner⟩

theorem hint_mono (extends_ : types.Extends types') {k : Handle ι} {t : TypeId}
    (allowed : (kind.rules types).hint k t) : (kind.rules types').hint k t := by
  obtain ⟨o, key, owner⟩ := allowed
  exact ⟨o, key, extends_ _ _ owner⟩

variable [KeyOrder ι]

/-- Members stay within their rules when the confirmed counterparts of real types do not change. -/
theorem follows_of_target?_eq {p : Partition ι} (follows : p.Follows (kind.rules types))
    (same : ∀ t, types'.target? (.real t) = types.target? (.real t)) :
    p.Follows (kind.rules types') := by
  have rules_eq : kind.rules types' = kind.rules types := by
    unfold rules
    simp only [same]
  rw [rules_eq]
  exact follows

/-- Cutting down the votes of its members restores the rules after a type is confirmed. -/
theorem follows_restricted [DecidableEq ι] {p : Partition ι}
    (follows : p.Follows (kind.rules types)) {old new : TypeId} {members : List ι}
    (listed : ∀ m, kind.isOld m → kind.oldOwner m = old → m ∈ members)
    (owned : ∀ m ∈ members, kind.oldOwner m = old) (extends_ : types.Extends types')
    (confirmed : types'.target? (.real old) = some new)
    (others : ∀ t, t ≠ old → types'.target? (.real t) = types.target? (.real t)) :
    (p.restricted kind.newOwner new members).Follows (kind.rules types') := by
  apply follows.restrict members
  · exact fun k subject => subject
  · intro k n subject ballot restricted
    refine ⟨ballot.1, ?_⟩
    intro o key
    rcases ballot.2 o key with exempt | ⟨alike, owner⟩
    · exact .inl exempt
    refine .inr ⟨alike, ?_⟩
    intro t target
    by_cases here : kind.oldOwner o = old
    · have member := listed o (subject o key) here
      rw [here, confirmed] at target
      exact (restricted o member key).trans (Option.some.inj target)
    · rw [others _ here] at target
      exact owner t target
  · exact fun k n => kind.pair_mono extends_
  · exact fun k t => kind.hint_mono extends_
  · intro m member
    exact ⟨m, rfl, (owned m member).symm ▸ confirmed⟩

end MemberKind

/-! ## Lawful ledgers -/

namespace Partition

variable {ι : Type} [KeyOrder ι]

/-- Sound, and within rules. -/
structure Lawful (p : Partition ι) (r : Rules ι) : Prop where
  sound : p.Sound
  follows : p.Follows r

theorem empty_lawful (r : Rules ι) : (∅ : Partition ι).Lawful r := ⟨empty_sound, empty_follows r⟩

variable [DecidableEq ι] {p : Partition ι} {r : Rules ι}

theorem Lawful.vote (lawful : p.Lawful r) {old : Handle ι} {new : ι} (subject : r.subject old)
    (ballot : r.ballot old new) : (p.vote old new).Lawful r :=
  ⟨lawful.sound.vote old new, lawful.follows.vote subject fun _ => ballot⟩

theorem Lawful.marked (lawful : p.Lawful r) (old : Handle ι) : (p.marked old).Lawful r :=
  ⟨lawful.sound.marked old, lawful.follows.marked old⟩

theorem Lawful.settle (lawful : p.Lawful r) {old : Handle ι} {new : ι}
    (free : p.isTaken old new = false) (subject : r.subject old) (pair : r.pair old new) :
    (p.settle old (p.entryFor old new) new).Lawful r := by
  obtain ⟨fresh, unclaimed⟩ := isTaken_eq_false_iff.mp free
  exact ⟨lawful.sound.settle (lawful.sound.old_entryFor old new) rfl fresh unclaimed,
    lawful.follows.settle subject pair⟩

end Partition

namespace Ledger

/-- Each partition is sound and within its rules. -/
structure Lawful (c : Context) (pool : Pool c.old.program c.new.program) (l : Ledger) : Prop where
  types : l.types.Lawful (typeRules pool)
  methods : l.methods.Lawful ((c.methodKind pool).rules l.types)
  fields : l.fields.Lawful ((c.fieldKind pool).rules l.types)

theorem empty_lawful (c : Context) (pool : Pool c.old.program c.new.program) :
    (∅ : Ledger).Lawful c pool :=
  ⟨Partition.empty_lawful _, Partition.empty_lawful _, Partition.empty_lawful _⟩

end Ledger

namespace Ballot

/-- What a ballot must name to be cast: old members that exist, and what else is in the pool. -/
def IsWellFormed (c : Context) (pool : Pool c.old.program c.new.program) : Ballot → Prop
  | type old new => pool.oldType old ∧ pool.type new
  | method old new => c.old.program.HasMethod old ∧ pool.method new
  | field old new => c.old.program.HasField old ∧ pool.field new

/-- Two types that exist may always be voted for. -/
theorem formed_type {c : Context} (pool : Pool c.old.program c.new.program) {o n : TypeId}
    (old : c.old.program.HasType o) (new : c.new.program.HasType n) :
    (type o n).IsWellFormed c pool :=
  ⟨pool.has_oldType old, pool.has_type new⟩

end Ballot

namespace Action

/-- What an action needs: ballots name what exists, and a pair of members is one its rules allow. -/
def Warranted (c : Context) (pool : Pool c.old.program c.new.program) (l : Ledger) : Action → Prop
  | vote b => b.IsWellFormed c pool
  | confirmType old new => (∀ o, old = .real o → pool.oldType o) ∧ pool.type new
  | confirmMethod old new =>
    ((c.methodKind pool).rules l.types).subject old ∧
      ((c.methodKind pool).rules l.types).pair old new
  | confirmField old new =>
    ((c.fieldKind pool).rules l.types).subject old ∧
      ((c.fieldKind pool).rules l.types).pair old new
  | mergedType _ | mergedMethod _ | mergedField _ => True

/-- What is warranted stays so as types are confirmed. -/
theorem Warranted.mono {c : Context} {pool : Pool c.old.program c.new.program} {l l' : Ledger}
    {a : Action} (warranted : a.Warranted c pool l) (extends_ : l.types.Extends l'.types) :
    a.Warranted c pool l' := by
  cases a with
  | confirmMethod old new => exact ⟨warranted.1, (c.methodKind pool).pair_mono extends_ warranted.2⟩
  | confirmField old new => exact ⟨warranted.1, (c.fieldKind pool).pair_mono extends_ warranted.2⟩
  | vote | confirmType | mergedType | mergedMethod | mergedField => exact warranted

variable {c : Context} {pool : Pool c.old.program c.new.program} {l : Ledger}

/-- Two types that exist may always be confirmed. -/
theorem warranted_confirmType {o n : TypeId} (old : c.old.program.HasType o)
    (new : c.new.program.HasType n) : (confirmType (.real o) n).Warranted c pool l := by
  refine ⟨?_, pool.has_type new⟩
  rintro o' ⟨rfl⟩
  exact pool.has_oldType old

/-- A method of the pool may be confirmed for any placeholder. -/
theorem warranted_confirmMethod_synthetic (s : Synthetic) {m : MethodId}
    (named : pool.method m) : (confirmMethod (.synthetic s) m).Warranted c pool l :=
  ⟨nofun, named, nofun⟩

/-- A field of the pool may be confirmed for any placeholder. -/
theorem warranted_confirmField_synthetic (s : Synthetic) {f : FieldId}
    (named : pool.field f) : (confirmField (.synthetic s) f).Warranted c pool l :=
  ⟨nofun, named, nofun⟩

end Action

namespace Ledger.Lawful

variable {c : Context} {pool : Pool c.old.program c.new.program} {l : Ledger}

/-! ## Votes -/

/-- An admissible vote goes to a member of the counterpart of the owner, if there is one. -/
private theorem owner_of_required {ι : Type} [KeyOrder ι] {kind : MemberKind ι}
    {members : Partition ι} (follows : members.Follows (kind.rules l.types)) {old : ι}
    {owner : TypeId}
    (admitted : (Ballot.requiredOwner? l members old (kind.oldOwner old)).all
      (fun t => decide (t = owner)) = true) {t : TypeId}
    (target : l.types.target? (.real (kind.oldOwner old)) = some t) : owner = t := by
  have required : Ballot.requiredOwner? l members old (kind.oldOwner old) = some t := by
    unfold Ballot.requiredOwner?
    cases hinted : (members.get? (.real old)) >>= (·.ownerHint) with
    | none => exact target
    | some h =>
        obtain ⟨e, found, hint⟩ := Option.bind_eq_some_iff.mp hinted
        obtain ⟨o, key, same⟩ := follows.hint (Partition.hasEntry_of_get? found) hint
        obtain rfl := Handle.real.inj key
        rw [Option.some_or, ← same, target]
  rw [required, Option.all_some, decide_eq_true_eq] at admitted
  exact admitted.symm

theorem cast (lawful : l.Lawful c pool) {b : Ballot} (formed : b.IsWellFormed c pool) :
    (b.cast c l).Lawful c pool := by
  unfold Ballot.cast
  split_ifs with admissible
  swap
  · exact lawful
  cases b with
  | type old new =>
      have types : (l.types.vote (.real old) new).Lawful (typeRules pool) := by
        apply lawful.types.vote
        · rintro o ⟨rfl⟩
          exact formed.1
        · exact formed.2
      refine ⟨types, ?_, ?_⟩
      · refine ⟨lawful.methods.sound, ?_⟩
        apply MemberKind.follows_of_target?_eq _ lawful.methods.follows
        intro t
        simp only [Partition.target?, Partition.confirmed_vote]
      · refine ⟨lawful.fields.sound, ?_⟩
        apply MemberKind.follows_of_target?_eq _ lawful.fields.follows
        intro t
        simp only [Partition.target?, Partition.confirmed_vote]
  | method old new =>
      refine ⟨lawful.types, ?_, lawful.fields⟩
      apply lawful.methods.vote
      · rintro o ⟨rfl⟩
        exact formed.1
      · refine ⟨formed.2, ?_⟩
        rintro o ⟨rfl⟩
        simp only [Ballot.isAdmissible, Bool.or_eq_true, Bool.and_eq_true, beq_iff_eq] at admissible
        rcases admissible with exempt | ⟨alike, admitted⟩
        · exact .inl exempt
        · refine .inr ⟨alike, ?_⟩
          intro t target
          exact owner_of_required lawful.methods.follows admitted target
  | field old new =>
      refine ⟨lawful.types, lawful.methods, ?_⟩
      apply lawful.fields.vote
      · rintro o ⟨rfl⟩
        exact formed.1
      · refine ⟨formed.2, ?_⟩
        rintro o ⟨rfl⟩
        simp only [Ballot.isAdmissible, Bool.and_eq_true, beq_iff_eq] at admissible
        refine .inr ⟨admissible.1, ?_⟩
        intro t target
        exact owner_of_required lawful.fields.follows admissible.2 target

/-! ## Confirmations -/

/-- A type that is free can be settled; its members are cut down to those of its counterpart. -/
theorem settleType (coherent : c.old.program.Coherent) (lawful : l.Lawful c pool)
    {old : Handle TypeId} {new : TypeId} (free : l.types.isTaken old new = false)
    (subject : (typeRules pool).subject old) (formed : pool.type new) :
    (l.settleType c old new).Lawful c pool := by
  have settled : (l.types.settle old (l.types.entryFor old new) new).Lawful (typeRules pool) :=
    lawful.types.settle free subject formed
  have extends_ := Partition.extends_settle (l.types.entryFor old new) new
    (Partition.isTaken_eq_false_iff.mp free).1
  cases old with
  | real o =>
      have confirmed : (l.types.settle (.real o) (l.types.entryFor (.real o) new) new).target?
          (.real o) = some new := by
        rw [Partition.target?_settle, if_pos rfl]
        rfl
      have others : ∀ t, t ≠ o → (l.types.settle (.real o) (l.types.entryFor (.real o) new)
          new).target? (.real t) = l.types.target? (.real t) := by
        intro t other
        rw [Partition.target?_settle, if_neg]
        intro same
        exact other (Handle.real.inj same).symm
      refine ⟨settled, ?_, ?_⟩
      · refine ⟨lawful.methods.sound.restricted _, ?_⟩
        refine (c.methodKind pool).follows_restricted lawful.methods.follows ?_ ?_ extends_
          confirmed others
        · rintro m inside rfl
          exact coherent.methodOwned inside
        · intro m member
          exact (coherent.methodListed member).2
      · refine ⟨lawful.fields.sound.restricted _, ?_⟩
        refine (c.fieldKind pool).follows_restricted lawful.fields.follows ?_ ?_ extends_ confirmed
          others
        · rintro f inside rfl
          exact coherent.fieldOwned inside
        · intro f member
          exact (coherent.fieldListed member).2
  | synthetic s =>
      have same : ∀ t, (l.types.settle (.synthetic s) (l.types.entryFor (.synthetic s) new)
          new).target? (.real t) = l.types.target? (.real t) := by
        intro t
        rw [Partition.target?_settle, if_neg]
        exact nofun
      exact ⟨settled,
        ⟨lawful.methods.sound, MemberKind.follows_of_target?_eq _ lawful.methods.follows same⟩,
        ⟨lawful.fields.sound, MemberKind.follows_of_target?_eq _ lawful.fields.follows same⟩⟩

/-- **Warranted actions keep a ledger lawful.** -/
theorem after (coherent : c.old.program.Coherent) {s : State} (lawful : s.ledger.Lawful c pool)
    {a : Action} (warranted : a.Warranted c pool s.ledger) :
    (s.after c a).ledger.Lawful c pool := by
  cases a with
  | vote b => exact lawful.cast warranted
  | confirmType old new =>
      simp only [State.after, State.confirmType]
      split_ifs with taken
      · exact lawful
      · exact lawful.settleType coherent (Bool.not_eq_true _ ▸ taken) warranted.1 warranted.2
  | confirmMethod old new =>
      simp only [State.after, State.confirmMethod]
      split_ifs with taken
      · exact lawful
      · exact ⟨lawful.types,
          lawful.methods.settle (Bool.not_eq_true _ ▸ taken) warranted.1 warranted.2, lawful.fields⟩
  | confirmField old new =>
      simp only [State.after, State.confirmField]
      split_ifs with taken
      · exact lawful
      · exact ⟨lawful.types, lawful.methods,
          lawful.fields.settle (Bool.not_eq_true _ ▸ taken) warranted.1 warranted.2⟩
  | mergedType old =>
      have same : ∀ t, (s.ledger.types.marked (.real old)).target? (.real t) =
          s.ledger.types.target? (.real t) := fun t => Partition.target?_marked _ _ _
      exact ⟨lawful.types.marked _,
        ⟨lawful.methods.sound, MemberKind.follows_of_target?_eq _ lawful.methods.follows same⟩,
        ⟨lawful.fields.sound, MemberKind.follows_of_target?_eq _ lawful.fields.follows same⟩⟩
  | mergedMethod old => exact ⟨lawful.types, lawful.methods.marked _, lawful.fields⟩
  | mergedField old => exact ⟨lawful.types, lawful.methods, lawful.fields.marked _⟩

end Ledger.Lawful

end Namesake
