import Namesake.Proofs.LedgerRules
import Namesake.Proofs.Reachable

/-! # Votes of members whose owners are confirmed

The rules of members say that a pending member has votes for members of its owner's counterpart only
(`MemberKind.rules`), where everything that is done is warranted. The part of them that is about
pending members alone (`MemberKind.pendingRules`) holds in every reachable state
(`State.Reachable.heeds`), whatever pairs of members are confirmed: a vote is checked when it is
cast, and confirming a type takes back the votes of its members that no longer fit. Bridges among
the methods escape the check, but not the withdrawal. So once confirmations are all that happens,
only bridges whose owners were confirmed at the beginning are exempt
(`Ledger.Heeds.exempting_confirmed`).
-/

namespace Namesake

/-! ## Rules of pending members -/

namespace MemberKind

variable {ι : Type}

/-- The rules of pending members while certain types are confirmed. They bind members of the old
program, and say nothing about what is confirmed. -/
def pendingRules (kind : MemberKind ι) (types : Partition TypeId) : Partition.Rules ι where
  subject _ := True
  ballot k n := ∀ o, k = .real o → kind.isOld o → kind.isExempt o n ∨
    ∀ t, types.target? (.real (kind.oldOwner o)) = some t → kind.newOwner n = t
  pair _ _ := True
  hint k t := ∀ o, k = .real o → kind.isOld o →
    types.target? (.real (kind.oldOwner o)) = some t

/-- The kind with other exemptions. -/
def exempting (kind : MemberKind ι) (exempt : ι → ι → Prop) : MemberKind ι :=
  { kind with isExempt := exempt }

variable {kind : MemberKind ι} {types types' : Partition TypeId}

variable [KeyOrder ι] {p : Partition ι}

theorem follows_pendingRules_of_target?_eq (follows : p.Follows (kind.pendingRules types))
    (same : ∀ t, types'.target? (.real t) = types.target? (.real t)) :
    p.Follows (kind.pendingRules types') := by
  have rules_eq : kind.pendingRules types' = kind.pendingRules types := by
    unfold pendingRules
    simp only [same]
  rw [rules_eq]
  exact follows

/-- An exemption is dispensable where the owner is not confirmed. -/
theorem follows_exempting_confirmed (follows : p.Follows (kind.pendingRules types)) :
    p.Follows ((kind.exempting fun o n => kind.isExempt o n ∧
      (types.target? (.real (kind.oldOwner o))).isSome = true).pendingRules types) where
  subject _ := trivial
  ballot {k e n} found voted := by
    intro o key inside
    rcases follows.ballot found voted o key inside with exempt | fits
    · cases target : types.target? (.real (kind.oldOwner o)) with
      | none => exact .inr fun t confirmed => absurd (target.symm.trans confirmed) nofun
      | some t => exact .inl ⟨exempt, Option.isSome_of_eq_some target⟩
    · exact .inr fits
  pair _ := trivial
  hint entry set := follows.hint entry set

/-- A vote that may be cast goes to a member of the counterpart of the owner, if there is one. -/
theorem owner_of_requiredOwner {l : Ledger} (follows : p.Follows (kind.pendingRules l.types))
    {old : ι} (inside : kind.isOld old) {owner : TypeId}
    (admitted : (Ballot.requiredOwner? l p old (kind.oldOwner old)).all
      (fun t => decide (t = owner)) = true) {t : TypeId}
    (target : l.types.target? (.real (kind.oldOwner old)) = some t) : owner = t := by
  have required : Ballot.requiredOwner? l p old (kind.oldOwner old) = some t := by
    unfold Ballot.requiredOwner?
    cases hinted : (p.get? (.real old)) >>= (·.ownerHint) with
    | none => exact target
    | some h =>
        obtain ⟨e, found, hint⟩ := Option.bind_eq_some_iff.mp hinted
        have same := follows.hint (Partition.hasEntry_of_get? found) hint old rfl inside
        rw [Option.some_or, ← same, target]
  rw [required, Option.all_some, decide_eq_true_eq] at admitted
  exact admitted.symm

variable [DecidableEq ι]

/-- Cutting down the votes of its members restores the rules after a type is confirmed. -/
theorem follows_pendingRules_restricted (follows : p.Follows (kind.pendingRules types))
    {old new : TypeId} {members : List ι}
    (listed : ∀ m, kind.isOld m → kind.oldOwner m = old → m ∈ members)
    (owned : ∀ m ∈ members, kind.oldOwner m = old) (extends_ : types.Extends types')
    (confirmed : types'.target? (.real old) = some new)
    (others : ∀ t, t ≠ old → types'.target? (.real t) = types.target? (.real t)) :
    (p.restricted kind.newOwner new members).Follows (kind.pendingRules types') := by
  apply follows.restrict members
  · exact fun _ _ => trivial
  · intro k n _ ballot restricted o key inside
    refine (ballot o key inside).imp_right ?_
    intro fits t target
    by_cases here : kind.oldOwner o = old
    · rw [here, confirmed] at target
      exact (restricted o (listed o inside here) key).trans (Option.some.inj target)
    · rw [others _ here] at target
      exact fits t target
  · exact fun _ _ _ => trivial
  · exact fun k t hint o key inside => extends_ _ _ (hint o key inside)
  · rintro m member o ⟨rfl⟩ -
    rw [owned m member]
    exact confirmed

end MemberKind

/-! ## Ledgers that heed owners -/

/-- One of two methods is a bridge. -/
def Context.IsBridged (c : Context) (o n : MethodId) : Prop :=
  (c.old.program.method o).isSynthetic = true ∨ (c.new.program.method n).isSynthetic = true

/-- What the rules of methods go by, where certain pairs are exempt. -/
def Context.methodKindExempting (c : Context) (exempt : MethodId → MethodId → Prop) :
    MemberKind MethodId :=
  (c.methodKind (.unlimited _)).exempting exempt

/-- Pending members have votes for members of the counterparts of their owners only, but for certain
pairs of methods. -/
structure Ledger.Heeds (c : Context) (exempt : MethodId → MethodId → Prop) (l : Ledger) :
    Prop where
  methods : l.methods.Follows ((c.methodKindExempting exempt).pendingRules l.types)
  fields : l.fields.Follows ((c.fieldKind (.unlimited _)).pendingRules l.types)

namespace Ledger.Heeds

variable {c : Context} {exempt : MethodId → MethodId → Prop} {l : Ledger}

theorem empty (c : Context) (exempt : MethodId → MethodId → Prop) : (∅ : Ledger).Heeds c exempt :=
  ⟨Partition.empty_follows _, Partition.empty_follows _⟩

/-- Types that are confirmed onto the same counterparts make no difference. -/
theorem of_types (heeds : l.Heeds c exempt) {types : Partition TypeId}
    (same : ∀ t, types.target? (.real t) = l.types.target? (.real t)) :
    Heeds c exempt { l with types } :=
  ⟨MemberKind.follows_pendingRules_of_target?_eq heeds.methods same,
    MemberKind.follows_pendingRules_of_target?_eq heeds.fields same⟩

/-- If bridges are exempt, only those need be whose owners are confirmed. -/
theorem exempting_confirmed (heeds : l.Heeds c c.IsBridged) :
    l.Heeds c fun o n => c.IsBridged o n ∧
      (l.types.target? (.real (c.old.program.method o).owner)).isSome = true :=
  ⟨MemberKind.follows_exempting_confirmed heeds.methods, heeds.fields⟩

/-- A ballot is checked before it is cast, unless it is about a bridge. -/
theorem cast (bridges : ∀ o n, c.IsBridged o n → exempt o n) (heeds : l.Heeds c exempt)
    (b : Ballot) : (b.cast c l).Heeds c exempt := by
  unfold Ballot.cast
  split_ifs with admissible
  swap
  · exact heeds
  cases b with
  | type old new =>
      apply heeds.of_types
      intro t
      simp only [Partition.target?, Partition.confirmed_vote]
  | method old new =>
      refine ⟨heeds.methods.vote trivial fun _ => ?_, heeds.fields⟩
      rintro o ⟨rfl⟩ inside
      simp only [Ballot.isAdmissible, Bool.or_eq_true, Bool.and_eq_true] at admissible
      rcases admissible with bridged | ⟨-, admitted⟩
      · exact .inl (bridges old new bridged)
      · exact .inr fun t target =>
          MemberKind.owner_of_requiredOwner heeds.methods inside admitted target
  | field old new =>
      refine ⟨heeds.methods, heeds.fields.vote trivial fun _ => ?_⟩
      rintro o ⟨rfl⟩ inside
      simp only [Ballot.isAdmissible, Bool.and_eq_true] at admissible
      exact .inr fun t target =>
        MemberKind.owner_of_requiredOwner heeds.fields inside admissible.2 target

variable (coherent : c.old.program.Coherent)

include coherent

/-- Settling a type cuts down the votes of its members, bridges or not. -/
theorem settleType (heeds : l.Heeds c exempt) {old : Handle TypeId}
    (fresh : l.types.isConfirmed old = false) (new : TypeId) :
    (l.settleType c old new).Heeds c exempt := by
  have extends_ := Partition.extends_settle (l.types.entryFor old new) new fresh
  cases old with
  | real o =>
      have confirmed : (l.types.settle (.real o) (l.types.entryFor (.real o) new) new).target?
          (.real o) = some new := by
        rw [Partition.target?_settle, if_pos rfl]
        rfl
      have others : ∀ t, t ≠ o → (l.types.settle (.real o) (l.types.entryFor (.real o) new)
          new).target? (.real t) = l.types.target? (.real t) := by
        intro t other
        rw [Partition.target?_settle, if_neg]
        intro same
        exact other (Handle.real.inj same).symm
      constructor
      · refine MemberKind.follows_pendingRules_restricted heeds.methods ?_ ?_ extends_ confirmed
          others
        · rintro m inside rfl
          exact coherent.methodOwned inside
        · intro m member
          exact (coherent.methodListed member).2
      · refine MemberKind.follows_pendingRules_restricted heeds.fields ?_ ?_ extends_ confirmed
          others
        · rintro f inside rfl
          exact coherent.fieldOwned inside
        · intro f member
          exact (coherent.fieldListed member).2
  | synthetic s =>
      apply heeds.of_types
      intro t
      rw [Partition.target?_settle, if_neg]
      exact nofun

/-- **Actions keep votes in line with owners**, if bridges are exempt or no votes are cast. -/
theorem after {s : State} (heeds : s.ledger.Heeds c exempt) {a : Action}
    (bridges : a.isConfirmation = true ∨ ∀ o n, c.IsBridged o n → exempt o n) :
    (s.after c a).ledger.Heeds c exempt := by
  cases a with
  | vote b => exact heeds.cast (bridges.resolve_left nofun) b
  | confirmType old new =>
      simp only [State.after, State.confirmType]
      split_ifs with taken
      · exact heeds
      · exact heeds.settleType coherent
          (Partition.isTaken_eq_false_iff.mp (Bool.not_eq_true _ ▸ taken)).1 new
  | confirmMethod old new =>
      simp only [State.after, State.confirmMethod]
      split_ifs
      · exact heeds
      · exact ⟨heeds.methods.settle trivial trivial, heeds.fields⟩
  | confirmField old new =>
      simp only [State.after, State.confirmField]
      split_ifs
      · exact heeds
      · exact ⟨heeds.methods, heeds.fields.settle trivial trivial⟩
  | mergedType old => exact heeds.of_types fun t => Partition.target?_marked _ _ _
  | mergedMethod old => exact ⟨heeds.methods.marked _, heeds.fields⟩
  | mergedField old => exact ⟨heeds.methods, heeds.fields.marked _⟩

end Ledger.Heeds

/-- **In every reachable state the votes of members are in line with their owners**, except for
bridges. -/
theorem State.Reachable.heeds {c : Context} {s : State} (reachable : s.Reachable c)
    (coherent : c.old.program.Coherent) : s.ledger.Heeds c c.IsBridged := by
  induction reachable with
  | initial => exact .empty c _
  | @performed s s' before a done ih =>
      rw [a.perform_eq] at done
      cases done
      exact ih.after coherent (.inr fun _ _ => id)
  | looked before ih => exact ih

end Namesake
