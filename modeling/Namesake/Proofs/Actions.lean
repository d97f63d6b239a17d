import Namesake.Merge.State
import Namesake.Proofs.PartitionRules

/-! # What an action does

Actions never fail: a confirmation finds a side taken and does nothing, or settles the pair
(`Partition.tryMatch_eq`). `State.after` is the state an action leaves behind, without the monad
around it, and a list of actions is a fold of it (`Action.performAll_eq`).
-/

namespace Namesake

namespace Ledger

/-- The ledger with a type settled, and the votes of its members cut down accordingly. -/
def settleType (c : Context) (l : Ledger) (old : Handle TypeId) (new : TypeId) : Ledger :=
  let settled := { l with types := l.types.settle old (l.types.entryFor old new) new }
  match old with
  | .real o => Work.restrictMembers c settled o new
  | .synthetic _ => settled

/-- The ledger with a method settled. -/
def settleMethod (l : Ledger) (old : Handle MethodId) (new : MethodId) : Ledger :=
  { l with methods := l.methods.settle old (l.methods.entryFor old new) new }

/-- The ledger with a field settled. -/
def settleField (l : Ledger) (old : Handle FieldId) (new : FieldId) : Ledger :=
  { l with fields := l.fields.settle old (l.fields.entryFor old new) new }

section

variable (c : Context) (l : Ledger) (old : Handle TypeId) (new : TypeId)

@[simp]
theorem types_settleType :
    (l.settleType c old new).types = l.types.settle old (l.types.entryFor old new) new := by
  cases old <;> rfl

@[simp]
theorem confirmed_methods_settleType :
    (l.settleType c old new).methods.confirmed = l.methods.confirmed := by
  cases old with
  | real o => exact Partition.confirmed_restricted _ _ _ _
  | synthetic s => rfl

@[simp]
theorem confirmed_fields_settleType :
    (l.settleType c old new).fields.confirmed = l.fields.confirmed := by
  cases old with
  | real o => exact Partition.confirmed_restricted _ _ _ _
  | synthetic s => rfl

@[simp]
theorem inverse_methods_settleType :
    (l.settleType c old new).methods.inverse = l.methods.inverse := by
  cases old with
  | real o => exact Partition.inverse_restricted _ _ _ _
  | synthetic s => rfl

@[simp]
theorem inverse_fields_settleType :
    (l.settleType c old new).fields.inverse = l.fields.inverse := by
  cases old with
  | real o => exact Partition.inverse_restricted _ _ _ _
  | synthetic s => rfl

end

end Ledger

namespace Partition

variable {ι : Type} [KeyOrder ι]

/-- Whether a side of a pair is taken. -/
def isTaken (p : Partition ι) (old : Handle ι) (new : ι) : Bool :=
  p.isConfirmed old || p.isClaimed new

theorem isTaken_eq_false_iff {p : Partition ι} {old : Handle ι} {new : ι} :
    p.isTaken old new = false ↔ p.isConfirmed old = false ∧ p.isClaimed new = false :=
  Bool.or_eq_false_iff

end Partition

namespace State

/-- The state with a type confirmed, if neither side is taken. -/
def confirmType (c : Context) (s : State) (old : Handle TypeId) (new : TypeId) : State :=
  if s.ledger.types.isTaken old new then s else ⟨s.ledger.settleType c old new, s.changes + 1⟩

/-- The state with a method confirmed, if neither side is taken. -/
def confirmMethod (s : State) (old : Handle MethodId) (new : MethodId) : State :=
  if s.ledger.methods.isTaken old new then s else ⟨s.ledger.settleMethod old new, s.changes + 1⟩

/-- The state with a field confirmed, if neither side is taken. -/
def confirmField (s : State) (old : Handle FieldId) (new : FieldId) : State :=
  if s.ledger.fields.isTaken old new then s else ⟨s.ledger.settleField old new, s.changes + 1⟩

/-- The state an action leaves behind. -/
def after (c : Context) (s : State) : Action → State
  | .vote b => { s with ledger := b.cast c s.ledger }
  | .confirmType old new => s.confirmType c old new
  | .confirmMethod old new => s.confirmMethod old new
  | .confirmField old new => s.confirmField old new
  | .mergedType old =>
    { s with ledger := { s.ledger with types := s.ledger.types.marked (.real old) } }
  | .mergedMethod old =>
    { s with ledger := { s.ledger with methods := s.ledger.methods.marked (.real old) } }
  | .mergedField old =>
    { s with ledger := { s.ledger with fields := s.ledger.fields.marked (.real old) } }

end State

/-! ## Work without the monad -/

theorem Work.confirmType_eq (c : Context) (old : Handle TypeId) (new : TypeId) (s : State) :
    Work.confirmType c old new s =
      .ok (!s.ledger.types.isTaken old new) (s.confirmType c old new) := by
  unfold Work.confirmType State.confirmType
  rw [Partition.tryMatch_eq]
  cases taken : s.ledger.types.isTaken old new with
  | true =>
      rw [Partition.isTaken] at taken
      simp [taken]
  | false =>
      rw [Partition.isTaken] at taken
      cases old <;> simp [taken, Ledger.settleType]

theorem Work.confirmMethod_eq (old : Handle MethodId) (new : MethodId) (s : State) :
    Work.confirmMethod old new s =
      .ok (!s.ledger.methods.isTaken old new) (s.confirmMethod old new) := by
  unfold Work.confirmMethod State.confirmMethod
  rw [Partition.tryMatch_eq]
  cases taken : s.ledger.methods.isTaken old new with
  | true =>
      rw [Partition.isTaken] at taken
      simp [taken]
  | false =>
      rw [Partition.isTaken] at taken
      simp [taken, Ledger.settleMethod]

theorem Work.confirmField_eq (old : Handle FieldId) (new : FieldId) (s : State) :
    Work.confirmField old new s =
      .ok (!s.ledger.fields.isTaken old new) (s.confirmField old new) := by
  unfold Work.confirmField State.confirmField
  rw [Partition.tryMatch_eq]
  cases taken : s.ledger.fields.isTaken old new with
  | true =>
      rw [Partition.isTaken] at taken
      simp [taken]
  | false =>
      rw [Partition.isTaken] at taken
      simp [taken, Ledger.settleField]

/-- Work that succeeds hands its answer and its state on to what comes next. -/
theorem bind_of_ok {ε σ α β : Type} {work : EStateM ε σ α} {next : α → EStateM ε σ β} {s s' : σ}
    {a : α} (done : work s = .ok a s') : (work >>= next) s = next a s' := by
  change EStateM.bind work next s = next a s'
  rw [EStateM.bind, done]

/-- What looks at the state goes on with the state it finds. -/
theorem get_bind {ε σ β : Type} (next : σ → EStateM ε σ β) (s : σ) :
    ((get : EStateM ε σ σ) >>= next) s = next s s :=
  bind_of_ok rfl

/-- Work that succeeds still does when its answer is thrown away. -/
theorem Work.discard_eq {α : Type} {work : Work α} {s s' : State} {a : α}
    (done : work s = .ok a s') : (do discard work : Work Unit) s = .ok () s' := by
  simp [discard, Functor.discard, Functor.mapConst, EStateM.map, done]

namespace Action

theorem perform_eq (c : Context) (a : Action) (s : State) :
    a.perform c s = .ok () (s.after c a) := by
  cases a with
  | vote b => exact Work.discard_eq rfl
  | confirmType old new => exact Work.discard_eq (Work.confirmType_eq c old new s)
  | confirmMethod old new => exact Work.discard_eq (Work.confirmMethod_eq old new s)
  | confirmField old new => exact Work.discard_eq (Work.confirmField_eq old new s)
  | mergedType old => rfl
  | mergedMethod old => rfl
  | mergedField old => rfl

theorem performAll_eq (c : Context) (actions : List Action) (s : State) :
    performAll c actions s = .ok () (actions.foldl (State.after c) s) := by
  induction actions generalizing s with
  | nil => rfl
  | cons a rest ih =>
      have first : performAll c (a :: rest) s =
          (a.perform c >>= fun _ => performAll c rest) s := rfl
      rw [first, bind_of_ok (perform_eq c a s)]
      exact ih (s.after c a)

end Action

end Namesake
