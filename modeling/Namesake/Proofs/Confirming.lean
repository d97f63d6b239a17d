import Namesake.Merge.Collector
import Namesake.Proofs.Trails

/-! # Work that only confirms

The collector goes through the three kinds in the same way: it ranks what is pending, takes as many
from the top as the settings allow, and confirms each of these that has a candidate by then
(`collect`). Kinds differ in the partition, in the minimum and in how one of them is confirmed: a
member needs its owners settled first (`confirmOwned`). Whatever the ledger is like, all of this
succeeds and does nothing but confirmations (`collectVotes_onlyConfirms`).
-/

namespace Namesake

/-- Work that succeeds and does nothing but certain actions, from a state on. -/
def Work.Does (c : Context) (allowed : Action → Prop) {α : Type} (work : Work α) (s : State) (a : α)
    (s' : State) : Prop :=
  work s = .ok a s' ∧ ∃ actions : List Action,
    (∀ x ∈ actions, allowed x) ∧ s' = actions.foldl (State.after c) s

namespace Work.Does

variable {c : Context} {allowed : Action → Prop} {α β : Type} {work : Work α} {s s' s'' : State}
  {a : α} {b : β}

theorem pure (a : α) (s : State) : Does c allowed (pure a) s a s := ⟨rfl, [], nofun, rfl⟩

theorem get (s : State) : Does c allowed MonadState.get s s s := ⟨rfl, [], nofun, rfl⟩

theorem single {x : Action} (may : allowed x) (done : work s = .ok a (s.after c x)) :
    work.Does c allowed s a (s.after c x) :=
  ⟨done, [x], fun _ member => List.mem_singleton.mp member ▸ may, rfl⟩

theorem bind {next : α → Work β} (first : work.Does c allowed s a s')
    (second : (next a).Does c allowed s' b s'') : (work >>= next).Does c allowed s b s'' := by
  obtain ⟨done, actions, all, rfl⟩ := first
  obtain ⟨done', actions', all', rfl⟩ := second
  refine ⟨(bind_of_ok done).trans done', actions ++ actions', ?_, (List.foldl_append ..).symm⟩
  intro x member
  exact (List.mem_append.mp member).elim (all x) (all' x)

theorem discard (does : ∃ a s', work.Does c allowed s a s') :
    ∃ s', Does c allowed (do discard work) s () s' := by
  obtain ⟨a, s', done, all⟩ := does
  exact ⟨s', Work.discard_eq done, all⟩

/-- What certain actions keep holds after work that does nothing else. -/
theorem keeps {inv : State → Prop} (kept : ∀ s x, inv s → allowed x → inv (s.after c x))
    (does : work.Does c allowed s a s') (holds : inv s) : inv s' := by
  obtain ⟨-, actions, all, rfl⟩ := does
  induction actions generalizing s with
  | nil => exact holds
  | cons x rest ih =>
      rw [List.forall_mem_cons] at all
      exact ih (kept s x holds all.1) all.2

/-- Going through a list does certain actions only if every step does, where something holds that
these actions keep. -/
theorem forM {κ : Type} {step : κ → Work Unit} (inv : State → Prop)
    (kept : ∀ s x, inv s → allowed x → inv (s.after c x))
    (each : ∀ k s, inv s → ∃ s', (step k).Does c allowed s () s') (keys : List κ) {s : State}
    (holds : inv s) : ∃ s', Does c allowed (keys.forM step) s () s' := by
  induction keys generalizing s with
  | nil => exact ⟨s, pure () s⟩
  | cons k rest ih =>
      obtain ⟨s', first⟩ := each k s holds
      obtain ⟨s'', later⟩ := ih (first.keeps kept holds)
      exact ⟨s'', first.bind later⟩

end Work.Does

/-- Work that succeeds and does nothing but confirmations, from a state on. -/
def Work.OnlyConfirms (c : Context) {α : Type} (work : Work α) (s : State) (a : α) (s' : State) :
    Prop :=
  work s = .ok a s' ∧ ∃ actions : List Action,
    (∀ x ∈ actions, x.isConfirmation = true) ∧ s' = actions.foldl (State.after c) s

namespace Work.OnlyConfirms

variable {c : Context} {α β : Type} {work : Work α} {s s' s'' : State} {a : α} {b : β}

theorem pure (a : α) (s : State) : OnlyConfirms c (pure a) s a s := Does.pure a s

theorem get (s : State) : OnlyConfirms c MonadState.get s s s := Does.get s

theorem single {x : Action} (confirmation : x.isConfirmation = true)
    (done : work s = .ok a (s.after c x)) : work.OnlyConfirms c s a (s.after c x) :=
  Does.single confirmation done

theorem bind {next : α → Work β} (first : work.OnlyConfirms c s a s')
    (second : (next a).OnlyConfirms c s' b s'') : (work >>= next).OnlyConfirms c s b s'' :=
  Does.bind first second

theorem discard (only : ∃ a s', work.OnlyConfirms c s a s') :
    ∃ s', OnlyConfirms c (do discard work) s () s' :=
  Does.discard only

theorem forM {κ : Type} {step : κ → Work Unit}
    (each : ∀ k s, ∃ s', (step k).OnlyConfirms c s () s') (keys : List κ) (s : State) :
    ∃ s', OnlyConfirms c (keys.forM step) s () s' :=
  Does.forM (fun _ => True) (fun _ _ _ _ => trivial) (fun k s _ => each k s) keys trivial

end Work.OnlyConfirms

/-! ## The collector, whatever the kind -/

/-- The pending things the collector looks at: as many from the top of the ranking as the settings
allow. -/
def Partition.batch {ι : Type} [KeyOrder ι] (p : Partition ι) (settings : CollectorSettings)
    (minimum : Nat) : List (Handle ι) :=
  p.rankedPending.take (settings.quota minimum p.rankedPending.length)

/-- Confirm an old thing, in a given way, if it has a candidate. -/
def collectOne {ι : Type} [KeyOrder ι] (kind : Ledger → Partition ι)
    (confirm : Handle ι → ι → Work Unit) (old : Handle ι) : Work Unit := do
  match (kind (← get).ledger).get? old >>= (·.highest) with
  | none => pure ()
  | some best => confirm old best

/-- Confirm the best of the pending things of a kind, in a given way. -/
def collect {ι : Type} [KeyOrder ι] (c : Context) (kind : Ledger → Partition ι) (minimum : Nat)
    (confirm : Handle ι → ι → Work Unit) : Work Unit := do
  ((kind (← get).ledger).batch c.settings.collector minimum).forM (collectOne kind confirm)

/-- Make sure that the owners of a member are confirmed for each other, if it has any, and tell
whether it may be confirmed. -/
def settleOwners (c : Context) : Option (TypeId × TypeId) → Work Bool
  | some (old, new) => settleOwner c old new
  | none => pure true

/-- Confirm a member once its owners are settled. -/
def confirmOwned (c : Context) (owners : Option (TypeId × TypeId)) (confirm : Work Bool) :
    Work Unit := do
  if ← settleOwners c owners then discard confirm

/-- The owners of a method and of its candidate. -/
def Context.methodOwners (c : Context) (old : Handle MethodId) (new : MethodId) :
    Option (TypeId × TypeId) :=
  old.real?.map fun m => ((c.old.program.method m).owner, (c.new.program.method new).owner)

/-- The owners of a field and of its candidate. -/
def Context.fieldOwners (c : Context) (old : Handle FieldId) (new : FieldId) :
    Option (TypeId × TypeId) :=
  old.real?.map fun f => ((c.old.program.field f).owner, (c.new.program.field new).owner)

variable (c : Context)

theorem collectTypes_eq_collect : collectTypes c =
    collect c (·.types) c.settings.collector.minTypes fun old new =>
      discard (Work.confirmType c old new) := by
  unfold collectTypes collect
  refine bind_congr fun s => congrArg (List.forM _) (funext fun old => bind_congr fun s => ?_)
  cases s.ledger.types.get? old >>= (·.highest) <;> rfl

theorem collectMethods_eq_collect : collectMethods c =
    collect c (·.methods) c.settings.collector.minMethods fun old new =>
      confirmOwned c (c.methodOwners old new) (Work.confirmMethod old new) := by
  unfold collectMethods collect
  refine bind_congr fun s => congrArg (List.forM _) (funext fun old => bind_congr fun s => ?_)
  cases s.ledger.methods.get? old >>= (·.highest) with
  | none => rfl
  | some best => cases old <;> rfl

theorem collectFields_eq_collect : collectFields c =
    collect c (·.fields) c.settings.collector.minFields fun old new =>
      confirmOwned c (c.fieldOwners old new) (Work.confirmField old new) := by
  unfold collectFields collect
  refine bind_congr fun s => congrArg (List.forM _) (funext fun old => bind_congr fun s => ?_)
  cases s.ledger.fields.get? old >>= (·.highest) with
  | none => rfl
  | some best => cases old <;> rfl

/-! ## What it does -/

variable {c : Context}

section

variable {ι : Type} [KeyOrder ι] {kind : Ledger → Partition ι} {minimum : Nat}
  {confirm : Handle ι → ι → Work Unit}
  (confirms : ∀ old new s, ∃ s', (confirm old new).OnlyConfirms c s () s')

include confirms

theorem collectOne_onlyConfirms (old : Handle ι) (s : State) :
    ∃ s', (collectOne kind confirm old).OnlyConfirms c s () s' := by
  unfold collectOne
  refine Exists.imp (fun _ => (Work.OnlyConfirms.get s).bind) ?_
  cases (kind s.ledger).get? old >>= (·.highest) with
  | none => exact ⟨s, .pure () s⟩
  | some best => exact confirms old best s

/-- The collector only confirms if its way to confirm one thing does. -/
theorem collect_onlyConfirms (s : State) :
    ∃ s', (collect c kind minimum confirm).OnlyConfirms c s () s' :=
  Exists.imp (fun _ => (Work.OnlyConfirms.get s).bind)
    (Work.OnlyConfirms.forM (collectOne_onlyConfirms confirms) _ s)

end

/-- What settling an owner comes to: nothing where the old owner has a counterpart or the new one is
taken, and a confirmation otherwise. -/
theorem settleOwner_eq (old new : TypeId) (s : State) :
    settleOwner c old new s =
      if (s.ledger.types.target? (.real old)).isSome then .ok true s
      else if s.ledger.types.isClaimed new then .ok false s
      else .ok (!s.ledger.types.isTaken (.real old) new) (s.confirmType c (.real old) new) := by
  have look : settleOwner c old new s =
      (if (s.ledger.types.target? (.real old)).isSome then pure true
        else if s.ledger.types.isClaimed new then pure false
        else Work.confirmType c (.real old) new : Work Bool) s := rfl
  rw [look]
  split_ifs
  · rfl
  · rfl
  · exact Work.confirmType_eq c (.real old) new s

theorem Work.confirmType_onlyConfirms (old : Handle TypeId) (new : TypeId) (s : State) :
    ∃ done s', (Work.confirmType c old new).OnlyConfirms c s done s' :=
  ⟨_, _, OnlyConfirms.single (rfl : (Action.confirmType old new).isConfirmation = true)
    (Work.confirmType_eq c old new s)⟩

theorem Work.confirmMethod_onlyConfirms (old : Handle MethodId) (new : MethodId) (s : State) :
    ∃ done s', (Work.confirmMethod old new).OnlyConfirms c s done s' :=
  ⟨_, _, OnlyConfirms.single (rfl : (Action.confirmMethod old new).isConfirmation = true)
    (Work.confirmMethod_eq old new s)⟩

theorem Work.confirmField_onlyConfirms (old : Handle FieldId) (new : FieldId) (s : State) :
    ∃ done s', (Work.confirmField old new).OnlyConfirms c s done s' :=
  ⟨_, _, OnlyConfirms.single (rfl : (Action.confirmField old new).isConfirmation = true)
    (Work.confirmField_eq old new s)⟩

theorem settleOwners_onlyConfirms (owners : Option (TypeId × TypeId)) (s : State) :
    ∃ done s', (settleOwners c owners).OnlyConfirms c s done s' := by
  cases owners with
  | none => exact ⟨true, s, .pure true s⟩
  | some pair =>
      obtain ⟨old, new⟩ := pair
      simp only [settleOwners, Work.OnlyConfirms, settleOwner_eq]
      split_ifs
      · exact ⟨true, s, rfl, [], nofun, rfl⟩
      · exact ⟨false, s, rfl, [], nofun, rfl⟩
      · rw [← Work.confirmType_eq c]
        exact Work.confirmType_onlyConfirms (.real old) new s

theorem confirmOwned_onlyConfirms {confirm : Work Bool}
    (confirms : ∀ s, ∃ done s', confirm.OnlyConfirms c s done s')
    (owners : Option (TypeId × TypeId)) (s : State) :
    ∃ s', (confirmOwned c owners confirm).OnlyConfirms c s () s' := by
  obtain ⟨settled, s₁, asked⟩ := settleOwners_onlyConfirms owners s
  cases settled with
  | false => exact ⟨s₁, asked.bind (.pure () s₁)⟩
  | true =>
      obtain ⟨s₂, confirmed⟩ := Work.OnlyConfirms.discard (confirms s₁)
      exact ⟨s₂, asked.bind confirmed⟩

theorem collectTypes_onlyConfirms (s : State) :
    ∃ s', (collectTypes c).OnlyConfirms c s () s' := by
  rw [collectTypes_eq_collect]
  exact collect_onlyConfirms (fun old new s =>
    Work.OnlyConfirms.discard (Work.confirmType_onlyConfirms old new s)) s

theorem collectMethods_onlyConfirms (s : State) :
    ∃ s', (collectMethods c).OnlyConfirms c s () s' := by
  rw [collectMethods_eq_collect]
  exact collect_onlyConfirms (fun old new =>
    confirmOwned_onlyConfirms (Work.confirmMethod_onlyConfirms old new) (c.methodOwners old new)) s

theorem collectFields_onlyConfirms (s : State) :
    ∃ s', (collectFields c).OnlyConfirms c s () s' := by
  rw [collectFields_eq_collect]
  exact collect_onlyConfirms (fun old new =>
    confirmOwned_onlyConfirms (Work.confirmField_onlyConfirms old new) (c.fieldOwners old new)) s

/-- **The collector never fails and does nothing but confirm.** -/
theorem collectVotes_onlyConfirms (s : State) :
    ∃ s', (collectVotes c).OnlyConfirms c s () s' := by
  obtain ⟨s₁, types⟩ := collectTypes_onlyConfirms s
  obtain ⟨s₂, methods⟩ := collectMethods_onlyConfirms s₁
  obtain ⟨s₃, fields⟩ := collectFields_onlyConfirms s₂
  exact ⟨s₃, types.bind (methods.bind fields)⟩

end Namesake
