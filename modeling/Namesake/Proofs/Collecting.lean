import Namesake.Proofs.ComparisonBallots
import Namesake.Proofs.Confirming

/-! # Collecting votes

The collector looks at the ledger before each match it confirms, so its actions are not decided
beforehand. Still they are warranted: the best candidate of an entry was voted for, and a member is
confirmed only once its owner has a counterpart, which is then the owner of the candidate. What the
collector does is thus a trail of confirmations (`collectVotes_confirms`).
-/

namespace Namesake

variable {c : Context} {pool : Pool c.old.program c.new.program}

/-- Work that succeeds and does nothing but warranted confirmations, from a state on. -/
def Work.Confirms (c : Context) (pool : Pool c.old.program c.new.program) {α : Type}
    (work : Work α) (s : State) (a : α) (s' : State) : Prop :=
  work s = .ok a s' ∧ ∃ actions, Trail c pool s actions s' ∧ ∀ x ∈ actions, x.isConfirmation = true

namespace Work.Confirms

variable {α β : Type} {work : Work α} {s s' s'' : State} {a : α} {b : β}

theorem pure (a : α) (s : State) : Confirms c pool (pure a) s a s :=
  ⟨rfl, [], .done s, nofun⟩

theorem get (s : State) : Confirms c pool MonadState.get s s s :=
  ⟨rfl, [], .done s, nofun⟩

theorem bind {next : α → Work β} (first : work.Confirms c pool s a s')
    (second : (next a).Confirms c pool s' b s'') : (work >>= next).Confirms c pool s b s'' := by
  obtain ⟨done, actions, trail, confirmations⟩ := first
  obtain ⟨done', actions', trail', confirmations'⟩ := second
  refine ⟨?_, actions ++ actions', trail.append trail', ?_⟩
  · rw [bind_of_ok done]
    exact done'
  · intro x member
    exact (List.mem_append.mp member).elim (confirmations x) (confirmations' x)

theorem discard (first : work.Confirms c pool s a s') :
    Confirms c pool (do discard work) s () s' :=
  ⟨Work.discard_eq first.1, first.2⟩

/-- Going through a list confirms what its steps do, if every step works on every lawful ledger. -/
theorem forM {κ : Type} {step : κ → Work Unit} (coherent : c.Coherent)
    (each : ∀ k s, s.ledger.Lawful c pool → ∃ s', (step k).Confirms c pool s () s') (keys : List κ)
    (lawful : s.ledger.Lawful c pool) : ∃ s', Confirms c pool (keys.forM step) s () s' := by
  induction keys generalizing s with
  | nil => exact ⟨s, pure () s⟩
  | cons k rest ih =>
      obtain ⟨s', first⟩ := each k s lawful
      obtain ⟨actions, trail, -⟩ := first.2
      obtain ⟨s'', later⟩ := ih (trail.lawful coherent.old lawful)
      exact ⟨s'', first.bind later⟩

theorem confirmType {old : Handle TypeId} {new : TypeId}
    (warranted : (Action.confirmType old new).Warranted c pool s.ledger) :
    Confirms c pool (Work.confirmType c old new) s (!s.ledger.types.isTaken old new)
      (s.confirmType c old new) :=
  ⟨Work.confirmType_eq c old new s, [.confirmType old new], .single warranted,
    fun _ member => List.mem_singleton.mp member ▸ rfl⟩

theorem confirmMethod {old : Handle MethodId} {new : MethodId}
    (warranted : (Action.confirmMethod old new).Warranted c pool s.ledger) :
    Confirms c pool (Work.confirmMethod old new) s (!s.ledger.methods.isTaken old new)
      (s.confirmMethod old new) :=
  ⟨Work.confirmMethod_eq old new s, [.confirmMethod old new], .single warranted,
    fun _ member => List.mem_singleton.mp member ▸ rfl⟩

theorem confirmField {old : Handle FieldId} {new : FieldId}
    (warranted : (Action.confirmField old new).Warranted c pool s.ledger) :
    Confirms c pool (Work.confirmField old new) s (!s.ledger.fields.isTaken old new)
      (s.confirmField old new) :=
  ⟨Work.confirmField_eq old new s, [.confirmField old new], .single warranted,
    fun _ member => List.mem_singleton.mp member ▸ rfl⟩

end Work.Confirms

/-! ## Candidates -/

/-- The best candidate of an old thing was voted for. -/
theorem Partition.Lawful.of_highest {ι : Type} [KeyOrder ι] {p : Partition ι}
    {r : Partition.Rules ι} (lawful : p.Lawful r) {k : Handle ι} {best : ι}
    (leads : (p.get? k >>= (·.highest)) = some best) : r.subject k ∧ r.ballot k best := by
  obtain ⟨e, found, leads⟩ := Option.bind_eq_some_iff.mp leads
  rcases Partition.hasEntry_of_get? found with pending | confirmed
  · have voted := lawful.sound.leader pending best leads
    exact ⟨lawful.follows.subject (.inl pending), lawful.follows.ballot pending voted⟩
  · rw [(lawful.sound.bare confirmed).highest] at leads
    cases leads

/-- A pair of members is allowed once the old owner is confirmed onto what it was confirmed onto
when the vote was found, or onto the owner of the candidate. -/
theorem MemberKind.pair_of_settled {ι : Type} (kind : MemberKind ι)
    {types types' : Partition TypeId} {k : Handle ι} {best : ι}
    (ballot : (kind.rules types).ballot k best)
    (settled : ∀ o, k = .real o → ∃ t, types'.target? (.real (kind.oldOwner o)) = some t ∧
      (types.target? (.real (kind.oldOwner o)) = some t ∨ t = kind.newOwner best)) :
    (kind.rules types').pair k best := by
  refine ⟨ballot.1, ?_⟩
  intro o key
  rcases ballot.2 o key with exempt | ⟨alike, owner⟩
  · exact .inl exempt
  obtain ⟨t, confirmed, before | rfl⟩ := settled o key
  · rw [owner t before]
    exact .inr ⟨alike, confirmed⟩
  · exact .inr ⟨alike, confirmed⟩

/-! ## Kind by kind -/

variable (coherent : c.Coherent) {s : State} (lawful : s.ledger.Lawful c pool)

include coherent lawful

/-- The collector confirms what it does, if what it does about each pending thing is to confirm. -/
theorem collect_confirms {ι : Type} [KeyOrder ι] {kind : Ledger → Partition ι} {minimum : Nat}
    {confirm : Handle ι → ι → Work Unit}
    (each : ∀ old s, s.ledger.Lawful c pool →
      ∃ s', (collectOne kind confirm old).Confirms c pool s () s') :
    ∃ s', (collect c kind minimum confirm).Confirms c pool s () s' :=
  Exists.imp (fun _ => (Work.Confirms.get s).bind) (Work.Confirms.forM coherent each _ lawful)

omit coherent in
theorem collectType_confirms (old : Handle TypeId) :
    ∃ s', (collectOne (·.types) (fun old new => discard (Work.confirmType c old new))
      old).Confirms c pool s () s' := by
  refine Exists.imp (fun s' => (Work.Confirms.get s).bind) ?_
  cases leads : s.ledger.types.get? old >>= (·.highest) with
  | none => exact ⟨s, .pure () s⟩
  | some best =>
      have warranted : (Action.confirmType old best).Warranted c pool s.ledger :=
        lawful.types.of_highest leads
      exact ⟨_, (Work.Confirms.confirmType warranted).discard⟩

theorem collectTypes_confirms : ∃ s', (collectTypes c).Confirms c pool s () s' := by
  rw [collectTypes_eq_collect]
  exact collect_confirms coherent lawful fun old s lawful => collectType_confirms lawful old

omit coherent lawful in
/-- Settling an owner gives it a counterpart or tells that there is none to be had. The counterpart
is the one the owner had, or the one asked for. -/
theorem settleOwner_confirms {old new : TypeId} (s : State)
    (warranted : (Action.confirmType (.real old) new).Warranted c pool s.ledger) :
    ∃ done s', (settleOwner c old new).Confirms c pool s done s' ∧ (done = true →
      ∃ t, s'.ledger.types.target? (.real old) = some t ∧
        (s.ledger.types.target? (.real old) = some t ∨ t = new)) := by
  unfold settleOwner
  have look : Work.Confirms c pool MonadState.get s s s := .get s
  cases confirmed : s.ledger.types.target? (.real old) with
  | some t =>
      refine ⟨true, s, look.bind ?_, fun _ => ⟨t, confirmed, .inl rfl⟩⟩
      simp only [confirmed, Option.isSome_some, if_true]
      exact .pure true s
  | none =>
      cases claimed : s.ledger.types.isClaimed new with
      | true =>
          refine ⟨false, s, look.bind ?_, nofun⟩
          simp only [confirmed, claimed, Option.isSome_none, Bool.false_eq_true, if_false, if_true]
          exact .pure false s
      | false =>
          refine ⟨!s.ledger.types.isTaken (.real old) new, s.confirmType c (.real old) new,
            look.bind ?_, ?_⟩
          · simp only [confirmed, claimed, Option.isSome_none, Bool.false_eq_true, if_false]
            exact .confirmType warranted
          · intro free
            rw [Bool.not_eq_true'] at free
            refine ⟨new, ?_, .inr rfl⟩
            rw [State.confirmType, free, if_neg Bool.false_ne_true, Ledger.types_settleType,
              Partition.target?_settle, if_pos rfl]
            rfl

omit coherent lawful in
/-- Where a first step tells whether to go on, and going on works if it says so, both do
together. -/
theorem Work.Confirms.bind_if {ask : Work Bool} {next : Work Unit} {done : Bool} {s' : State}
    (asked : ask.Confirms c pool s done s')
    (goes : done = true → ∃ s'', next.Confirms c pool s' () s'') :
    ∃ s'', Work.Confirms c pool (do if ← ask then next) s () s'' := by
  cases done with
  | true =>
      obtain ⟨s'', later⟩ := goes rfl
      exact ⟨s'', asked.bind later⟩
  | false => exact ⟨s', asked.bind (.pure () s')⟩

omit coherent lawful in
/-- A member is confirmed once its owners are, which may be confirmed for each other before. -/
theorem confirmOwned_confirms {owners : Option (TypeId × TypeId)} {confirm : Work Bool}
    (named : ∀ o n, owners = some (o, n) →
      (Action.confirmType (.real o) n).Warranted c pool s.ledger)
    (confirms : ∀ s' : State, (∀ o n, owners = some (o, n) →
        ∃ t, s'.ledger.types.target? (.real o) = some t ∧
          (s.ledger.types.target? (.real o) = some t ∨ t = n)) →
      ∃ done s'', confirm.Confirms c pool s' done s'') :
    ∃ s', (confirmOwned c owners confirm).Confirms c pool s () s' := by
  cases owners with
  | none =>
      obtain ⟨done, s', confirmed⟩ := confirms s nofun
      exact Work.Confirms.bind_if (.pure true s) fun _ => ⟨s', confirmed.discard⟩
  | some pair =>
      obtain ⟨old, new⟩ := pair
      obtain ⟨settled, s', asked, target⟩ := settleOwner_confirms s (named old new rfl)
      refine Work.Confirms.bind_if asked fun agreed => ?_
      obtain ⟨done, s'', confirmed⟩ := confirms s' (by
        rintro _ _ ⟨rfl⟩
        exact target agreed)
      exact ⟨s'', confirmed.discard⟩

theorem collectMethod_confirms (old : Handle MethodId) :
    ∃ s', (collectOne (·.methods) (fun old new =>
      confirmOwned c (c.methodOwners old new) (Work.confirmMethod old new))
      old).Confirms c pool s () s' := by
  refine Exists.imp (fun s' => (Work.Confirms.get s).bind) ?_
  cases leads : s.ledger.methods.get? old >>= (·.highest) with
  | none => exact ⟨s, .pure () s⟩
  | some best =>
      obtain ⟨subject, ballot⟩ := lawful.methods.of_highest leads
      refine confirmOwned_confirms (c := c) (s := s) ?_ fun s' settled => ?_
      · cases old with
        | synthetic placeholder => exact nofun
        | real m =>
            rintro _ _ ⟨rfl⟩
            refine ⟨?_, pool.has_methodOwner ballot.1⟩
            rintro o ⟨rfl⟩
            exact pool.has_oldType (coherent.old.hasType_methodOwner (subject m rfl))
      · have warranted : (Action.confirmMethod old best).Warranted c pool s'.ledger := by
          refine ⟨subject, (c.methodKind pool).pair_of_settled ballot ?_⟩
          rintro o rfl
          exact settled _ _ rfl
        exact ⟨_, _, .confirmMethod warranted⟩

theorem collectMethods_confirms : ∃ s', (collectMethods c).Confirms c pool s () s' := by
  rw [collectMethods_eq_collect]
  exact collect_confirms coherent lawful fun old s lawful =>
    collectMethod_confirms coherent lawful old

theorem collectField_confirms (old : Handle FieldId) :
    ∃ s', (collectOne (·.fields) (fun old new =>
      confirmOwned c (c.fieldOwners old new) (Work.confirmField old new))
      old).Confirms c pool s () s' := by
  refine Exists.imp (fun s' => (Work.Confirms.get s).bind) ?_
  cases leads : s.ledger.fields.get? old >>= (·.highest) with
  | none => exact ⟨s, .pure () s⟩
  | some best =>
      obtain ⟨subject, ballot⟩ := lawful.fields.of_highest leads
      refine confirmOwned_confirms (c := c) (s := s) ?_ fun s' settled => ?_
      · cases old with
        | synthetic placeholder => exact nofun
        | real f =>
            rintro _ _ ⟨rfl⟩
            refine ⟨?_, pool.has_fieldOwner ballot.1⟩
            rintro o ⟨rfl⟩
            exact pool.has_oldType (coherent.old.hasType_fieldOwner (subject f rfl))
      · have warranted : (Action.confirmField old best).Warranted c pool s'.ledger := by
          refine ⟨subject, (c.fieldKind pool).pair_of_settled ballot ?_⟩
          rintro o rfl
          exact settled _ _ rfl
        exact ⟨_, _, .confirmField warranted⟩

theorem collectFields_confirms : ∃ s', (collectFields c).Confirms c pool s () s' := by
  rw [collectFields_eq_collect]
  exact collect_confirms coherent lawful fun old s lawful =>
    collectField_confirms coherent lawful old

/-- **What the collector does is a trail of confirmations.** -/
theorem collectVotes_confirms : ∃ s', (collectVotes c).Confirms c pool s () s' := by
  obtain ⟨s₁, types⟩ := collectTypes_confirms coherent lawful
  obtain ⟨actions₁, trail₁, -⟩ := types.2
  have lawful₁ := trail₁.lawful coherent.old lawful
  obtain ⟨s₂, methods⟩ := collectMethods_confirms coherent lawful₁
  obtain ⟨actions₂, trail₂, -⟩ := methods.2
  obtain ⟨s₃, fields⟩ := collectFields_confirms coherent (trail₂.lawful coherent.old lawful₁)
  exact ⟨s₃, types.bind (methods.bind fields)⟩

end Namesake
