import Namesake.Proofs.Collecting
import Namesake.Proofs.Confirming
import Namesake.Proofs.Ranges
import Namesake.Proofs.TracedFollowUps

/-! # What work is looked up for

Work on a state can be traced, too: it gives a result for every state and notes what it looks up on
the way (`TracedWork`). Casting a vote looks up the members it is for; confirming a type looks up
its members and the owners of their candidates; the collector looks up owners on both sides. From a
lawful ledger all of this stays in range, and so does every pass (`Traced.inRangeFrom_run`).
-/

namespace Namesake

/-- Work on a state that notes what it looks up. -/
def TracedWork (σ α : Type) : Type := σ → Traced (EStateM.Result MergeError σ α)

namespace TracedWork

variable {σ α β : Type}

instance : Monad (TracedWork σ) where
  pure a := fun s => pure (.ok a s)
  bind work next := fun s => do
    match ← work s with
    | .ok a s => next a s
    | .error e s => pure (.error e s)

/-- Work that looks nothing up. -/
def quiet (work : EStateM MergeError σ α) : TracedWork σ α := fun s => pure (work s)

/-- Work something out that leaves the state alone. -/
def of (x : Traced α) : TracedWork σ α := fun s => (.ok · s) <$> x

instance : MonadStateOf σ (TracedWork σ) where
  get := quiet get
  set s := quiet (set s)
  modifyGet f := quiet (modifyGet f)

/-- The work itself. -/
def plain (work : TracedWork σ α) : EStateM MergeError σ α := fun s => (work s).value

@[simp]
theorem plain_pure (a : α) : (pure a : TracedWork σ α).plain = pure a := rfl

@[simp]
theorem plain_bind (work : TracedWork σ α) (next : α → TracedWork σ β) :
    (work >>= next).plain = work.plain >>= fun a => (next a).plain := by
  funext s
  change (Traced.value do match ← work s with
    | .ok a s => next a s
    | .error e s => pure (.error e s)) = EStateM.bind work.plain (fun a => (next a).plain) s
  rw [Traced.value_bind, EStateM.bind, plain]
  cases (work s).value <;> rfl

@[simp]
theorem plain_quiet (work : EStateM MergeError σ α) : (quiet work).plain = work := rfl

@[simp]
theorem plain_of (x : Traced α) : (of x : TracedWork σ α).plain = pure x.value := rfl

@[simp]
theorem plain_get : (get : TracedWork σ σ).plain = get := rfl

@[simp]
theorem plain_set (s : σ) : (set s : TracedWork σ PUnit).plain = set s := rfl

@[simp]
theorem plain_modify (f : σ → σ) : (modify f : TracedWork σ PUnit).plain = modify f := rfl

@[simp]
theorem plain_forM (work : β → TracedWork σ PUnit) (l : List β) :
    (forM l work).plain = forM l fun b => (work b).plain := by
  induction l with
  | nil => rfl
  | cons b rest ih => rw [List.forM_cons, plain_bind, ih, List.forM_cons]

/-- Work whose answer is thrown away. -/
theorem discard_eq_bind (work : EStateM MergeError σ α) :
    (do discard work : EStateM MergeError σ PUnit) = work >>= fun _ => pure ⟨⟩ := by
  funext s
  change EStateM.map (Function.const α PUnit.unit) work s = EStateM.bind work _ s
  rw [EStateM.map, EStateM.bind]
  cases work s <;> rfl

/-- All lookups from a state on are in range. -/
def InRangeFrom (s : σ) (work : TracedWork σ α) : Prop := (work s).InRange

@[simp]
theorem inRangeFrom_pure (a : α) (s : σ) : InRangeFrom s (pure a : TracedWork σ α) :=
  Traced.inRange_pure _

@[simp]
theorem inRangeFrom_quiet (work : EStateM MergeError σ α) (s : σ) : InRangeFrom s (quiet work) :=
  Traced.inRange_pure _

@[simp]
theorem inRangeFrom_get (s : σ) : InRangeFrom s (get : TracedWork σ σ) := Traced.inRange_pure _

@[simp]
theorem inRangeFrom_of {x : Traced α} {s : σ} :
    InRangeFrom s (of x : TracedWork σ α) ↔ x.InRange := Traced.inRange_map

/-- Two steps look up what the first does, and what the second does from where the first got. -/
theorem inRangeFrom_bind {work : TracedWork σ α} {next : α → TracedWork σ β} {s : σ} :
    InRangeFrom s (work >>= next) ↔ InRangeFrom s work ∧
      ∀ a s', work.plain s = .ok a s' → InRangeFrom s' (next a) := by
  change (do match ← work s with
    | .ok a s => next a s
    | .error e s => pure (.error e s) : Traced _).InRange ↔ _
  rw [Traced.inRange_bind, plain]
  refine and_congr_right fun _ => ?_
  cases (work s).value with
  | ok a s' =>
      constructor
      · rintro inside a s' ⟨⟩
        exact inside
      · exact fun inside => inside a s' rfl
  | error e s' => exact iff_of_true (Traced.inRange_pure _) nofun

theorem inRangeFrom_get_bind {next : σ → TracedWork σ β} {s : σ} :
    InRangeFrom s (get >>= next) ↔ InRangeFrom s (next s) := by
  rw [inRangeFrom_bind, and_iff_right (inRangeFrom_get s)]
  constructor
  · exact fun inside => inside s s rfl
  · rintro inside a s' ⟨⟩
    exact inside

theorem inRangeFrom_of_bind {x : Traced α} {next : α → TracedWork σ β} {s : σ} :
    InRangeFrom s (of x >>= next) ↔ x.InRange ∧ InRangeFrom s (next x.value) := by
  rw [inRangeFrom_bind, inRangeFrom_of]
  refine and_congr_right fun _ => ?_
  constructor
  · exact fun inside => inside x.value s rfl
  · rintro inside a s' ⟨⟩
    exact inside

/-- Going through a list stays in range if every step does, where something holds that the steps
keep. -/
theorem inRangeFrom_forM {work : β → TracedWork σ PUnit} {motive : σ → Prop}
    (each : ∀ b s, motive s → InRangeFrom s (work b))
    (kept : ∀ b s s', motive s → (work b).plain s = .ok ⟨⟩ s' → motive s') (l : List β) {s : σ}
    (holds : motive s) : InRangeFrom s (forM l work) := by
  induction l generalizing s with
  | nil => exact inRangeFrom_pure _ s
  | cons b rest ih =>
      rw [List.forM_cons, inRangeFrom_bind]
      exact ⟨each b s holds, fun _ s' done => ih (kept b s s' holds done)⟩

end TracedWork

namespace Traced

open TracedWork (of quiet)

variable (c : Context)

/-! ## Actions -/

def vote (b : Ballot) : TracedWork State Bool := fun s => do
  let agreed ← accepted c s.ledger b
  return .ok agreed { s with ledger := ← cast c s.ledger b }

section

variable {ι : Type} [KeyOrder ι] [DecidableEq ι]

def restrictEntry (ownerOf : ι → Traced TypeId) (owner : TypeId) (e : MatchEntry ι) :
    Traced (MatchEntry ι) := do
  let kept ← filter (fun candidate => do return (← ownerOf candidate) = owner) e.votes.keys
  return { e.retainVotes kept.contains with ownerHint := some owner }

def modifyPending (p : Partition ι) (old : Handle ι)
    (f : MatchEntry ι → Traced (MatchEntry ι)) : Traced (Partition ι) :=
  match p.pending.get? old with
  | none => pure p
  | some e => do return { p with pending := p.pending.insert old (← f e) }

/-- Cut the votes of some members down to members of an owner. -/
def restricted (ownerOf : ι → Traced TypeId) (owner : TypeId) (p : Partition ι)
    (members : List ι) : Traced (Partition ι) :=
  members.foldlM (fun p m => modifyPending p (.real m) (restrictEntry ownerOf owner)) p

end

def restrictMembers (l : Ledger) (old new : TypeId) : Traced Ledger := do
  let entry ← type c.old.program old
  return { l with
    methods := ← restricted (fun candidate => do return (← method c.new.program candidate).owner)
      new l.methods entry.methods
    fields := ← restricted (fun candidate => do return (← field c.new.program candidate).owner)
      new l.fields entry.fields }

/-- Cut the votes of the members down, if it is a type of the old program that is confirmed. -/
def restrictFor (l : Ledger) (new : TypeId) : Handle TypeId → Traced Ledger
  | .real o => restrictMembers c l o new
  | .synthetic _ => pure l

def confirmType (old : Handle TypeId) (new : TypeId) : TracedWork State Bool := fun s =>
  match s.ledger.types.tryMatch old new with
  | .error e => pure (.error (.type e) s)
  | .ok (false, _) => pure (.ok false s)
  | .ok (true, types) => do
    return .ok true ⟨← restrictFor c { s.ledger with types } new old, s.changes + 1⟩

def perform : Action → TracedWork State Unit
  | .vote b => do let _ ← vote c b
  | .confirmType old new => do let _ ← confirmType c old new
  | .confirmMethod old new => quiet (discard (Work.confirmMethod old new))
  | .confirmField old new => quiet (discard (Work.confirmField old new))
  | .mergedType old => modify fun s =>
    { s with ledger := { s.ledger with
      types := (s.ledger.types.markMerged? (.real old)).getD s.ledger.types } }
  | .mergedMethod old => modify fun s =>
    { s with ledger := { s.ledger with
      methods := (s.ledger.methods.markMerged? (.real old)).getD s.ledger.methods } }
  | .mergedField old => modify fun s =>
    { s with ledger := { s.ledger with
      fields := (s.ledger.fields.markMerged? (.real old)).getD s.ledger.fields } }

def performAll (actions : List Action) : TracedWork State Unit := actions.forM (perform c)

/-! ## Collecting votes -/

def settleOwner (old new : TypeId) : TracedWork State Bool := do
  let types := (← get).ledger.types
  if (types.target? (.real old)).isSome then return true
  else if types.isClaimed new then return false
  else confirmType c (.real old) new

def settleOwners : Option (TypeId × TypeId) → TracedWork State Bool
  | some (old, new) => settleOwner c old new
  | none => pure true

def methodOwners (old : Handle MethodId) (new : MethodId) : Traced (Option (TypeId × TypeId)) :=
  match old with
  | .real m => do
    return some ((← method c.old.program m).owner, (← method c.new.program new).owner)
  | .synthetic _ => pure none

def fieldOwners (old : Handle FieldId) (new : FieldId) : Traced (Option (TypeId × TypeId)) :=
  match old with
  | .real f => do
    return some ((← field c.old.program f).owner, (← field c.new.program new).owner)
  | .synthetic _ => pure none

def confirmOwned (owners : Traced (Option (TypeId × TypeId))) (confirm : Work Bool) :
    TracedWork State Unit := do
  if ← settleOwners c (← of owners) then quiet (discard confirm)

section

variable {ι : Type} [KeyOrder ι] (kind : Ledger → Partition ι) (minimum : Nat)
  (confirm : Handle ι → ι → TracedWork State Unit)

def collectOne (old : Handle ι) : TracedWork State Unit := do
  match (kind (← get).ledger).get? old >>= (·.highest) with
  | none => pure ()
  | some best => confirm old best

def collect : TracedWork State Unit := do
  ((kind (← get).ledger).batch c.settings.collector minimum).forM (collectOne kind confirm)

end

def collectTypes : TracedWork State Unit :=
  collect c (·.types) c.settings.collector.minTypes fun old new => do
    let _ ← confirmType c old new

def collectMethods : TracedWork State Unit :=
  collect c (·.methods) c.settings.collector.minMethods fun old new =>
    confirmOwned c (methodOwners c old new) (Work.confirmMethod old new)

def collectFields : TracedWork State Unit :=
  collect c (·.fields) c.settings.collector.minFields fun old new =>
    confirmOwned c (fieldOwners c old new) (Work.confirmField old new)

def collectVotes : TracedWork State Unit := do
  collectTypes c
  collectMethods c
  collectFields c

/-- Run a pass. -/
def run (pass : Pass) : TracedWork State Unit := do
  match plan? c (← get).ledger pass with
  | some planned => performAll c (← of planned)
  | none => collectVotes c

/-! ## Values -/

@[simp]
theorem plain_vote (b : Ballot) : (vote c b).plain = Work.vote c b := by
  funext s
  rw [TracedWork.plain, vote, value_bind, value_bind, value_accepted, value_cast]
  rfl

section

variable {ι : Type} [KeyOrder ι] [DecidableEq ι] (ownerOf : ι → Traced TypeId) (owner : TypeId)

@[simp]
theorem value_restrictEntry (e : MatchEntry ι) :
    (restrictEntry ownerOf owner e).value =
      Work.restrictEntry (fun candidate => (ownerOf candidate).value) owner e := by
  rw [restrictEntry, value_bind, value_filter, Work.restrictEntry]
  refine congrArg (fun e : MatchEntry ι => { e with ownerHint := some owner }) ?_
  refine MatchEntry.retainVotes_congr fun n voted => ?_
  have listed := SortedMap.mem_keys.mpr voted
  simp [listed]

@[simp]
theorem value_restricted (p : Partition ι) (members : List ι) :
    (restricted ownerOf owner p members).value =
      p.restricted (fun candidate => (ownerOf candidate).value) owner members := by
  rw [restricted, value_foldlM, Partition.restricted]
  congr 1
  funext p m
  rw [modifyPending, Partition.modifyPending, SortedMap.modify]
  cases p.pending.get? (.real m) <;> simp

end

@[simp]
theorem value_restrictMembers (l : Ledger) (old new : TypeId) :
    (restrictMembers c l old new).value = Work.restrictMembers c l old new := by
  simp [restrictMembers, Work.restrictMembers]
  exact ⟨rfl, rfl⟩

@[simp]
theorem plain_confirmType (old : Handle TypeId) (new : TypeId) :
    (confirmType c old new).plain = Work.confirmType c old new := by
  funext s
  rw [TracedWork.plain, confirmType, Work.confirmType]
  cases s.ledger.types.tryMatch old new with
  | error e => rfl
  | ok matched =>
      obtain ⟨_ | _, types⟩ := matched
      · rfl
      · cases old with
        | real o => simp [restrictFor]
        | synthetic placeholder => rfl

@[simp]
theorem plain_perform (a : Action) : (perform c a).plain = a.perform c := by
  cases a <;> simp [perform, Action.perform, TracedWork.discard_eq_bind]

@[simp]
theorem plain_performAll (actions : List Action) :
    (performAll c actions).plain = Action.performAll c actions := by
  simp [performAll, Action.performAll]

@[simp]
theorem plain_settleOwner (old new : TypeId) :
    (settleOwner c old new).plain = Namesake.settleOwner c old new := by
  rw [settleOwner, Namesake.settleOwner, TracedWork.plain_bind, TracedWork.plain_get]
  refine bind_congr fun s => ?_
  dsimp only
  split_ifs <;> simp

@[simp]
theorem plain_settleOwners (owners : Option (TypeId × TypeId)) :
    (settleOwners c owners).plain = Namesake.settleOwners c owners := by
  cases owners with
  | none => rfl
  | some pair => exact plain_settleOwner c pair.1 pair.2

@[simp]
theorem value_methodOwners (old : Handle MethodId) (new : MethodId) :
    (methodOwners c old new).value = c.methodOwners old new := by
  cases old <;> rfl

@[simp]
theorem value_fieldOwners (old : Handle FieldId) (new : FieldId) :
    (fieldOwners c old new).value = c.fieldOwners old new := by
  cases old <;> rfl

@[simp]
theorem plain_confirmOwned (owners : Traced (Option (TypeId × TypeId))) (confirm : Work Bool) :
    (confirmOwned c owners confirm).plain = Namesake.confirmOwned c owners.value confirm := by
  simp [confirmOwned, Namesake.confirmOwned, apply_ite TracedWork.plain]

section

variable {ι : Type} [KeyOrder ι] (kind : Ledger → Partition ι) (minimum : Nat)
  (confirm : Handle ι → ι → TracedWork State Unit)

@[simp]
theorem plain_collectOne (old : Handle ι) :
    (collectOne kind confirm old).plain =
      Namesake.collectOne kind (fun old new => (confirm old new).plain) old := by
  rw [collectOne, Namesake.collectOne, TracedWork.plain_bind, TracedWork.plain_get]
  refine bind_congr fun s => ?_
  cases (kind s.ledger).get? old >>= (·.highest) <;> rfl

@[simp]
theorem plain_collect :
    (collect c kind minimum confirm).plain =
      Namesake.collect c kind minimum fun old new => (confirm old new).plain := by
  simp [collect, Namesake.collect]

end

@[simp]
theorem plain_collectTypes : (collectTypes c).plain = Namesake.collectTypes c := by
  simp [collectTypes, collectTypes_eq_collect, TracedWork.discard_eq_bind]

@[simp]
theorem plain_collectMethods : (collectMethods c).plain = Namesake.collectMethods c := by
  simp [collectMethods, collectMethods_eq_collect]

@[simp]
theorem plain_collectFields : (collectFields c).plain = Namesake.collectFields c := by
  simp [collectFields, collectFields_eq_collect]

@[simp]
theorem plain_collectVotes : (collectVotes c).plain = Namesake.collectVotes c := by
  simp [collectVotes, Namesake.collectVotes]

@[simp]
theorem plain_run (pass : Pass) : (run c pass).plain = pass.run c := by
  rw [run, Pass.run, TracedWork.plain_bind, TracedWork.plain_get]
  refine bind_congr fun s => ?_
  rw [← value_plan?]
  cases plan? c s.ledger pass <;> simp

/-! ## In range -/

section

variable {ι : Type} [KeyOrder ι] [DecidableEq ι]

/-- Cutting down votes looks up the owners of the candidates, which the steps before leave as they
are or fewer. -/
theorem inRange_restricted {ownerOf : ι → Traced TypeId} {isNew : ι → Prop}
    (looked : ∀ n, isNew n → (ownerOf n).InRange) (owner : TypeId) {p : Partition ι}
    (voted : ∀ k e n, p.pending.get? k = some e → e.votes.contains n = true → isNew n)
    (members : List ι) : (restricted ownerOf owner p members).InRange := by
  refine inRange_foldlM_of_keeps (motive := fun p : Partition ι =>
    ∀ k e n, p.pending.get? k = some e → e.votes.contains n = true → isNew n)
    (fun p voted m _ => ?_) voted
  unfold modifyPending
  split
  · exact ⟨inRange_pure p, voted⟩
  next e found =>
  constructor
  · simp only [restrictEntry, inRange_bind, inRange_filter, inRange_pure, and_true]
    exact fun n listed => looked n (voted _ e n found (SortedMap.mem_keys.mp listed))
  · intro k e' n present vote
    simp only [value_bind, value_pure, value_restrictEntry, SortedMap.get?_insert] at present
    split_ifs at present
    · obtain rfl := Option.some.inj present
      rw [Partition.contains_restrictEntry, Bool.and_eq_true] at vote
      exact voted _ e n found vote.1
    · exact voted k e' n present vote

end

section

variable {c : Context} (coherent : c.Coherent) {s : State}
  (lawful : s.ledger.Lawful c (.inside coherent.new))

/-! ### Actions -/

theorem inRangeFrom_vote {b : Ballot} (inside : b.InRange c.old.program c.new.program) :
    (vote c b).InRangeFrom s :=
  inRange_bind.mpr ⟨inRange_accepted inside,
    inRange_bind.mpr ⟨inRange_cast inside, inRange_pure _⟩⟩

include lawful

theorem inRange_restrictMembers {types : Partition TypeId} {old new : TypeId}
    (inside : c.old.program.HasType old) :
    (restrictMembers c { s.ledger with types } old new).InRange := by
  simp only [restrictMembers, inRange_bind, inRange_type, inRange_pure, and_true]
  refine ⟨inside, ?_, ?_⟩
  · refine inRange_restricted (fun n (inside : c.new.program.HasMethod n) => ?_) new ?_ _
    · simpa using inside
    · exact fun k e n found voted => (lawful.methods.follows.ballot found voted).1
  · refine inRange_restricted (fun n (inside : c.new.program.HasField n) => ?_) new ?_ _
    · simpa using inside
    · exact fun k e n found voted => (lawful.fields.follows.ballot found voted).1

theorem inRangeFrom_confirmType {old : Handle TypeId} {new : TypeId}
    (inside : ∀ o, old = .real o → c.old.program.HasType o) :
    (confirmType c old new).InRangeFrom s := by
  unfold TracedWork.InRangeFrom confirmType
  split
  · exact inRange_pure _
  · exact inRange_pure _
  · rw [inRange_bind, and_iff_left (inRange_pure _)]
    unfold restrictFor
    cases old with
    | real o => exact inRange_restrictMembers coherent lawful (inside o rfl)
    | synthetic placeholder => exact inRange_pure _

theorem inRangeFrom_perform {a : Action}
    (warranted : a.Warranted c (.inside coherent.new) s.ledger) : (perform c a).InRangeFrom s := by
  cases a with
  | vote b =>
      rw [perform, TracedWork.inRangeFrom_bind]
      exact ⟨inRangeFrom_vote warranted.inRange, fun _ s' _ => TracedWork.inRangeFrom_pure _ s'⟩
  | confirmType old new =>
      rw [perform, TracedWork.inRangeFrom_bind]
      exact ⟨inRangeFrom_confirmType coherent lawful warranted.1,
        fun _ s' _ => TracedWork.inRangeFrom_pure _ s'⟩
  | confirmMethod | confirmField | mergedType | mergedMethod | mergedField =>
      exact TracedWork.inRangeFrom_quiet _ s

/-- Warranted actions are carried out in range. -/
theorem inRangeFrom_performAll {actions : List Action} {s' : State}
    (trail : Trail c (.inside coherent.new) s actions s') :
    (performAll c actions).InRangeFrom s := by
  induction trail with
  | done s => exact TracedWork.inRangeFrom_pure _ s
  | @act s s' a actions warranted rest ih =>
      rw [performAll, List.forM_eq_forM, List.forM_cons, TracedWork.inRangeFrom_bind]
      refine ⟨inRangeFrom_perform coherent lawful warranted, fun _ t done => ?_⟩
      rw [plain_perform, Action.perform_eq] at done
      cases done
      exact ih (lawful.after coherent.old warranted)

/-! ### Collecting votes -/

theorem inRangeFrom_settleOwner {old new : TypeId} (inside : c.old.program.HasType old) :
    (settleOwner c old new).InRangeFrom s := by
  rw [settleOwner, TracedWork.inRangeFrom_get_bind]
  dsimp only
  split_ifs
  · exact TracedWork.inRangeFrom_pure true s
  · exact TracedWork.inRangeFrom_pure false s
  · refine inRangeFrom_confirmType coherent lawful ?_
    rintro o ⟨⟩
    exact inside

theorem inRangeFrom_confirmOwned {owners : Traced (Option (TypeId × TypeId))}
    (looked : owners.InRange)
    (inside : ∀ pair, owners.value = some pair → c.old.program.HasType pair.1)
    (confirm : Work Bool) :
    (confirmOwned c owners confirm).InRangeFrom s := by
  rw [confirmOwned, TracedWork.inRangeFrom_of_bind, TracedWork.inRangeFrom_bind]
  refine ⟨looked, ?_, fun settled s' _ => ?_⟩
  · cases found : owners.value with
    | none => exact TracedWork.inRangeFrom_pure true s
    | some pair => exact inRangeFrom_settleOwner coherent lawful (inside pair found)
  · split_ifs
    · exact TracedWork.inRangeFrom_quiet _ s'
    · exact TracedWork.inRangeFrom_pure _ s'

omit lawful in
/-- The collector stays in range if confirming a candidate does that has votes. -/
theorem inRangeFrom_collect {ι : Type} [KeyOrder ι] {kind : Ledger → Partition ι} {minimum : Nat}
    {confirm : Handle ι → ι → TracedWork State Unit}
    (each : ∀ old best (s : State), s.ledger.Lawful c (.inside coherent.new) →
      ((kind s.ledger).get? old >>= (·.highest)) = some best → (confirm old best).InRangeFrom s)
    (confirms : ∀ old (s : State), s.ledger.Lawful c (.inside coherent.new) → ∃ s',
      Work.Confirms c (.inside coherent.new) (collectOne kind confirm old).plain s () s')
    (lawful : s.ledger.Lawful c (.inside coherent.new)) :
    (collect c kind minimum confirm).InRangeFrom s := by
  rw [collect, TracedWork.inRangeFrom_get_bind]
  refine TracedWork.inRangeFrom_forM
    (motive := fun s => s.ledger.Lawful c (.inside coherent.new)) ?_ ?_ _ lawful
  · intro old s lawful
    rw [collectOne, TracedWork.inRangeFrom_get_bind]
    cases leads : (kind s.ledger).get? old >>= (·.highest) with
    | none => exact TracedWork.inRangeFrom_pure _ s
    | some best => exact each old best s lawful leads
  · intro old s s' lawful done
    obtain ⟨t, reached, actions, trail, -⟩ := confirms old s lawful
    rw [reached] at done
    cases done
    exact trail.lawful coherent.old lawful

theorem inRangeFrom_collectTypes : (collectTypes c).InRangeFrom s := by
  refine inRangeFrom_collect coherent ?_ ?_ lawful
  · intro old best s lawful leads
    rw [TracedWork.inRangeFrom_bind]
    exact ⟨inRangeFrom_confirmType coherent lawful (lawful.types.of_highest leads).1,
      fun _ s' _ => TracedWork.inRangeFrom_pure _ s'⟩
  · intro old s lawful
    simpa [TracedWork.discard_eq_bind] using collectType_confirms lawful old

theorem inRangeFrom_collectMethods : (collectMethods c).InRangeFrom s := by
  refine inRangeFrom_collect coherent ?_ ?_ lawful
  · intro old best s lawful leads
    obtain ⟨subject, ballot⟩ := lawful.methods.of_highest leads
    cases old with
    | real m =>
        refine inRangeFrom_confirmOwned coherent lawful ?_ ?_ _
        · simpa [methodOwners] using ⟨subject m rfl, ballot.1⟩
        · rintro pair ⟨⟩
          exact coherent.old.hasType_methodOwner (subject m rfl)
    | synthetic placeholder =>
        exact inRangeFrom_confirmOwned coherent lawful (inRange_pure none) nofun _
  · intro old s lawful
    simpa using collectMethod_confirms coherent lawful old

theorem inRangeFrom_collectFields : (collectFields c).InRangeFrom s := by
  refine inRangeFrom_collect coherent ?_ ?_ lawful
  · intro old best s lawful leads
    obtain ⟨subject, ballot⟩ := lawful.fields.of_highest leads
    cases old with
    | real f =>
        refine inRangeFrom_confirmOwned coherent lawful ?_ ?_ _
        · simpa [fieldOwners] using ⟨subject f rfl, ballot.1⟩
        · rintro pair ⟨⟩
          exact coherent.old.hasType_fieldOwner (subject f rfl)
    | synthetic placeholder =>
        exact inRangeFrom_confirmOwned coherent lawful (inRange_pure none) nofun _
  · intro old s lawful
    simpa using collectField_confirms coherent lawful old

theorem inRangeFrom_collectVotes : (collectVotes c).InRangeFrom s := by
  rw [collectVotes, TracedWork.inRangeFrom_bind]
  refine ⟨inRangeFrom_collectTypes coherent lawful, fun _ s₁ done => ?_⟩
  obtain ⟨t₁, reached, actions₁, trail₁, -⟩ := collectTypes_confirms coherent lawful
  rw [plain_collectTypes, reached] at done
  cases done
  have lawful₁ := trail₁.lawful coherent.old lawful
  rw [TracedWork.inRangeFrom_bind]
  refine ⟨inRangeFrom_collectMethods coherent lawful₁, fun _ s₂ done => ?_⟩
  obtain ⟨t₂, reached, actions₂, trail₂, -⟩ := collectMethods_confirms coherent lawful₁
  rw [plain_collectMethods, reached] at done
  cases done
  exact inRangeFrom_collectFields coherent (trail₂.lawful coherent.old lawful₁)

/-- **What passes do is looked up in range.** -/
theorem inRangeFrom_run (pass : Pass) : (run c pass).InRangeFrom s := by
  rw [run, TracedWork.inRangeFrom_get_bind]
  split
  · next planned plans =>
    rw [TracedWork.inRangeFrom_of_bind]
    have decided : pass.plan? c s.ledger = some planned.value := by
      rw [← value_plan?, plans]
      rfl
    exact ⟨inRange_plan? coherent lawful plans, inRangeFrom_performAll coherent lawful
      (.of_warranted coherent.old lawful (Pass.warranted_of_plan? _ coherent lawful decided))⟩
  · exact inRangeFrom_collectVotes coherent lawful

end

end Traced

end Namesake
