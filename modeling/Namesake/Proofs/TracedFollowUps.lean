import Namesake.Proofs.TracedPasses

/-! # What following up on pairs is looked up for

The passes that follow up on confirmed pairs compare what is in them. Whether a ballot of such a
comparison is accepted is looked up as well, in the members it is for. With these all passes but the
collector are traced (`Traced.plan?`), and from a lawful ledger they stay in range
(`Traced.inRange_plan?`).
-/

namespace Namesake.Traced

variable (c : Context) (l : Ledger)

/-! ## Ballots -/

def isAdmissible : Ballot → Traced Bool
  | .type _ _ => pure true
  | .method old new => do
    let o ← method c.old.program old
    let n ← method c.new.program new
    return o.isSynthetic || n.isSynthetic ||
      (o.isStatic == n.isStatic &&
        ((Ballot.requiredOwner? l l.methods old o.owner).all fun owner => owner = n.owner))
  | .field old new => do
    let o ← field c.old.program old
    let n ← field c.new.program new
    return o.isStatic == n.isStatic &&
      ((Ballot.requiredOwner? l l.fields old o.owner).all fun owner => owner = n.owner)

def accepted (b : Ballot) : Traced Bool := do
  return (← isAdmissible c l b) &&
    match b with
    | .type old new => l.types.accepts (.real old) new
    | .method old new => l.methods.accepts (.real old) new
    | .field old new => l.fields.accepts (.real old) new

def cast (b : Ballot) : Traced Ledger := do
  if ← isAdmissible c l b then
    return match b with
    | .type old new => { l with types := l.types.vote (.real old) new }
    | .method old new => { l with methods := l.methods.vote (.real old) new }
    | .field old new => { l with fields := l.fields.vote (.real old) new }
  else return l

def triedBallots : Comparison → Traced (List Ballot)
  | [] | .differ :: _ => pure []
  | .ballot b :: rest => do
    if ← accepted c l b then return b :: (← triedBallots rest) else return [b]

/-! ## Confirmed pairs -/

def pairInterfaces (o n : TypeId) : Traced (List Ballot) := do
  let sized ← (← interfaces c.new.program n).mapM fun i => do
    return (i, (← type c.new.program i).methods.length)
  let unclaimed := sized.filter fun e => !l.types.isClaimed e.1
  (← interfaces c.old.program o).filterMapM fun i => do
    if (l.types.target? (.real i)).isSome then return none
    else
      let size := (← type c.old.program i).methods.length
      return (soleClose size none unclaimed).map fun j => .type i j

def loneMethod? (p : Program) (t : TypeId) : Traced (Option MethodId) := do
  let proper ← filter (fun m => do return !(← method p m).isSynthetic) (← instanceMethods p t)
  return match proper with
    | [only] => some only
    | _ => none

def expandTypes (o n : TypeId) : Traced (List Action) := do
  let superclasses : List Ballot :=
    match ← superclass? c.old.program o, ← superclass? c.new.program n with
    | some os, some ns => [.type os ns]
    | _, _ => []
  let interfaces ← pairInterfaces c l o n
  let lone : List Action :=
    match ← loneMethod? c.old.program o, ← loneMethod? c.new.program n with
    | some om, some nm => [.confirmMethod (.real om) nm]
    | _, _ => []
  let literals ← methodLiterals c.new.program n
  let speaking : List Ballot := (← methodLiterals c.old.program o).toList.filterMap
    fun (text, om) => (literals.get? text).map fun nm => .method om nm
  return (superclasses ++ interfaces).map .vote ++ lone ++ speaking.map .vote

def mergeTypes : Traced (List Action) :=
  l.types.unmergedPairs.flatMapM fun (o, n) => do
    return .mergedType o :: (← expandTypes c l o n)

def mergeMethods : Traced (List Action) :=
  l.methods.unmergedPairs.flatMapM fun (o, n) => do
    let checks ← compareMethods c.old.program c.new.program (← method c.old.program o)
      (← method c.new.program n)
    return .mergedMethod o :: (← triedBallots c l checks).map .vote

def mergeFields : Traced (List Action) :=
  l.fields.unmergedPairs.flatMapM fun (o, n) => do
    let checks := Comparison.fields c.old.program c.new.program (← field c.old.program o)
      (← field c.new.program n)
    return .mergedField o :: (← triedBallots c l checks).map .vote

/-! ## Registrations -/

def oldMethodKey (id : MethodId) : Traced MethodKey := do
  let m ← method c.old.program id
  let owner ← methodOwnerName c.old.program id
  return {
    owner := c.names.mapType owner
    name := (c.names.mapMethod? owner m.name m.descriptor).getD m.name
    descriptor := c.names.mapDescriptor m.descriptor }

def staticAssignments (p : Program) (body : List Statement) :
    Traced (List (FieldId × Instruction)) :=
  body.filterMapM fun
    | .staticFieldAssignment target value =>
      following (p.typeNamed? target.owner) fun t => do
        following (← fieldNamed? p t target.name) fun f => do
          guarded ((← field p f).isStatic) (pure (f, value))
    | _ => pure none

def registrations (p : Program) (body : List Statement) : Traced (List Registration) := do
  (← staticAssignments p body).filterMapM fun (field, value) =>
    match value.stripCast with
    | .staticInvoke callee args => do
      let factory ← following (p.typeNamed? callee.owner) fun t => do
        following (← methodNamed? p t callee.name callee.descriptor) fun m => do
          guarded ((← method p m).isStatic) (pure m)
      let key := match args with
        | [.stringConstant key] => some key
        | _ => none
      return some ⟨field, factory, key⟩
    | _ => pure none

def registrationBallots (old new : List Statement) : Traced (List Ballot) := do
  let olds ← registrations c.old.program old
  let factory := (olds.filterMap (·.factory)).getLast?
  let keyed : SortedMap String FieldId :=
    .ofList (olds.filterMap fun r => r.key.map fun key => (key, r.field))
  return (← registrations c.new.program new).flatMap fun r =>
    (match factory, r.factory with
      | some o, some n => [.method o n]
      | _, _ => []) ++
    (match r.key >>= keyed.get? with
      | some f => [.field f r.field]
      | none => [])

def keyedConstructors (p : Program) (body : List Statement) :
    Traced (SortedMap String (FieldId × Instruction)) := do
  return .ofList <| (← staticAssignments p body).filterMap fun (field, value) =>
    match value.stripCast.stripBuilders with
    | call@(.new _ _ (.stringConstant key :: _)) => some (key, field, call)
    | _ => none

def keyedTableBallots (old new : List Statement) : Traced (List Ballot) := do
  let olds ← keyedConstructors c.old.program old
  (← keyedConstructors c.new.program new).toList.flatMapM fun (key, field, call) =>
    match olds.get? key with
    | none => pure []
    | some (oldField, oldCall) => do
      let checks ← instructions c.old.program c.new.program oldCall call
      return .field oldField field :: (← triedBallots c l checks)

def handlerBallots (handler : RegistrationHandler) (o n : MethodId) : Traced (List Ballot) := do
  match (← method c.old.program o).body, (← method c.new.program n).body with
  | some old, some new =>
    match handler with
    | .registryInitializer => registrationBallots c old new
    | .keyedConstructorTable => keyedTableBallots c l old new
    | .skip => return []
  | _, _ => return []

def mergeRegistrations : Traced (List Action) :=
  l.methods.unmergedPairs.flatMapM fun (o, n) => do
    match registry.get? (← oldMethodKey c o) with
    | none => return []
    | some handler => return .mergedMethod o :: (← handlerBallots c l handler o n).map .vote

/-- What a pass does about a ledger, where that is decided beforehand. -/
def plan? : Pass → Option (Traced (List Action))
  | .literals => some (matchLiterals c)
  | .bridges => some (matchBridges c)
  | .enums => some (.map .vote <$> matchEnums c)
  | .initializers => some (linkInitializers c l)
  | .references => some (.map .vote <$> matchReferences c l)
  | .discreteFields => some (.map .vote <$> matchDiscreteFields c l)
  | .overrides => some (.map .vote <$> matchOverrides c l)
  | .discreteMethods => some (.map .vote <$> matchDiscreteMethods c l)
  | .nestedTypes => some (.map .vote <$> matchNested c l)
  | .confirmedTypes => some (mergeTypes c l)
  | .registrations => some (mergeRegistrations c l)
  | .confirmedMethods => some (mergeMethods c l)
  | .confirmedFields => some (mergeFields c l)
  | .collector => none

/-! ## Values -/

@[simp]
theorem value_isAdmissible (b : Ballot) : (isAdmissible c l b).value = b.isAdmissible c l := by
  cases b <;> rfl

@[simp]
theorem value_accepted (b : Ballot) : (accepted c l b).value = b.accepted c l := by
  unfold accepted
  rw [value_bind, value_isAdmissible]
  rfl

@[simp]
theorem value_cast (b : Ballot) : (cast c l b).value = b.cast c l := by
  unfold cast Ballot.cast
  rw [value_bind, value_isAdmissible]
  split_ifs <;> rfl

@[simp]
theorem value_triedBallots (checks : Comparison) :
    (triedBallots c l checks).value = Namesake.triedBallots c l checks := by
  unfold Namesake.triedBallots
  induction checks with
  | nil => rfl
  | cons check rest ih =>
      cases check with
      | differ => rfl
      | ballot b =>
          rw [triedBallots, value_bind, value_accepted, Comparison.verdict]
          split_ifs
          · simp [ih]
          · rfl

@[simp]
theorem value_pairInterfaces (o n : TypeId) :
    (pairInterfaces c l o n).value = Namesake.pairInterfaces c l o n := by
  rw [pairInterfaces, Namesake.pairInterfaces]
  simp only [value_bind, value_filterMapM, value_mapM, value_interfaces, value_type, value_pure,
    List.filter_map, Function.comp_def]
  refine List.filterMap_congr fun i _ => ?_
  split_ifs <;> rfl

@[simp]
theorem value_loneMethod? (p : Program) (t : TypeId) :
    (loneMethod? p t).value = p.loneMethod? t := by
  simp [loneMethod?]
  rfl

@[simp]
theorem value_expandTypes (o n : TypeId) :
    (expandTypes c l o n).value = Namesake.expandTypes c l o n := by
  simp only [expandTypes, value_bind, value_pure, value_superclass?, value_pairInterfaces,
    value_loneMethod?, value_methodLiterals]
  rfl

@[simp]
theorem value_mergeTypes : (mergeTypes c l).value = Namesake.mergeTypes c l := by
  simp [mergeTypes, Namesake.mergeTypes]

@[simp]
theorem value_mergeMethods : (mergeMethods c l).value = Namesake.mergeMethods c l := by
  simp [mergeMethods, Namesake.mergeMethods]

@[simp]
theorem value_mergeFields : (mergeFields c l).value = Namesake.mergeFields c l := by
  simp [mergeFields, Namesake.mergeFields]

@[simp]
theorem value_oldMethodKey (id : MethodId) :
    (oldMethodKey c id).value = Namesake.oldMethodKey c id := rfl

@[simp]
theorem value_staticAssignments (p : Program) (body : List Statement) :
    (staticAssignments p body).value = p.staticAssignments body := by
  rw [staticAssignments, value_filterMapM, Program.staticAssignments]
  refine List.filterMap_congr fun statement _ => ?_
  split
  · simp only [value_bind, value_following, value_guarded, value_fieldNamed?]
    rfl
  · simp

@[simp]
theorem value_registrations (p : Program) (body : List Statement) :
    (registrations p body).value = Namesake.registrations p body := by
  rw [registrations, value_bind, value_filterMapM, value_staticAssignments,
    Namesake.registrations]
  refine List.filterMap_congr fun assignment _ => ?_
  dsimp only
  generalize assignment.2.stripCast = value
  cases value with
  | staticInvoke callee args =>
      simp only [value_bind, value_following, value_guarded, value_methodNamed?]
      rfl
  | _ => rfl

@[simp]
theorem value_registrationBallots (old new : List Statement) :
    (registrationBallots c old new).value = Namesake.registrationBallots c old new := by
  simp only [registrationBallots, value_bind, value_pure, value_registrations]
  rfl

@[simp]
theorem value_keyedConstructors (p : Program) (body : List Statement) :
    (keyedConstructors p body).value = Namesake.keyedConstructors p body := by
  simp [keyedConstructors]
  rfl

@[simp]
theorem value_keyedTableBallots (old new : List Statement) :
    (keyedTableBallots c l old new).value = Namesake.keyedTableBallots c l old new := by
  rw [keyedTableBallots, Namesake.keyedTableBallots]
  simp only [value_bind, value_flatMapM, value_keyedConstructors]
  refine List.flatMap_congr fun entry _ => ?_
  cases (Namesake.keyedConstructors c.old.program old).get? entry.1 with
  | none => rfl
  | some found => simp [value_values]

@[simp]
theorem value_handlerBallots (handler : RegistrationHandler) (o n : MethodId) :
    (handlerBallots c l handler o n).value = handler.ballots c l o n := by
  rw [handlerBallots, RegistrationHandler.ballots]
  simp only [value_bind, value_method]
  cases (c.old.program.method o).body with
  | none => rfl
  | some old =>
      cases (c.new.program.method n).body with
      | none => rfl
      | some new => cases handler <;> simp

@[simp]
theorem value_mergeRegistrations :
    (mergeRegistrations c l).value = Namesake.mergeRegistrations c l := by
  rw [mergeRegistrations, Namesake.mergeRegistrations, value_flatMapM]
  refine List.flatMap_congr fun pair _ => ?_
  rw [value_bind, value_oldMethodKey]
  cases read : registry.get? (Namesake.oldMethodKey c pair.1) <;> simp [read]

theorem value_plan? (pass : Pass) : (plan? c l pass).map (·.value) = pass.plan? c l := by
  cases pass <;> simp [plan?, Pass.plan?]

/-! ## In range -/

section

variable {c : Context} {l : Ledger}

/-! ### Ballots -/

section

variable {b : Ballot} (inside : b.InRange c.old.program c.new.program)

include inside

theorem inRange_isAdmissible : (isAdmissible c l b).InRange := by
  cases b with
  | type o n => exact inRange_pure true
  | method o n => simpa [isAdmissible, Ballot.InRange] using inside
  | field o n => simpa [isAdmissible, Ballot.InRange] using inside

theorem inRange_accepted : (accepted c l b).InRange :=
  inRange_bind.mpr ⟨inRange_isAdmissible inside, inRange_pure _⟩

theorem inRange_cast : (cast c l b).InRange := by
  unfold cast
  rw [inRange_bind]
  refine ⟨inRange_isAdmissible inside, ?_⟩
  split_ifs <;> exact inRange_pure _

end

/-- A comparison with well-formed ballots is tried in range. -/
theorem inRange_triedBallots {coherent : c.new.program.Coherent} {checks : Comparison}
    (formed : checks.IsFormed c (.inside coherent)) : (triedBallots c l checks).InRange := by
  induction checks with
  | nil => exact inRange_pure []
  | cons check rest ih =>
      cases check with
      | differ => exact inRange_pure []
      | ballot b =>
          rw [Comparison.isFormed_cons_ballot] at formed
          rw [triedBallots, inRange_bind]
          refine ⟨inRange_accepted formed.1.inRange, ?_⟩
          split_ifs
          · simpa using ih formed.2
          · exact inRange_pure [b]

variable (coherent : c.Coherent) (lawful : l.Lawful c (.inside coherent.new))

/-! ### Confirmed pairs -/

theorem inRange_loneMethod? {p : Program} (coherent : p.Coherent) {t : TypeId}
    (inside : p.HasType t) : (loneMethod? p t).InRange := by
  simpa [loneMethod?, inRange_instanceMethods coherent inside] using
    fun m => coherent.hasMethod_of_mem_instanceMethods

section

variable {o n : TypeId} (inOld : c.old.program.HasType o) (inNew : c.new.program.HasType n)

include coherent inOld inNew

theorem inRange_pairInterfaces : (pairInterfaces c l o n).InRange := by
  simp only [pairInterfaces, inRange_bind, inRange_interfaces, inRange_mapM, inRange_filterMapM,
    inRange_type, inRange_pure, and_true, value_interfaces]
  refine ⟨inNew, fun i => coherent.new.hasType_of_mem_interfaces, inOld, fun i listed => ?_⟩
  split_ifs
  · exact inRange_pure none
  · simpa using coherent.old.hasType_of_mem_interfaces listed

theorem inRange_expandTypes : (expandTypes c l o n).InRange := by
  simp [expandTypes, inOld, inNew, inRange_pairInterfaces coherent inOld inNew,
    inRange_loneMethod? coherent.old inOld, inRange_loneMethod? coherent.new inNew,
    inRange_methodLiterals coherent.old inOld, inRange_methodLiterals coherent.new inNew]

end

include lawful

theorem inRange_mergeTypes : (mergeTypes c l).InRange := by
  rw [mergeTypes, inRange_flatMapM]
  rintro ⟨o, n⟩ pair
  obtain ⟨inOld, inNew⟩ :=
    lawful.hasType_of_target? (lawful.types.sound.mem_unmergedPairs.mp pair).1
  simpa using inRange_expandTypes coherent inOld inNew

theorem inRange_mergeMethods : (mergeMethods c l).InRange := by
  rw [mergeMethods, inRange_flatMapM]
  rintro ⟨o, n⟩ pair
  obtain ⟨inOld, inNew⟩ :=
    lawful.hasMethod_of_target? (lawful.methods.sound.mem_unmergedPairs.mp pair).1
  simpa [inOld, inNew, inRange_compareMethods coherent.old coherent.new] using
    inRange_triedBallots (Comparison.isFormed_methods (.inside coherent.new) coherent _ _)

theorem inRange_mergeFields : (mergeFields c l).InRange := by
  rw [mergeFields, inRange_flatMapM]
  rintro ⟨o, n⟩ pair
  obtain ⟨inOld, inNew⟩ :=
    lawful.hasField_of_target? (lawful.fields.sound.mem_unmergedPairs.mp pair).1
  simpa [inOld, inNew] using
    inRange_triedBallots (Comparison.isFormed_fields (.inside coherent.new) coherent _ _)

/-! ### Registrations -/

omit lawful

theorem inRange_staticAssignments {p : Program} (coherent : p.Coherent) (body : List Statement) :
    (staticAssignments p body).InRange := by
  rw [staticAssignments, inRange_filterMapM]
  intro statement _
  split
  · rw [inRange_following]
    intro t named
    rw [inRange_bind, value_fieldNamed?, inRange_following]
    refine ⟨inRange_fieldNamed? coherent (coherent.named named).1 _, fun f found => ?_⟩
    rw [inRange_bind, inRange_guarded, inRange_field]
    exact ⟨coherent.hasField_of_fieldNamed? found, fun _ => inRange_pure _⟩
  · exact inRange_pure none

theorem inRange_registrations {p : Program} (coherent : p.Coherent) (body : List Statement) :
    (registrations p body).InRange := by
  rw [registrations, inRange_bind, inRange_filterMapM]
  refine ⟨inRange_staticAssignments coherent body, ?_⟩
  rintro ⟨f, value⟩ _
  dsimp only
  split
  · rw [inRange_bind, inRange_following]
    refine ⟨fun t named => ?_, inRange_pure _⟩
    rw [inRange_bind, value_methodNamed?, inRange_following]
    refine ⟨inRange_methodNamed? coherent (coherent.named named).1 _ _, fun m found => ?_⟩
    rw [inRange_bind, inRange_guarded, inRange_method]
    exact ⟨coherent.hasMethod_of_methodNamed? found, fun _ => inRange_pure _⟩
  · exact inRange_pure none

theorem inRange_keyedConstructors {p : Program} (coherent : p.Coherent) (body : List Statement) :
    (keyedConstructors p body).InRange :=
  inRange_bind.mpr ⟨inRange_staticAssignments coherent body, inRange_pure _⟩

include coherent

theorem inRange_registrationBallots (old new : List Statement) :
    (registrationBallots c old new).InRange := by
  simp [registrationBallots, inRange_registrations coherent.old,
    inRange_registrations coherent.new]

theorem inRange_keyedTableBallots (old new : List Statement) :
    (keyedTableBallots c l old new).InRange := by
  simp only [keyedTableBallots, inRange_bind, inRange_flatMapM,
    inRange_keyedConstructors coherent.old, inRange_keyedConstructors coherent.new, true_and]
  intro entry _
  split
  · exact inRange_pure []
  · next oldField oldCall _ =>
    rw [inRange_bind, inRange_bind, (value_values _ _).1]
    exact ⟨(inRange_values coherent.old coherent.new).1 _ _, inRange_triedBallots
      ((Comparison.isFormed_values (.inside coherent.new) coherent).1 _ _), inRange_pure _⟩

include lawful

theorem inRange_mergeRegistrations : (mergeRegistrations c l).InRange := by
  rw [mergeRegistrations, inRange_flatMapM]
  rintro ⟨o, n⟩ pair
  obtain ⟨inOld, inNew⟩ :=
    lawful.hasMethod_of_target? (lawful.methods.sound.mem_unmergedPairs.mp pair).1
  rw [inRange_bind]
  constructor
  · simpa [oldMethodKey, inOld] using inRange_methodOwnerName coherent.old inOld
  split
  · exact inRange_pure []
  next handler _ =>
  rw [inRange_bind, handlerBallots, inRange_bind, inRange_bind]
  refine ⟨⟨inRange_method.mpr inOld, inRange_method.mpr inNew, ?_⟩, inRange_pure _⟩
  split
  · cases handler with
    | registryInitializer => exact inRange_registrationBallots coherent _ _
    | keyedConstructorTable => exact inRange_keyedTableBallots coherent _ _
    | skip => exact inRange_pure []
  · exact inRange_pure []

/-- **What passes decide on is looked up in range.** -/
theorem inRange_plan? {pass : Pass} {planned : Traced (List Action)}
    (plans : plan? c l pass = some planned) : planned.InRange := by
  cases pass with
  | collector => cases plans
  | literals =>
      obtain rfl := Option.some.inj plans
      exact inRange_matchLiterals coherent
  | bridges =>
      obtain rfl := Option.some.inj plans
      exact inRange_matchBridges coherent
  | enums =>
      obtain rfl := Option.some.inj plans
      exact inRange_map.mpr inRange_matchEnums
  | initializers =>
      obtain rfl := Option.some.inj plans
      exact inRange_linkInitializers coherent lawful
  | references =>
      obtain rfl := Option.some.inj plans
      exact inRange_map.mpr (inRange_matchReferences coherent lawful)
  | discreteFields =>
      obtain rfl := Option.some.inj plans
      exact inRange_map.mpr (inRange_matchDiscreteFields coherent lawful)
  | overrides =>
      obtain rfl := Option.some.inj plans
      exact inRange_map.mpr (inRange_overridesFrom coherent [] l.methods.pairs)
  | discreteMethods =>
      obtain rfl := Option.some.inj plans
      exact inRange_map.mpr (inRange_matchDiscreteMethods coherent lawful)
  | nestedTypes =>
      obtain rfl := Option.some.inj plans
      exact inRange_map.mpr (inRange_matchNested coherent lawful)
  | confirmedTypes =>
      obtain rfl := Option.some.inj plans
      exact inRange_mergeTypes coherent lawful
  | registrations =>
      obtain rfl := Option.some.inj plans
      exact inRange_mergeRegistrations coherent lawful
  | confirmedMethods =>
      obtain rfl := Option.some.inj plans
      exact inRange_mergeMethods coherent lawful
  | confirmedFields =>
      obtain rfl := Option.some.inj plans
      exact inRange_mergeFields coherent lawful

end

end Namesake.Traced
