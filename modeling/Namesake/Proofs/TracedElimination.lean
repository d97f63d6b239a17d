import Namesake.Proofs.PassWarrants
import Namesake.Proofs.TracedIndexes

/-! # What elimination is looked up for

Members of two types are told apart by keys, and methods that refer to the same things are told
apart within their owners. Between coherent programs and with a lawful ledger, the members listed,
their owners and the targets looked up for this are in range.
-/

namespace Namesake.Traced

variable (c : Context) (l : Ledger)

/-! ## Elimination -/

def newTypeName? (name : String) : Traced (Option String) :=
  following (c.new.program.typeNamed? name >>= l.types.holder?) fun
    | .real old => do return some (c.oldTypeName (← type c.old.program old).name)
    | .synthetic s => pure (some s.name)

def newClassKey? (name : String) : Traced (Option String) :=
  match c.new.program.typeNamed? name with
  | none => pure (some name)
  | some _ => newTypeName? c l name

def fieldKey (classKey? : String → Traced (Option String)) (descriptor : String) :
    Traced String :=
  match Descriptor.elementClass descriptor with
  | (depth, some name) => do
    return match ← classKey? name with
      | some key => String.ofList (List.replicate depth '[') ++ "L" ++ key ++ ";"
      | none => "*"
  | (_, none) => pure descriptor

def methodKey (classKey? : String → Traced (Option String)) (name descriptor : String) :
    Traced String := do
  let params ← (Descriptor.splitParams descriptor).mapM (fieldKey classKey?)
  let result ← fieldKey classKey? (Descriptor.returnPart descriptor)
  return (if name.toList.head? == some '<' then name else "") ++
    "(" ++ String.join params ++ ")" ++ result

def eliminateMethods (olds news : List MethodId) : Traced (List Ballot) := do
  let old ← (olds.filter fun m => !l.methods.isConfirmed (.real m)).mapM fun m => do
    let e ← method c.old.program m
    return (Namesake.methodKey (oldClassKey? c l) e.name e.descriptor, m)
  let new ← (news.filter fun m => !l.methods.isClaimed m).mapM fun m => do
    let e ← method c.new.program m
    return (← methodKey (newClassKey? c l) e.name e.descriptor, m)
  return (discretePairs old new).map fun (o, n) => .method o n

def eliminateFields (olds news : List FieldId) : Traced (List Ballot) := do
  let old ← (olds.filter fun f => !l.fields.isConfirmed (.real f)).mapM fun f => do
    return (Namesake.fieldKey (oldClassKey? c l) (← field c.old.program f).descriptor, f)
  let new ← (news.filter fun f => !l.fields.isClaimed f).mapM fun f => do
    return (← fieldKey (newClassKey? c l) (← field c.new.program f).descriptor, f)
  return (discretePairs old new).map fun (o, n) => .field o n

def instanceFields (p : Program) (t : TypeId) : Traced (List FieldId) := do
  filter (fun f => do return !(← field p f).isStatic) (← type p t).fields

def staticFields (p : Program) (t : TypeId) : Traced (List FieldId) := do
  filter (fun f => do return (← field p f).isStatic) (← type p t).fields

def matchDiscreteFields : Traced (List Ballot) :=
  l.types.pairs.flatMapM fun (o, n) => do
    return (← eliminateFields c l (← instanceFields c.old.program o)
        (← instanceFields c.new.program n)) ++
      (← eliminateFields c l (← staticFields c.old.program o) (← staticFields c.new.program n))

def matchDiscreteMethods : Traced (List Ballot) :=
  l.types.pairs.flatMapM fun (o, n) => do
    return (← eliminateMethods c l (← instanceMethods c.old.program o)
        (← instanceMethods c.new.program n)) ++
      (← eliminateMethods c l (← staticMethods c.old.program o) (← staticMethods c.new.program n))

/-! ## References -/

def byOwner (p : Program) (methods : List MethodId) : Traced (SortedMap TypeId (List MethodId)) :=
  methods.foldlM (fun m id => do
    let owner := (← method p id).owner
    return m.insert owner (m.getD owner [] ++ [id])) ∅

def compareReferrers (olds news : List MethodId) : Traced (List Ballot) := do
  let old ← byOwner c.old.program olds
  let new ← byOwner c.new.program news
  let owners := match old.keys, new.keys with
    | [o], [n] => [.type o n]
    | _, _ => []
  let eliminated ← old.toList.flatMapM fun (t, methods) =>
    match l.types.target? (.real t) with
    | none => pure []
    | some n =>
      match new.get? n with
      | none => pure []
      | some methods' => eliminateMethods c l methods methods'
  return owners ++ eliminated

/-- Compare the referrers of two things. -/
def compareReferences (o n : Reference) : Traced (List Ballot) :=
  compareReferrers c l (c.old.references.referrers o) (c.new.references.referrers n)

def matchReferences : Traced (List Ballot) := do
  let external ← c.old.references.externals.flatMapM fun (r, _) => compareReferences c l r r
  let internal ← l.types.pairs.flatMapM fun (o, n) => do
    let created := (← compareReferences c l (.create o) (.create n)) ++
      (← compareReferences c l (.createArray o) (.createArray n))
    let fields ← (← type c.old.program o).fields.flatMapM fun f =>
      match l.fields.target? (.real f) with
      | none => pure []
      | some g => do
        return (← compareReferences c l (.read f) (.read g)) ++
          (← compareReferences c l (.write f) (.write g))
    let methods ← (← type c.old.program o).methods.flatMapM fun m =>
      match l.methods.target? (.real m) with
      | none => pure []
      | some m' => do
        let site ← soleAnonymousSite? c.old.program m
        let site' ← soleAnonymousSite? c.new.program m'
        let sites := match site, site' with
          | some a, some b => [.type a b]
          | _, _ => []
        return sites ++ (← compareReferences c l (.invoke m) (.invoke m'))
    return created ++ fields ++ methods
  return external ++ internal

/-! ## Values -/

@[simp]
theorem value_newTypeName? (name : String) :
    (newTypeName? c l name).value = c.newTypeName? l name := by
  rw [newTypeName?, value_following, Context.newTypeName?, bind_assoc]
  refine Option.bind_congr fun t _ => Option.bind_congr fun holder _ => ?_
  cases holder <;> rfl

@[simp]
theorem value_newClassKey? (name : String) :
    (newClassKey? c l name).value = Namesake.newClassKey? c l name := by
  rw [newClassKey?, Namesake.newClassKey?]
  cases c.new.program.typeNamed? name with
  | none => rfl
  | some t => exact value_newTypeName? c l name

@[simp]
theorem value_fieldKey (classKey? : String → Traced (Option String)) (descriptor : String) :
    (fieldKey classKey? descriptor).value =
      Namesake.fieldKey (fun name => (classKey? name).value) descriptor := by
  rw [fieldKey, Namesake.fieldKey]
  obtain ⟨depth, name?⟩ := Descriptor.elementClass descriptor
  cases name? <;> rfl

@[simp]
theorem value_methodKey (classKey? : String → Traced (Option String)) (name descriptor : String) :
    (methodKey classKey? name descriptor).value =
      Namesake.methodKey (fun name => (classKey? name).value) name descriptor := by
  simp [methodKey, Namesake.methodKey]

@[simp]
theorem value_eliminateMethods (olds news : List MethodId) :
    (eliminateMethods c l olds news).value = Namesake.eliminateMethods c l olds news := by
  simp [eliminateMethods, Namesake.eliminateMethods]

@[simp]
theorem value_eliminateFields (olds news : List FieldId) :
    (eliminateFields c l olds news).value = Namesake.eliminateFields c l olds news := by
  simp [eliminateFields, Namesake.eliminateFields]

@[simp]
theorem value_instanceFields (p : Program) (t : TypeId) :
    (instanceFields p t).value = p.instanceFields t := by
  simp [instanceFields, Program.instanceFields]

@[simp]
theorem value_staticFields (p : Program) (t : TypeId) :
    (staticFields p t).value = p.staticFields t := by
  simp [staticFields, Program.staticFields]

@[simp]
theorem value_matchDiscreteFields :
    (matchDiscreteFields c l).value = Namesake.matchDiscreteFields c l := by
  simp [matchDiscreteFields, Namesake.matchDiscreteFields]

@[simp]
theorem value_matchDiscreteMethods :
    (matchDiscreteMethods c l).value = Namesake.matchDiscreteMethods c l := by
  simp [matchDiscreteMethods, Namesake.matchDiscreteMethods]

@[simp]
theorem value_byOwner (p : Program) (methods : List MethodId) :
    (byOwner p methods).value = Namesake.byOwner p methods := by
  simp [byOwner, Namesake.byOwner]

@[simp]
theorem value_compareReferrers (olds news : List MethodId) :
    (compareReferrers c l olds news).value = Namesake.compareReferrers c l olds news := by
  rw [compareReferrers, Namesake.compareReferrers]
  simp only [value_bind, value_pure, value_byOwner, value_flatMapM]
  refine congrArg _ (List.flatMap_congr fun entry _ => ?_)
  cases l.types.target? (.real entry.1) with
  | none => rfl
  | some n =>
      dsimp only
      cases (Namesake.byOwner c.new.program news).get? n with
      | none => rfl
      | some methods' => exact value_eliminateMethods c l entry.2 methods'

@[simp]
theorem value_compareReferences (o n : Reference) :
    (compareReferences c l o n).value =
      Namesake.compareReferrers c l (c.old.references.referrers o)
        (c.new.references.referrers n) :=
  value_compareReferrers c l _ _

@[simp]
theorem value_matchReferences : (matchReferences c l).value = Namesake.matchReferences c l := by
  rw [matchReferences, Namesake.matchReferences]
  simp only [value_bind, value_pure, value_flatMapM, value_compareReferences, value_type]
  refine congrArg _ (List.flatMap_congr fun pair _ => congrArg₂ _ (congrArg _ ?_) ?_)
  · refine List.flatMap_congr fun f _ => ?_
    cases l.fields.target? (.real f) with
    | none => rfl
    | some g => simp
  · refine List.flatMap_congr fun m _ => ?_
    cases l.methods.target? (.real m) with
    | none => rfl
    | some m' =>
        simp only [value_bind, value_pure, value_soleAnonymousSite?]
        exact congrArg _ (value_compareReferences c l (.invoke m) (.invoke m'))

/-! ## In range -/

section

variable {c : Context} (coherent : c.Coherent) {l : Ledger}
  (lawful : l.Lawful c (.inside coherent.new))

include lawful

/-! ### Elimination -/

theorem inRange_newTypeName? (name : String) : (newTypeName? c l name).InRange := by
  rw [newTypeName?, inRange_following]
  intro holder found
  obtain ⟨t, -, held⟩ := Option.bind_eq_some_iff.mp found
  cases holder with
  | real old =>
      have confirmed := lawful.types.sound.holder_iff.mp held
      simpa using (lawful.hasType_of_target? confirmed).1
  | synthetic s => exact inRange_pure _

theorem inRange_newClassKey? (name : String) : (newClassKey? c l name).InRange := by
  unfold newClassKey?
  split
  · exact inRange_pure _
  · exact inRange_newTypeName? coherent lawful name

omit lawful in
theorem inRange_fieldKey {classKey? : String → Traced (Option String)}
    (each : ∀ name, (classKey? name).InRange) (descriptor : String) :
    (fieldKey classKey? descriptor).InRange := by
  unfold fieldKey
  split
  · exact inRange_bind.mpr ⟨each _, inRange_pure _⟩
  · exact inRange_pure _

omit lawful in
theorem inRange_methodKey {classKey? : String → Traced (Option String)}
    (each : ∀ name, (classKey? name).InRange) (name descriptor : String) :
    (methodKey classKey? name descriptor).InRange := by
  simp [methodKey, inRange_fieldKey each]

/-- Methods of the two programs are told apart by their descriptors. -/
theorem inRange_eliminateMethods {olds news : List MethodId}
    (inOld : ∀ m ∈ olds, c.old.program.HasMethod m)
    (inNew : ∀ m ∈ news, c.new.program.HasMethod m) :
    (eliminateMethods c l olds news).InRange := by
  have keys := inRange_methodKey (inRange_newClassKey? coherent lawful)
  simp only [eliminateMethods, inRange_bind, inRange_mapM, inRange_method, inRange_pure, and_true]
  refine ⟨fun m listed => inOld m (List.mem_filter.mp listed).1, fun m listed => ?_⟩
  exact ⟨inNew m (List.mem_filter.mp listed).1, keys _ _⟩

/-- So are fields. -/
theorem inRange_eliminateFields {olds news : List FieldId}
    (inOld : ∀ f ∈ olds, c.old.program.HasField f)
    (inNew : ∀ f ∈ news, c.new.program.HasField f) :
    (eliminateFields c l olds news).InRange := by
  have keys := inRange_fieldKey (inRange_newClassKey? coherent lawful)
  simp only [eliminateFields, inRange_bind, inRange_mapM, inRange_field, inRange_pure, and_true]
  refine ⟨fun f listed => inOld f (List.mem_filter.mp listed).1, fun f listed => ?_⟩
  exact ⟨inNew f (List.mem_filter.mp listed).1, keys _⟩

omit lawful in
theorem inRange_instanceFields {p : Program} (coherent : p.Coherent) {t : TypeId}
    (inside : p.HasType t) : (instanceFields p t).InRange := by
  simpa [instanceFields, inside] using fun f listed => (coherent.fieldListed listed).1

omit lawful in
theorem inRange_staticFields {p : Program} (coherent : p.Coherent) {t : TypeId}
    (inside : p.HasType t) : (staticFields p t).InRange := by
  simpa [staticFields, inside] using fun f listed => (coherent.fieldListed listed).1

theorem inRange_matchDiscreteFields : (matchDiscreteFields c l).InRange := by
  rw [matchDiscreteFields, inRange_flatMapM]
  rintro ⟨o, n⟩ pair
  obtain ⟨inOld, inNew⟩ := lawful.hasType_of_target? (lawful.types.sound.mem_pairs.mp pair)
  have listed {p : Program} (coherent : p.Coherent) {t : TypeId} {test : FieldId → Bool} :
      ∀ f ∈ (p.type t).fields.filter test, p.HasField f :=
    fun f member => (coherent.fieldListed (List.mem_filter.mp member).1).1
  have eliminated := @inRange_eliminateFields c coherent l lawful
  simp only [inRange_bind, value_instanceFields, value_staticFields, inRange_pure, and_true]
  exact ⟨inRange_instanceFields coherent.old inOld, inRange_instanceFields coherent.new inNew,
    eliminated (listed coherent.old) (listed coherent.new),
    inRange_staticFields coherent.old inOld, inRange_staticFields coherent.new inNew,
    eliminated (listed coherent.old) (listed coherent.new)⟩

theorem inRange_matchDiscreteMethods : (matchDiscreteMethods c l).InRange := by
  rw [matchDiscreteMethods, inRange_flatMapM]
  rintro ⟨o, n⟩ pair
  obtain ⟨inOld, inNew⟩ := lawful.hasType_of_target? (lawful.types.sound.mem_pairs.mp pair)
  have eliminated := @inRange_eliminateMethods c coherent l lawful
  simp only [inRange_bind, value_instanceMethods, value_staticMethods, inRange_pure, and_true]
  exact ⟨inRange_instanceMethods coherent.old inOld, inRange_instanceMethods coherent.new inNew,
    eliminated (fun _ => coherent.old.hasMethod_of_mem_instanceMethods)
      (fun _ => coherent.new.hasMethod_of_mem_instanceMethods),
    inRange_staticMethods coherent.old inOld, inRange_staticMethods coherent.new inNew,
    eliminated (fun _ => coherent.old.hasMethod_of_mem_staticMethods)
      (fun _ => coherent.new.hasMethod_of_mem_staticMethods)⟩

/-! ### References -/

omit lawful in
theorem inRange_byOwner {p : Program} {methods : List MethodId}
    (inside : ∀ m ∈ methods, p.HasMethod m) : (byOwner p methods).InRange := by
  refine inRange_foldlM (fun map m listed => ?_) _
  simpa using inside m listed

theorem inRange_compareReferences (o n : Reference) : (compareReferences c l o n).InRange := by
  have inOld : ∀ m ∈ c.old.references.referrers o, c.old.program.HasMethod m := by
    rw [c.old.references_eq]
    exact ReferenceIndex.isWithin_build c.old.program o
  have inNew : ∀ m ∈ c.new.references.referrers n, c.new.program.HasMethod m := by
    rw [c.new.references_eq]
    exact ReferenceIndex.isWithin_build c.new.program n
  rw [compareReferences, compareReferrers]
  simp only [inRange_bind, value_byOwner, inRange_flatMapM, inRange_pure, and_true]
  refine ⟨inRange_byOwner inOld, inRange_byOwner inNew, ?_⟩
  rintro ⟨t, methods⟩ entry
  dsimp only
  split
  · exact inRange_pure _
  · split
    · exact inRange_pure _
    · next methods' found =>
      refine inRange_eliminateMethods coherent lawful ?_ ?_
      · exact fun m listed => inOld m (mem_of_byOwner (SortedMap.mem_toList.mp entry) listed)
      · exact fun m listed => inNew m (mem_of_byOwner found listed)

theorem inRange_matchReferences : (matchReferences c l).InRange := by
  have compared := inRange_compareReferences coherent lawful
  simp only [matchReferences, inRange_bind, inRange_flatMapM, inRange_pure, and_true, compared,
    implies_true, true_and, value_type, inRange_type]
  rintro ⟨o, n⟩ pair
  have inOld := (lawful.hasType_of_target? (lawful.types.sound.mem_pairs.mp pair)).1
  refine ⟨inOld, fun f listed => ?_, inOld, fun m listed => ?_⟩
  · split
    · exact inRange_pure _
    · simp [compared]
  · split
    · exact inRange_pure _
    · next m' confirmed =>
      obtain ⟨inside, inside'⟩ := lawful.hasMethod_of_target? confirmed
      simp [compared, inRange_soleAnonymousSite? coherent.old inside,
        inRange_soleAnonymousSite? coherent.new inside']

end

end Namesake.Traced
