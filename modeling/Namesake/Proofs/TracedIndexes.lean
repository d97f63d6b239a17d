import Namesake.Proofs.TracedPrograms

/-! # What the indexes of a build are looked up for

The override groups and the reference index are worked out once for each program. Their traced
functions go through the whole program, and in a coherent one they stay inside it
(`Traced.inRange_groups`, `Traced.inRange_references`).
-/

namespace Namesake.Traced

variable (p : Program)

/-! ## References -/

def fieldReference (inside : FieldId → Reference) (use : Use) (r : MemberRef) :
    Traced Reference := do
  let found ← following (p.typeNamed? r.owner) fun t => findField? p t r.name
  return match found with
    | some f => inside f
    | none => .external use (r.owner ++ "." ++ r.name)

def statementReferences : Statement → Traced (List Reference)
  | .instanceFieldAssignment field _ _ | .staticFieldAssignment field _ => do
    return [← fieldReference p .write .write field]
  | _ => pure []

def instructionReferences : Instruction → Traced (List Reference)
  | .instanceFieldAccess field _ | .staticFieldAccess field => do
    return [← fieldReference p .read .read field]
  | .instanceInvoke method _ _ => do
    return [Program.callReference method (← following (p.typeNamed? method.owner) fun t =>
      findMethod? p t method.name method.descriptor)]
  | .staticInvoke method _ => do
    return [Program.callReference method (← following (p.typeNamed? method.owner) fun t =>
      findStaticMethod? p t method.name method.descriptor)]
  | .new type _ _ => pure (p.creation .create .create type.className?)
  | .newArray type _ _ | .multiNewArray type _ =>
    pure (p.creation .createArray .createArray type.innermostClass?)
  | _ => pure []

def referencesOf (id : MethodId) : Traced (List Reference) := do
  let body := (← method p id).statements
  return (← (Body.statements body).flatMapM (statementReferences p)) ++
    (← (Body.instructions body).flatMapM (instructionReferences p))

/-- The anonymous type an instruction creates. -/
def anonymousSite? : Instruction → Traced (Option TypeId)
  | .new type _ _ => following (type.className? >>= p.typeNamed?) fun t => do
    guarded ((← Traced.type p t).isAnonymous) (pure t)
  | _ => pure none

def anonymousSites (id : MethodId) : Traced (List TypeId) := do
  (Body.instructions (← method p id).statements).filterMapM (anonymousSite? p)

def soleAnonymousSite? (id : MethodId) : Traced (Option TypeId) := do
  return match ← anonymousSites p id with
    | [only] => some only
    | _ => none

/-- The reference index. While a method is scanned for its references, the anonymous types it
creates are looked up, too. -/
def references : Traced ReferenceIndex :=
  p.methodIds.foldlM (fun index id => do
    let _ ← anonymousSites p id
    return (← referencesOf p id).foldl (·.note id ·) index) ⟨∅⟩

@[simp]
theorem value_fieldReference (inside : FieldId → Reference) (use : Use) (r : MemberRef) :
    (fieldReference p inside use r).value = p.fieldReference inside use r := by
  simp [fieldReference]
  rfl

@[simp]
theorem value_statementReferences (s : Statement) :
    (statementReferences p s).value = p.statementReferences s := by
  cases s <;> simp [statementReferences, Program.statementReferences]

@[simp]
theorem value_instructionReferences (i : Instruction) :
    (instructionReferences p i).value = p.instructionReferences i := by
  cases i <;> simp [instructionReferences, Program.instructionReferences]

@[simp]
theorem value_referencesOf (id : MethodId) : (referencesOf p id).value = p.referencesOf id := by
  simp [referencesOf, Program.referencesOf]

@[simp]
theorem value_anonymousSites (id : MethodId) :
    (anonymousSites p id).value = p.anonymousSites id := by
  rw [anonymousSites, value_bind, value_filterMapM, Program.anonymousSites]
  refine List.filterMap_congr fun i _ => ?_
  cases i with
  | new type constructor args =>
      rw [anonymousSite?, value_following, bind_assoc]
      exact Option.bind_congr fun name _ => Option.bind_congr fun t _ => value_guarded _ _
  | _ => rfl

@[simp]
theorem value_soleAnonymousSite? (id : MethodId) :
    (soleAnonymousSite? p id).value = p.soleAnonymousSite? id := by
  rw [soleAnonymousSite?, value_bind, value_anonymousSites]
  rfl

@[simp]
theorem value_references : (references p).value = .build p := by
  simp [references, ReferenceIndex.build]

/-! ## Override groups -/

def overrideOn? (g : OverrideGroup) (t : TypeId) : Traced (Option MethodId) :=
  g.members.findM? fun m => do return (← method p m).owner = t

def argumentsFor? (sub owner : TypeId) : Traced (Option (List TypeArg)) := do
  let passed := (← type p sub).signature
  let name := (← type p owner).name
  return match passed >>= (·.supertypeRef? name) with
    | some (.class _ args) => some args
    | _ => none

def paramsSeenBy (sub owner : TypeId) (params : List TypeSig) : Traced (List TypeSig) := do
  match ← argumentsFor? p sub owner, (← type p owner).signature with
  | some args, some signature =>
    return params.map fun param =>
      match param with
      | .var name =>
        ((signature.typeParams.findIdx? (· = name)) >>= (args[·]?) >>= TypeArg.sig).getD param
      | _ => param
  | _, _ => return params

def slotsBelow (subtypes : SortedMap TypeId (List TypeId)) (owner : TypeId) (descriptor : String)
    (params : List TypeSig) : Traced (List Program.Slot) :=
  (subtypes.getD owner []).mapM fun sub => do
    return ⟨sub, descriptor, ← paramsSeenBy p sub owner params⟩

def filling? (name : String) (slot : Program.Slot) : Traced (Option MethodId) := do
  (← instanceMethods p slot.type).findM? fun m => do
    let e ← method p m
    return e.name = name && (e.descriptor = slot.descriptor || e.signature.params = slot.params)

def fillings (subtypes : SortedMap TypeId (List TypeId)) (name : String) (visited : List TypeId) :
    (stack : List Program.Slot) → Traced (List MethodId)
  | [] => pure []
  | slot :: stack =>
    if _seen : slot.type ∈ visited then fillings subtypes name visited stack
    else do
      let found ← filling? p name slot
      if _inside : slot.type ∈ p.typeIds then
        match found with
        | some m => do
          let e ← method p m
          let below ← slotsBelow p subtypes slot.type e.descriptor e.signature.params
          return m :: (← fillings subtypes name (slot.type :: visited) (below ++ stack))
        | none => do
          let below ← slotsBelow p subtypes slot.type slot.descriptor slot.params
          fillings subtypes name (slot.type :: visited) (below ++ stack)
      else fillings subtypes name visited stack
termination_by stack => ((unvisited p.typeIds visited).length, stack.length)
decreasing_by
  · exact Prod.Lex.right _ (by simp)
  · exact Prod.Lex.left _ _ (unvisited_cons_lt _inside _seen)
  · exact Prod.Lex.left _ _ (unvisited_cons_lt _inside _seen)
  · exact Prod.Lex.right _ (by simp)

def overrides (subtypes : SortedMap TypeId (List TypeId)) (owner : TypeId) (id : MethodId) :
    Traced (List MethodId) := do
  let m ← method p id
  if m.isConstructor || m.isStaticInitializer then return []
  else
    fillings p subtypes m.name [owner]
      (← slotsBelow p subtypes owner m.descriptor m.signature.params)

def discover (subtypes : SortedMap TypeId (List TypeId)) (owner : TypeId) (g : OverrideGroups)
    (id : MethodId) : Traced OverrideGroups :=
  if g.groupOf.contains id then pure g
  else do return (← overrides p subtypes owner id).foldl (·.join g.started.length) (g.start id)

/-- The override groups. -/
def groups : Traced OverrideGroups := do
  let subtypes ← subtypes p
  (← supertypesFirst p).foldlM (fun g t => do
    (← instanceMethods p t).foldlM (discover p subtypes t) g) .empty

section

variable (subtypes : SortedMap TypeId (List TypeId))

@[simp]
theorem value_overrideOn? (g : OverrideGroup) (t : TypeId) :
    (overrideOn? p g t).value = g.overrideOn? p t := by
  rw [overrideOn?, value_findM?]
  rfl

@[simp]
theorem value_argumentsFor? (sub owner : TypeId) :
    (argumentsFor? p sub owner).value = p.argumentsFor? sub owner := by
  rw [argumentsFor?, value_bind, value_bind, value_pure]
  simp only [value_type, Program.argumentsFor?, Option.bind_eq_bind]
  cases (p.type sub).signature with
  | none => rfl
  | some signature =>
      rw [Option.bind_some, Option.bind_some]
      cases signature.supertypeRef? (p.type owner).name with
      | none => rfl
      | some r => cases r <;> rfl

@[simp]
theorem value_paramsSeenBy (sub owner : TypeId) (params : List TypeSig) :
    (paramsSeenBy p sub owner params).value = p.paramsSeenBy sub owner params := by
  rw [paramsSeenBy, value_bind, value_bind, value_argumentsFor?, value_type, Program.paramsSeenBy]
  cases p.argumentsFor? sub owner with
  | none => rfl
  | some args => cases (p.type owner).signature <;> rfl

@[simp]
theorem value_slotsBelow (owner : TypeId) (descriptor : String) (params : List TypeSig) :
    (slotsBelow p subtypes owner descriptor params).value =
      p.slotsBelow subtypes owner descriptor params := by
  simp [slotsBelow, Program.slotsBelow]

@[simp]
theorem value_filling? (name : String) (slot : Program.Slot) :
    (filling? p name slot).value = p.filling? name slot := by
  rw [filling?, value_bind, value_findM?, value_instanceMethods]
  rfl

@[simp]
theorem value_fillings (name : String) (visited : List TypeId) (stack : List Program.Slot) :
    (fillings p subtypes name visited stack).value = p.fillings subtypes name visited stack := by
  fun_induction Program.fillings p subtypes name visited stack with
  | case1 => rw [fillings, value_pure]
  | case2 visited slot stack fresh m found ih =>
      rw [fillings, dif_neg fresh.2, value_bind, dif_pos fresh.1, value_filling?, found]
      simp [ih]
  | case3 visited slot stack fresh found ih =>
      rw [fillings, dif_neg fresh.2, value_bind, dif_pos fresh.1, value_filling?, found]
      simp [ih]
  | case4 visited slot stack passed ih =>
      rw [fillings]
      by_cases seen : slot.type ∈ visited
      · rw [dif_pos seen, ih]
      · rw [dif_neg seen, value_bind, dif_neg fun inside => passed ⟨inside, seen⟩, ih]

@[simp]
theorem value_overrides (owner : TypeId) (id : MethodId) :
    (overrides p subtypes owner id).value = p.overrides subtypes owner id := by
  rw [overrides, value_bind, value_method, Program.overrides]
  split_ifs with fixed
  · rfl
  · simp

@[simp]
theorem value_discover (owner : TypeId) (g : OverrideGroups) (id : MethodId) :
    (discover p subtypes owner g id).value = g.discover p subtypes owner id := by
  rw [discover, OverrideGroups.discover]
  split_ifs with grouped
  · rfl
  · simp

@[simp]
theorem value_groups : (groups p).value = .build p := by
  simp [groups, OverrideGroups.build]

end

/-! ## In range -/

section

variable {p : Program} (coherent : p.Coherent)

include coherent

theorem inRange_fieldReference (inside : FieldId → Reference) (use : Use) (r : MemberRef) :
    (fieldReference p inside use r).InRange := by
  rw [fieldReference, inRange_bind, inRange_following]
  refine ⟨fun t found => ?_, inRange_pure _⟩
  exact inRange_findField? coherent (coherent.named found).1 r.name

theorem inRange_statementReferences (s : Statement) : (statementReferences p s).InRange := by
  cases s <;> simp [statementReferences, inRange_fieldReference coherent]

theorem inRange_instructionReferences (i : Instruction) : (instructionReferences p i).InRange := by
  have reads := inRange_fieldReference coherent .read .read
  cases i with
  | instanceInvoke method receiver args =>
      rw [instructionReferences, inRange_bind, inRange_following]
      refine ⟨fun t found => ?_, inRange_pure _⟩
      exact inRange_findMethod? coherent (coherent.named found).1 _ _
  | staticInvoke method args =>
      rw [instructionReferences, inRange_bind, inRange_following]
      refine ⟨fun t found => ?_, inRange_pure _⟩
      exact inRange_findStaticMethod? coherent (coherent.named found).1 _ _
  | _ => simp [instructionReferences, reads]

theorem inRange_referencesOf {id : MethodId} (inside : p.HasMethod id) :
    (referencesOf p id).InRange := by
  simp [referencesOf, inside, inRange_statementReferences coherent,
    inRange_instructionReferences coherent]

theorem inRange_anonymousSites {id : MethodId} (inside : p.HasMethod id) :
    (anonymousSites p id).InRange := by
  rw [anonymousSites, inRange_bind, inRange_filterMapM]
  refine ⟨inRange_method.mpr inside, fun i _ => ?_⟩
  cases i with
  | new type constructor args =>
      rw [anonymousSite?, inRange_following]
      intro t found
      obtain ⟨name, -, named⟩ := Option.bind_eq_some_iff.mp found
      rw [inRange_bind, inRange_guarded]
      exact ⟨inRange_type.mpr (coherent.named named).1, fun _ => inRange_pure _⟩
  | _ => exact inRange_pure _

theorem inRange_soleAnonymousSite? {id : MethodId} (inside : p.HasMethod id) :
    (soleAnonymousSite? p id).InRange := by
  rw [soleAnonymousSite?, inRange_bind]
  exact ⟨inRange_anonymousSites coherent inside, inRange_pure _⟩

/-- The reference index is worked out inside the program. -/
theorem inRange_references : (references p).InRange := by
  refine inRange_foldlM (fun index id listed => ?_) _
  have inside := Program.mem_methodIds.mp listed
  simp [inRange_anonymousSites coherent inside, inRange_referencesOf coherent inside]

theorem inRange_overrideOn? {id : MethodId} {g : OverrideGroup} {t : TypeId}
    (found : (OverrideGroups.build p).group? id = some g) : (overrideOn? p g t).InRange := by
  refine inRange_findM? fun m member => ?_
  simpa using OverrideGroups.hasMethod_of_mem_group coherent found member

section

variable {subtypes : SortedMap TypeId (List TypeId)}
  (below : ∀ t, ∀ sub ∈ subtypes.getD t [], p.HasType sub)

omit coherent in
theorem inRange_paramsSeenBy {sub owner : TypeId} (inside : p.HasType owner)
    (under : p.HasType sub) (params : List TypeSig) :
    (paramsSeenBy p sub owner params).InRange := by
  rw [paramsSeenBy, inRange_bind, inRange_bind, argumentsFor?]
  refine ⟨by simp [inside, under], inRange_type.mpr inside, ?_⟩
  split <;> exact inRange_pure _

include below

omit coherent in
theorem inRange_slotsBelow {owner : TypeId} (inside : p.HasType owner) (descriptor : String)
    (params : List TypeSig) : (slotsBelow p subtypes owner descriptor params).InRange := by
  refine inRange_mapM.mpr fun sub listed => ?_
  simpa using inRange_paramsSeenBy inside (below owner sub listed) params

omit coherent in
/-- The slots below are on types of the program. -/
theorem hasType_of_mem_slotsBelow {owner : TypeId} {descriptor : String} {params : List TypeSig}
    {slot : Program.Slot} (listed : slot ∈ p.slotsBelow subtypes owner descriptor params) :
    p.HasType slot.type := by
  obtain ⟨sub, under, rfl⟩ := List.mem_map.mp listed
  exact below owner sub under

omit below in
theorem inRange_filling? (name : String) {slot : Program.Slot} (inside : p.HasType slot.type) :
    (filling? p name slot).InRange := by
  rw [filling?, inRange_bind, value_instanceMethods]
  refine ⟨inRange_instanceMethods coherent inside, inRange_findM? fun m listed => ?_⟩
  simpa using coherent.hasMethod_of_mem_instanceMethods listed

/-- Slots on types of the program are filled from inside. -/
theorem inRange_fillings (name : String) {visited : List TypeId} {stack : List Program.Slot}
    (all : ∀ slot ∈ stack, p.HasType slot.type) :
    (fillings p subtypes name visited stack).InRange := by
  fun_induction Program.fillings p subtypes name visited stack with
  | case1 =>
      rw [fillings]
      exact inRange_pure []
  | case2 visited slot stack fresh m found ih =>
      rw [List.forall_mem_cons] at all
      have filled := coherent.hasMethod_of_mem_instanceMethods (List.mem_of_find?_eq_some found)
      have further := ih (List.forall_mem_append.mpr
        ⟨fun _ listed => hasType_of_mem_slotsBelow below listed, all.2⟩)
      rw [fillings, dif_neg fresh.2, inRange_bind, dif_pos fresh.1, value_filling?, found]
      refine ⟨inRange_filling? coherent name all.1, ?_⟩
      simp [filled, inRange_slotsBelow below all.1, further]
  | case3 visited slot stack fresh found ih =>
      rw [List.forall_mem_cons] at all
      have further := ih (List.forall_mem_append.mpr
        ⟨fun _ listed => hasType_of_mem_slotsBelow below listed, all.2⟩)
      rw [fillings, dif_neg fresh.2, inRange_bind, dif_pos fresh.1, value_filling?, found]
      refine ⟨inRange_filling? coherent name all.1, ?_⟩
      simp [inRange_slotsBelow below all.1, further]
  | case4 visited slot stack passed ih =>
      rw [List.forall_mem_cons] at all
      rw [fillings]
      by_cases seen : slot.type ∈ visited
      · rw [dif_pos seen]
        exact ih all.2
      · rw [dif_neg seen, inRange_bind, dif_neg fun inside => passed ⟨inside, seen⟩]
        exact ⟨inRange_filling? coherent name all.1, ih all.2⟩

theorem inRange_overrides {owner : TypeId} {id : MethodId} (inside : p.HasType owner)
    (declared : p.HasMethod id) : (overrides p subtypes owner id).InRange := by
  rw [overrides, inRange_bind]
  refine ⟨inRange_method.mpr declared, ?_⟩
  split_ifs
  · exact inRange_pure []
  · rw [inRange_bind, value_slotsBelow]
    exact ⟨inRange_slotsBelow below inside _ _, inRange_fillings coherent below _ fun _ listed =>
      hasType_of_mem_slotsBelow below listed⟩

theorem inRange_discover {owner : TypeId} {id : MethodId} (inside : p.HasType owner)
    (declared : p.HasMethod id) (g : OverrideGroups) :
    (discover p subtypes owner g id).InRange := by
  rw [discover]
  split_ifs
  · exact inRange_pure g
  · simpa using inRange_overrides coherent below inside declared

end

/-- The override groups are worked out inside the program. -/
theorem inRange_groups : (groups p).InRange := by
  have below : ∀ t, ∀ sub ∈ p.subtypes.getD t [], p.HasType sub :=
    fun _ _ listed => coherent.closed.subtypes listed
  rw [groups, inRange_bind, inRange_bind, value_subtypes, value_supertypesFirst]
  refine ⟨inRange_subtypes, inRange_supertypesFirst coherent,
    inRange_foldlM (fun g t listed => ?_) _⟩
  have inside := coherent.closed.ordered listed
  rw [inRange_bind, value_instanceMethods]
  refine ⟨inRange_instanceMethods coherent inside, inRange_foldlM (fun g m listed => ?_) _⟩
  have declared := coherent.hasMethod_of_mem_instanceMethods listed
  exact inRange_discover coherent below inside declared g

end

end Namesake.Traced
