import Namesake.Proofs.TracedComparisons
import Namesake.Proofs.TracedElimination

/-! # What passes are looked up for

A pass goes from the confirmed pairs of the ledger it finds, or from all types of a program, to
members, owners, referrers and neighbours, and looks them up on the way. The traced passes are
written like the plain ones. Whatever is confirmed in a lawful ledger is in range, and so is what a
coherent program leads to from there (`Traced.inRange_plan?`).
-/

namespace Namesake.Traced

variable (c : Context) (l : Ledger)

/-! ## Text constants -/

def literalsOf (p : Program) (m : MethodId) : Traced (List String) := do
  return Body.stringConstants (← method p m).statements

def typeLiterals (p : Program) : Traced (SortedMap String TypeId) := do
  return soleOwners (← p.typeIds.flatMapM fun t => do
    (← type p t).methods.flatMapM fun m => do return (← literalsOf p m).map fun text => (text, t))

def methodLiterals (p : Program) (t : TypeId) : Traced (SortedMap String MethodId) := do
  return soleOwners (← (← type p t).methods.flatMapM fun m => do
    return (← literalsOf p m).map fun text => (text, m))

def literalPairs (old new : Program) : Traced (SortedMap TypeId TypeId) := do
  let partners ← typeLiterals new
  let pairs := soleOwners <| (← typeLiterals old).toList.filterMap fun (text, o) =>
    (partners.get? text).map fun n => (o, n)
  return pairs.filter fun _ n => pairs.values.count n == 1

def matchLiterals : Traced (List Action) := do
  return (← literalPairs c.old.program c.new.program).toList.map fun (o, n) =>
    .confirmType (.real o) n

/-! ## Bridges -/

def constantsField? (p : Program) (t : TypeId) : Traced (Option FieldId) := do
  let e ← type p t
  if !e.isEnum || e.isAnonymous then return none
  else
    following (← staticInitializer? p t) fun initializer => do
      (← method p initializer).statements.findSomeM? fun
        | .staticFieldAssignment target (.newArray ..) =>
          guarded (target.owner = e.name) do
            following (← fieldNamed? p t target.name) fun f => do
              let g ← field p f
              guarded (g.isStatic && g.descriptor.toList.head? == some '[') (pure f)
        | _ => pure none

def bridgeTarget? (p : Program) (t : TypeId) (bridge : MethodId) : Traced (Option MethodId) := do
  let m ← method p bridge
  if !m.isSynthetic || m.name.utf8ByteSize ≤ 2 then return none
  else
    match Program.forwardedCall? m with
    | some (.instanceInvoke target _ _) => do
      guarded (target.owner = (← type p t).name) do
        following (← methodNamed? p t target.name target.descriptor) fun found => do
          guarded (!(← method p found).isStatic) (pure found)
    | _ => return none

def matchBridges : Traced (List Action) := do
  let p := c.new.program
  p.typeIds.flatMapM fun t => do
    let owner := (← type p t).name
    let constants ← (← constantsField? p t).toList.mapM fun f => do
      return .confirmField (.synthetic ⟨some owner, "$VALUES", some (← field p f).descriptor⟩) f
    let bridges ← (← instanceMethods p t).filterMapM fun bridge => do
      following (← bridgeTarget? p t bridge) fun m => do
        return some (.confirmMethod (.synthetic
          ⟨some owner, (← method p bridge).name, some (← method p m).descriptor⟩) m)
    return constants ++ bridges

/-! ## Enums and initializers -/

def namedEnums (p : Program) : Traced (List TypeId) :=
  filter (fun t => do
    let e ← type p t
    return e.isEnum && !e.isAnonymous && !e.enumConstants.isEmpty) p.typeIds

def matchEnums : Traced (List Ballot) := do
  (← namedEnums c.new.program).flatMapM fun n => do
    let new ← type c.new.program n
    (← namedEnums c.old.program).filterMapM fun o => do
      let old ← type c.old.program o
      return if old.isInner = new.isInner && extendsEnum old new then some (.type o n) else none

def linkInitializers : Traced (List Action) :=
  l.types.pairs.filterMapM fun (o, n) => do
    following (← staticInitializer? c.old.program o) fun old => do
      return (← staticInitializer? c.new.program n).map fun new => .confirmMethod (.real old) new

/-! ## Nested types -/

def bestEnum (new : Program) (old : TypeEntry) (best : Option TypeId) (shared : Nat) :
    List TypeId → Traced (Option TypeId)
  | [] => pure best
  | n :: rest => do
    let e ← type new n
    if !e.isEnum then bestEnum new old best shared rest
    else
      let overlap := sharedConstants old e
      if shared < overlap then bestEnum new old (some n) overlap rest
      else if overlap = shared then bestEnum new old none shared rest
      else bestEnum new old best shared rest

/-- The anonymous ones of some types, and the named ones. -/
def byNaming (p : Program) (ts : List TypeId) : Traced (List TypeId × List TypeId) := do
  return (← filter (fun t => do return (← type p t).isAnonymous) ts,
    ← filter (fun t => do return !(← type p t).isAnonymous) ts)

/-- Pair the enums among the first of two lists with the best ones in the second. -/
def pairEnums (olds news : List TypeId) : Traced (List (TypeId × TypeId)) :=
  olds.filterMapM fun o => do
    let e ← type c.old.program o
    if !e.isEnum || (l.types.target? (.real o)).isSome then return none
    else return (← bestEnum c.new.program e none 0 news).map fun n => (o, n)

/-- Pair the named ones of two lists of nested types. -/
def pairNamed (olds news : List TypeId) : Traced (List (TypeId × TypeId)) :=
  match olds, news with
  | [o], [n] => pure [(o, n)]
  | _, _ => pairEnums c l olds news

def pairNested (olds news : List TypeId) : Traced (List (TypeId × TypeId)) := do
  let (oldAnonymous, oldNamed) ← byNaming c.old.program olds
  let (newAnonymous, newNamed) ← byNaming c.new.program news
  let anonymous := match oldAnonymous, newAnonymous with
    | [o], [n] => [(o, n)]
    | _, _ => []
  return anonymous ++ (← pairNamed c l oldNamed newNamed)

def matchNested : Traced (List Ballot) :=
  l.types.pairs.flatMapM fun (o, n) => do
    let around := match ← outerType? c.old.program o, ← outerType? c.new.program n with
      | some oo, some nn => if (l.types.target? (.real oo)).isNone then [(oo, nn)] else []
      | _, _ => []
    let nested ← pairNested c l (← nestedIn c.old.program o) (← nestedIn c.new.program n)
    return (around ++ nested).map fun (o, n) => .type o n

/-! ## Overrides -/

def overrideBallots (group : OverrideGroup) (new : MethodId) : Traced (List Ballot) :=
  match c.new.groups.group? new with
  | none => pure []
  | some group' =>
    group.members.filterMapM fun sibling =>
      if l.methods.isConfirmed (.real sibling) then pure none
      else do
        following (l.types.target? (.real (← method c.old.program sibling).owner)) fun owner => do
          return (← overrideOn? c.new.program group' owner).map fun candidate =>
            .method sibling candidate

def overridesFrom (met : List MethodId) : List (MethodId × MethodId) → Traced (List Ballot)
  | [] => pure []
  | (o, n) :: rest =>
    match c.old.groups.group? o with
    | none => overridesFrom met rest
    | some group =>
      if group.members.length ≤ 1 || met.contains group.archetype then overridesFrom met rest
      else do
        return (← overrideBallots c l group n) ++ (← overridesFrom (group.archetype :: met) rest)

def matchOverrides : Traced (List Ballot) := overridesFrom c l [] l.methods.pairs

/-! ## Values -/

@[simp]
theorem value_typeLiterals (p : Program) : (typeLiterals p).value = p.typeLiterals := by
  simp [typeLiterals, Program.typeLiterals, literalsOf, Program.literalsOf]

@[simp]
theorem value_methodLiterals (p : Program) (t : TypeId) :
    (methodLiterals p t).value = p.methodLiterals t := by
  simp [methodLiterals, Program.methodLiterals, literalsOf, Program.literalsOf]

@[simp]
theorem value_matchLiterals : (matchLiterals c).value = Namesake.matchLiterals c := by
  simp [matchLiterals, Namesake.matchLiterals, literalPairs, Namesake.literalPairs]

@[simp]
theorem value_constantsField? (p : Program) (t : TypeId) :
    (constantsField? p t).value = p.constantsField? t := by
  rw [constantsField?, Program.constantsField?, value_bind, value_type]
  split_ifs with other
  · rfl
  rw [value_bind, value_following, value_staticInitializer?]
  refine Option.bind_congr fun initializer _ => ?_
  rw [value_bind, value_findSomeM?, value_method]
  congr 1
  funext statement
  split
  · simp only [value_bind, value_following, value_guarded, value_fieldNamed?]
    rfl
  · simp

@[simp]
theorem value_bridgeTarget? (p : Program) (t : TypeId) (bridge : MethodId) :
    (bridgeTarget? p t bridge).value = p.bridgeTarget? t bridge := by
  rw [bridgeTarget?, Program.bridgeTarget?, value_bind, value_method]
  split_ifs with other
  · rfl
  cases Program.forwardedCall? (p.method bridge) with
  | none => rfl
  | some call =>
      cases call with
      | instanceInvoke target callee args =>
          simp only [value_bind, value_following, value_guarded, value_methodNamed?]
          rfl
      | _ => rfl

@[simp]
theorem value_matchBridges : (matchBridges c).value = Namesake.matchBridges c := by
  simp [matchBridges, Namesake.matchBridges, Option.map_eq_bind]

@[simp]
theorem value_namedEnums (p : Program) : (namedEnums p).value = p.namedEnums := by
  simp [namedEnums, Program.namedEnums]

@[simp]
theorem value_matchEnums : (matchEnums c).value = Namesake.matchEnums c := by
  simp only [matchEnums, value_flatMapM, value_filterMapM, value_bind, value_pure, value_type,
    value_namedEnums]
  rfl

@[simp]
theorem value_linkInitializers : (linkInitializers c l).value = Namesake.linkInitializers c l := by
  simp [linkInitializers, Namesake.linkInitializers, Option.map_eq_bind]

@[simp]
theorem value_bestEnum (new : Program) (old : TypeEntry) (best : Option TypeId) (shared : Nat)
    (ts : List TypeId) :
    (bestEnum new old best shared ts).value = Namesake.bestEnum new old best shared ts := by
  induction ts generalizing best shared with
  | nil => rfl
  | cons n rest ih =>
      rw [bestEnum, value_bind, value_type, Namesake.bestEnum]
      dsimp only
      split_ifs <;> exact ih _ _

@[simp]
theorem value_byNaming (p : Program) (ts : List TypeId) :
    (byNaming p ts).value = ts.partition fun t => (p.type t).isAnonymous := by
  rw [List.partition_eq_filter_filter]
  simp [byNaming, Function.comp_def]

theorem value_pairEnums (olds news : List TypeId) :
    (pairEnums c l olds news).value = olds.filterMap fun o =>
      if !(c.old.program.type o).isEnum || (l.types.target? (.real o)).isSome then none
      else (Namesake.bestEnum c.new.program (c.old.program.type o) none 0 news).map fun n =>
        (o, n) := by
  rw [pairEnums, value_filterMapM]
  refine List.filterMap_congr fun o _ => ?_
  rw [value_bind, value_type]
  split_ifs with passed
  · rfl
  · simp

@[simp]
theorem value_pairNested (olds news : List TypeId) :
    (pairNested c l olds news).value = Namesake.pairNested c l olds news := by
  rw [pairNested, Namesake.pairNested]
  simp only [value_bind, value_byNaming, value_pure]
  refine congrArg _ ?_
  generalize (olds.partition _).2 = os
  generalize (news.partition _).2 = ns
  -- enums are paired unless there is one named type on either side
  rcases os with _ | ⟨o, _ | ⟨o', os⟩⟩
  · exact value_pairEnums ..
  · rcases ns with _ | ⟨n, _ | ⟨n', ns⟩⟩
    · exact value_pairEnums ..
    · rfl
    · exact value_pairEnums ..
  · exact value_pairEnums ..

@[simp]
theorem value_matchNested : (matchNested c l).value = Namesake.matchNested c l := by
  simp only [matchNested, value_flatMapM, value_bind, value_pure, value_outerType?,
    value_nestedIn, value_pairNested]
  rfl

@[simp]
theorem value_overrideBallots (group : OverrideGroup) (new : MethodId) :
    (overrideBallots c l group new).value = Namesake.overrideBallots c l group new := by
  rw [overrideBallots, Namesake.overrideBallots]
  cases c.new.groups.group? new with
  | none => rfl
  | some group' =>
      rw [value_filterMapM]
      refine List.filterMap_congr fun sibling _ => ?_
      split_ifs with confirmed
      · rfl
      · simp [Option.map_eq_bind]

@[simp]
theorem value_overridesFrom (met : List MethodId) (pairs : List (MethodId × MethodId)) :
    (overridesFrom c l met pairs).value = Namesake.overridesFrom c l met pairs := by
  induction pairs generalizing met with
  | nil => rfl
  | cons pair rest ih =>
      rw [overridesFrom, Namesake.overridesFrom]
      cases c.old.groups.group? pair.1 with
      | none => exact ih met
      | some group =>
          dsimp only
          split_ifs with passed
          · exact ih met
          · simp [ih]

@[simp]
theorem value_matchOverrides : (matchOverrides c l).value = Namesake.matchOverrides c l :=
  value_overridesFrom c l [] l.methods.pairs

/-! ## In range -/

section

variable {c : Context} (coherent : c.Coherent) {l : Ledger}
  (lawful : l.Lawful c (.inside coherent.new))

/-! ### Text constants -/

theorem inRange_typeLiterals {p : Program} (coherent : p.Coherent) :
    (typeLiterals p).InRange := by
  simp only [typeLiterals, literalsOf, inRange_bind, inRange_flatMapM, inRange_pure, and_true,
    inRange_type, inRange_method, value_type]
  intro t listed
  exact ⟨Program.mem_typeIds.mp listed, fun m listed => (coherent.methodListed listed).1⟩

theorem inRange_methodLiterals {p : Program} (coherent : p.Coherent) {t : TypeId}
    (inside : p.HasType t) : (methodLiterals p t).InRange := by
  simp only [methodLiterals, literalsOf, inRange_bind, inRange_flatMapM, inRange_pure, and_true,
    inRange_type, inRange_method, value_type]
  exact ⟨inside, fun m listed => (coherent.methodListed listed).1⟩

include coherent in
theorem inRange_matchLiterals : (matchLiterals c).InRange := by
  simp [matchLiterals, literalPairs, inRange_typeLiterals coherent.old,
    inRange_typeLiterals coherent.new]

/-! ### Bridges -/

theorem inRange_constantsField? {p : Program} (coherent : p.Coherent) {t : TypeId}
    (inside : p.HasType t) : (constantsField? p t).InRange := by
  rw [constantsField?, inRange_bind]
  refine ⟨inRange_type.mpr inside, ?_⟩
  split_ifs with other
  · exact inRange_pure none
  rw [inRange_bind, value_staticInitializer?, inRange_following]
  refine ⟨inRange_staticInitializer? coherent inside, fun initializer found => ?_⟩
  have declared := coherent.methodListed (Program.mem_of_staticInitializer? found).1
  rw [inRange_bind, inRange_method]
  refine ⟨declared.1, inRange_findSomeM? fun statement _ => ?_⟩
  split
  · rw [inRange_guarded, inRange_bind, value_fieldNamed?, inRange_following]
    refine fun _ => ⟨inRange_fieldNamed? coherent inside _, fun f found => ?_⟩
    rw [inRange_bind, inRange_guarded, inRange_field]
    exact ⟨coherent.hasField_of_fieldNamed? found, fun _ => inRange_pure _⟩
  · exact inRange_pure none

theorem inRange_bridgeTarget? {p : Program} (coherent : p.Coherent) {t : TypeId}
    (inside : p.HasType t) {bridge : MethodId} (declared : p.HasMethod bridge) :
    (bridgeTarget? p t bridge).InRange := by
  rw [bridgeTarget?, inRange_bind]
  refine ⟨inRange_method.mpr declared, ?_⟩
  split_ifs with other
  · exact inRange_pure none
  split
  · rw [inRange_bind, inRange_guarded, inRange_bind, value_methodNamed?, inRange_following]
    refine ⟨inRange_type.mpr inside, fun _ => ⟨inRange_methodNamed? coherent inside _ _, ?_⟩⟩
    intro found named
    rw [inRange_bind, inRange_guarded, inRange_method]
    exact ⟨coherent.hasMethod_of_methodNamed? named, fun _ => inRange_pure _⟩
  · exact inRange_pure none

include coherent in
theorem inRange_matchBridges : (matchBridges c).InRange := by
  rw [matchBridges, inRange_flatMapM]
  intro t listed
  have inside := Program.mem_typeIds.mp listed
  simp only [inRange_bind, inRange_mapM, inRange_filterMapM, inRange_following, inRange_pure,
    and_true, inRange_type, inRange_field, inRange_method, value_constantsField?,
    value_instanceMethods, value_bridgeTarget?]
  refine ⟨inside, inRange_constantsField? coherent.new inside, ?_,
    inRange_instanceMethods coherent.new inside, fun bridge listed => ?_⟩
  · exact fun f found => coherent.new.hasField_of_constantsField? (Option.mem_toList.mp found)
  · have declared := coherent.new.hasMethod_of_mem_instanceMethods listed
    refine ⟨inRange_bridgeTarget? coherent.new inside declared, fun m leads => ⟨declared, ?_⟩⟩
    exact coherent.new.hasMethod_of_bridgeTarget? leads

/-! ### Enums and initializers -/

theorem inRange_namedEnums (p : Program) : (namedEnums p).InRange := by
  simp [namedEnums, Program.mem_typeIds]

theorem inRange_matchEnums : (matchEnums c).InRange := by
  simp only [matchEnums, inRange_bind, inRange_flatMapM, inRange_filterMapM, inRange_type,
    inRange_pure, and_true, value_namedEnums, inRange_namedEnums, true_and]
  exact fun n named => ⟨Program.mem_of_namedEnums named, fun o => Program.mem_of_namedEnums⟩

include lawful in
theorem inRange_linkInitializers : (linkInitializers c l).InRange := by
  rw [linkInitializers, inRange_filterMapM]
  rintro ⟨o, n⟩ pair
  obtain ⟨inOld, inNew⟩ := lawful.hasType_of_target? (lawful.types.sound.mem_pairs.mp pair)
  simp [inRange_staticInitializer? coherent.old inOld,
    inRange_staticInitializer? coherent.new inNew]

/-! ### Nested types -/

theorem inRange_bestEnum {new : Program} {ts : List TypeId} (inside : ∀ t ∈ ts, new.HasType t)
    (old : TypeEntry) (best : Option TypeId) (shared : Nat) :
    (bestEnum new old best shared ts).InRange := by
  induction ts generalizing best shared with
  | nil => exact inRange_pure best
  | cons n rest ih =>
      rw [List.forall_mem_cons] at inside
      rw [bestEnum, inRange_bind]
      refine ⟨inRange_type.mpr inside.1, ?_⟩
      dsimp only
      split_ifs <;> exact ih inside.2 _ _

theorem inRange_byNaming {p : Program} {ts : List TypeId} (inside : ∀ t ∈ ts, p.HasType t) :
    (byNaming p ts).InRange := by
  simpa [byNaming] using inside

/-- Enums of the two programs are told apart by their constants. -/
theorem inRange_pairEnums {olds news : List TypeId} (inOld : ∀ t ∈ olds, c.old.program.HasType t)
    (inNew : ∀ t ∈ news, c.new.program.HasType t) : (pairEnums c l olds news).InRange := by
  rw [pairEnums, inRange_filterMapM]
  intro o listed
  rw [inRange_bind]
  refine ⟨inRange_type.mpr (inOld o listed), ?_⟩
  split_ifs
  · exact inRange_pure none
  · simpa using inRange_bestEnum inNew _ _ _

theorem inRange_pairNested {olds news : List TypeId}
    (inOld : ∀ t ∈ olds, c.old.program.HasType t)
    (inNew : ∀ t ∈ news, c.new.program.HasType t) : (pairNested c l olds news).InRange := by
  simp only [pairNested, inRange_bind, inRange_pure, and_true, value_byNaming,
    List.partition_eq_filter_filter]
  refine ⟨inRange_byNaming inOld, inRange_byNaming inNew, ?_⟩
  unfold pairNamed
  split
  · exact inRange_pure _
  · exact inRange_pairEnums (fun t listed => inOld t (List.mem_filter.mp listed).1)
      fun t listed => inNew t (List.mem_filter.mp listed).1

include lawful in
theorem inRange_matchNested : (matchNested c l).InRange := by
  rw [matchNested, inRange_flatMapM]
  rintro ⟨o, n⟩ pair
  obtain ⟨inOld, inNew⟩ := lawful.hasType_of_target? (lawful.types.sound.mem_pairs.mp pair)
  simp only [inRange_bind, inRange_outerType?, value_nestedIn, inRange_nestedIn, inRange_pure,
    and_true, true_and]
  exact ⟨inOld, inNew, inRange_pairNested (fun _ => Program.hasType_of_mem_nestedIn)
    (fun _ => Program.hasType_of_mem_nestedIn)⟩

/-! ### Overrides -/

include coherent

theorem inRange_overrideBallots {old new : MethodId} {group : OverrideGroup}
    (found : c.old.groups.group? old = some group) :
    (overrideBallots c l group new).InRange := by
  rw [c.old.groups_eq] at found
  unfold overrideBallots
  split
  · exact inRange_pure []
  next group' found' =>
  rw [c.new.groups_eq] at found'
  rw [inRange_filterMapM]
  intro sibling listed
  split_ifs
  · exact inRange_pure none
  · rw [inRange_bind, inRange_following, inRange_method]
    refine ⟨OverrideGroups.hasMethod_of_mem_group coherent.old found listed, fun owner _ => ?_⟩
    simpa using inRange_overrideOn? coherent.new found'

theorem inRange_overridesFrom (met : List MethodId) (pairs : List (MethodId × MethodId)) :
    (overridesFrom c l met pairs).InRange := by
  induction pairs generalizing met with
  | nil => exact inRange_pure []
  | cons pair rest ih =>
      unfold overridesFrom
      split
      · exact ih met
      next group found =>
      split_ifs
      · exact ih met
      · simp [inRange_overrideBallots coherent found, ih]

end

end Namesake.Traced
