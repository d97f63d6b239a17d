import Namesake.Proofs.Chronicle
import Namesake.Proofs.SessionCalls
import Namesake.Proofs.TracedWork

/-! # What a merge is looked up for

A traced merge works out what is needed about both programs, seeds the ledger, runs the usual
pipeline and carries the names over. It gives what the plain merge gives (`Traced.value_merge`), and
between coherent programs it looks up nothing that is out of range (`Traced.inRange_merge`).
-/

namespace Namesake

/-- A step of a pipeline that notes what it looks up. -/
inductive TracedStep where
  | operation (work : Context → TracedWork State Unit)
  | jump (target : Nat) (predicate : Predicate)

/-- The step itself. -/
def TracedStep.plain : TracedStep → Step
  | operation work => .operation fun c => (work c).plain
  | jump target predicate => .jump target predicate

namespace TracedStep

theorem operation_of_plain {step : TracedStep} {work : Context → Work Unit}
    (same : step.plain = .operation work) :
    ∃ work', step = operation work' ∧ (fun c => (work' c).plain) = work := by
  cases step with
  | operation work' => exact ⟨work', rfl, Step.operation.inj same⟩
  | jump => cases same

theorem eq_jump_of_plain {step : TracedStep} {target : Nat} {predicate : Predicate}
    (same : step.plain = .jump target predicate) : step = jump target predicate := by
  cases step with
  | operation => cases same
  | jump target' predicate' =>
      cases same
      rfl

end TracedStep

namespace Traced

open TracedWork (of quiet)

/-! ## Pipelines -/

def defaultSteps : List TracedStep :=
  (Pass.all.map fun pass => .operation fun c => run c pass) ++ [.jump 3 Predicate.changesSinceReset]

def runFrom (c : Context) (steps : List TracedStep) (next cycle : Nat) (s : State)
    (log : List Execution) : Traced Outcome :=
  if _inside : next < steps.length then
    match steps[next] with
    | .operation work => do
      match ← work c s with
      | .ok () s' => runFrom c steps (next + 1) cycle s' (⟨next, cycle, s'⟩ :: log)
      | .error e s' => return ⟨cycle, s', some e, ⟨next, cycle, s'⟩ :: log⟩
    | .jump target predicate =>
      let (holds, s') := predicate s
      if _taken : holds = true ∧ cycle < c.settings.maxCycles then
        runFrom c steps target (cycle + 1) s' log
      else runFrom c steps (next + 1) cycle s' log
  else pure ⟨cycle, s, none, log⟩
termination_by (c.settings.maxCycles - cycle, steps.length - next)
decreasing_by
  · exact Prod.Lex.right _ (by omega)
  · exact Prod.Lex.left _ _ (by omega)
  · exact Prod.Lex.right _ (by omega)

/-! ## Carrying the names over -/

section

variable (c : Context) (l : Ledger)

/-- The plain name a type is carried over with. -/
def plainTypeName? : Handle TypeId → Traced (Option String)
  | .real o => do return c.names.mapType? (← type c.old.program o).name
  | .synthetic s => pure (some s.name)

/-- The plain name a field is carried over with, where its new owner is named or not. -/
def plainFieldName? (ownerNamed : Bool) : Handle FieldId → Traced (Option String)
  | .real o => do
    return c.names.mapField? (← fieldOwnerName c.old.program o) (← field c.old.program o).name
  | .synthetic s => pure (if ownerNamed then some s.name else none)

/-- The plain name a method is carried over with, where its new owner is named or not. -/
def plainMethodName? (ownerNamed : Bool) : Handle MethodId → Traced (Option String)
  | .real o => do
    let e ← method c.old.program o
    return c.names.mapMethod? (← methodOwnerName c.old.program o) e.name e.descriptor
  | .synthetic s => pure (if ownerNamed then some s.name else none)

def carriedTypes : Traced (List (String × String)) :=
  l.types.confirmed.values.filterMapM fun e =>
    following e.target fun new => do
      following (← plainTypeName? c e.old) fun plain => do
        return some ((← type c.new.program new).name, plain)

def carriedFields (isNamed : String → Bool) : Traced (List (String × String × String)) :=
  l.fields.confirmed.values.filterMapM fun e =>
    following e.target fun f => do
      let owner ← fieldOwnerName c.new.program f
      following (← plainFieldName? c (isNamed owner) e.old) fun plain => do
        return some (owner, (← field c.new.program f).name, plain)

def carriedMethods (isNamed : String → Bool) :
    Traced (List (String × String × String × String)) :=
  l.methods.confirmed.values.filterMapM fun e =>
    following e.target fun m => do
      let owner ← methodOwnerName c.new.program m
      following (← plainMethodName? c (isNamed owner) e.old) fun plain => do
        let new ← method c.new.program m
        return some (owner, new.name, new.descriptor, plain)

def project (names : MappingSet) : Traced MappingSet := do
  let named := (← carriedTypes c l).foldl (fun s (name, plain) => s.addType name plain) names
  let named := if c.settings.nameAnonymousClasses
    then c.new.program.anonymousNames.foldl nameAnonymous named
    else named
  let isNamed (name : String) := (named.mapType? name).isSome
  let named := (← carriedFields c l isNamed).foldl
    (fun s (owner, name, plain) => s.addField owner name plain) named
  return (← carriedMethods c l isNamed).foldl
    (fun s (owner, name, descriptor, plain) => s.addMethod owner name descriptor plain) named

end

/-! ## Sessions -/

/-- Carry out work in a session. -/
def inSession {α : Type} (work : Context → TracedWork State α) : TracedWork Session α := fun s => do
  return match ← work s.context s.state with
    | .ok a state => .ok a { s with state }
    | .error e state => .error e { s with state }

def seed : TracedWork Session Unit := do
  let s ← get
  if s.seeded then return
  set { s with seeded := true }
  inSession fun c => performAll c (Session.seedActions c s.output)
  modify fun s => { s with state := s.state.takeChanges.2 }

/-- Merge in a session, by given steps. -/
def mergeBy (steps : List TracedStep) : TracedWork Session (List Execution) := do
  seed
  let s ← get
  let outcome ← of (runFrom s.context steps 0 s.cycle s.state [])
  set { s with cycle := outcome.cycle, state := outcome.state }
  match outcome.failure with
  | some e => quiet (throw e)
  | none =>
    let s ← get
    let output ← of (project s.context s.state.ledger s.output)
    set { s with output }
    return outcome.log

/-- Work out what is needed about a program. -/
def build (p : Program) : Traced Build where
  value := ⟨p, (groups p).value, (references p).value, value_groups p, value_references p⟩
  lookups := (groups p).lookups ++ (references p).lookups

/-- A session that is about to merge with the usual pipeline. -/
def start (old : Program) (names : MappingSet) (new : Program) (known : MappingSet)
    (settings : MergeSettings) : Traced Session := do
  let context := ⟨← build old, ← build new, names.excludingPackages settings.excludedPackages,
    settings⟩
  return {
    context
    state := .initial
    output := known
    steps := Namesake.defaultSteps
    cycle := 0
    seeded := false }

/-- Merge an old program with its plain names into a new one, with the usual pipeline. -/
def merge (old : Program) (names : MappingSet) (new : Program) (known : MappingSet)
    (settings : MergeSettings) : Traced (EStateM.Result MergeError Session (List Execution)) := do
  mergeBy defaultSteps (← start old names new known settings)

theorem pass_of_operation {next : Nat} {work : Context → TracedWork State Unit}
    (here : defaultSteps[next]? = some (.operation work)) :
    ∃ pass, work = fun c => run c pass := by
  obtain passes | jump := List.mem_append.mp (List.mem_of_getElem? here)
  · obtain ⟨pass, -, same⟩ := List.mem_map.mp passes
    exact ⟨pass, (TracedStep.operation.inj same).symm⟩
  · cases List.mem_singleton.mp jump

/-! ## Values -/

theorem plain_defaultSteps : defaultSteps.map TracedStep.plain = Namesake.defaultSteps := by
  simp [defaultSteps, Namesake.defaultSteps, TracedStep.plain, Step.pass, Function.comp_def]

theorem value_runFrom (c : Context) (steps : List TracedStep) (next cycle : Nat) (s : State)
    (log : List Execution) :
    (runFrom c steps next cycle s log).value =
      Namesake.runFrom c (steps.map TracedStep.plain) next cycle s log := by
  fun_induction Namesake.runFrom c (steps.map TracedStep.plain) next cycle s log with
  | case1 next cycle s log inside work here s' done ih =>
      rw [List.length_map] at inside
      rw [List.getElem_map] at here
      rw [runFrom, dif_pos inside]
      obtain ⟨work', traced, rfl⟩ := TracedStep.operation_of_plain here
      have done : (work' c s).value = .ok () s' := done
      rw [traced, value_bind, done, ih]
  | case2 next cycle s log inside work here e s' failed =>
      rw [List.length_map] at inside
      rw [List.getElem_map] at here
      rw [runFrom, dif_pos inside]
      obtain ⟨work', traced, rfl⟩ := TracedStep.operation_of_plain here
      have failed : (work' c s).value = .error e s' := failed
      rw [traced, value_bind, failed, value_pure]
  | case3 next cycle s log inside target predicate here wanted s' look taken ih =>
      rw [List.length_map] at inside
      rw [List.getElem_map] at here
      rw [runFrom, dif_pos inside, TracedStep.eq_jump_of_plain here]
      dsimp only
      rw [look, dif_pos taken, ih]
  | case4 next cycle s log inside target predicate here wanted s' look refused ih =>
      rw [List.length_map] at inside
      rw [List.getElem_map] at here
      rw [runFrom, dif_pos inside, TracedStep.eq_jump_of_plain here]
      dsimp only
      rw [look, dif_neg refused, ih]
  | case5 next cycle s log outside =>
      rw [List.length_map] at outside
      rw [runFrom, dif_neg outside, value_pure]

@[simp]
theorem value_carriedTypes (c : Context) (l : Ledger) :
    (carriedTypes c l).value = Namesake.carriedTypes c l := by
  rw [carriedTypes, Namesake.carriedTypes, value_filterMapM]
  refine List.filterMap_congr fun e _ => ?_
  rw [value_following]
  refine Option.bind_congr fun new _ => ?_
  cases e.old <;> simp [plainTypeName?]

@[simp]
theorem value_carriedFields (c : Context) (l : Ledger) (isNamed : String → Bool) :
    (carriedFields c l isNamed).value = Namesake.carriedFields c l isNamed := by
  rw [carriedFields, Namesake.carriedFields, value_filterMapM]
  refine List.filterMap_congr fun e _ => ?_
  rw [value_following]
  refine Option.bind_congr fun f _ => ?_
  cases e.old with
  | real o => simp [plainFieldName?]
  | synthetic s =>
      cases named : isNamed (c.new.program.fieldOwnerName f) <;> simp [plainFieldName?, named]

@[simp]
theorem value_carriedMethods (c : Context) (l : Ledger) (isNamed : String → Bool) :
    (carriedMethods c l isNamed).value = Namesake.carriedMethods c l isNamed := by
  rw [carriedMethods, Namesake.carriedMethods, value_filterMapM]
  refine List.filterMap_congr fun e _ => ?_
  rw [value_following]
  refine Option.bind_congr fun m _ => ?_
  cases e.old with
  | real o => simp [plainMethodName?]
  | synthetic s =>
      cases named : isNamed (c.new.program.methodOwnerName m) <;> simp [plainMethodName?, named]

@[simp]
theorem value_project (c : Context) (l : Ledger) (names : MappingSet) :
    (project c l names).value = Namesake.project c l names := by
  simp [project, Namesake.project]

@[simp]
theorem plain_inSession {α : Type} (work : Context → TracedWork State α) :
    (inSession work).plain = Session.perform fun c => (work c).plain := by
  funext s
  rw [TracedWork.plain, inSession, Session.perform, value_bind]
  rfl

@[simp]
theorem plain_seed : seed.plain = Session.seed := by
  rw [seed, Session.seed, TracedWork.plain_bind, TracedWork.plain_get]
  refine bind_congr fun s => ?_
  split_ifs
  · rfl
  · simp

theorem plain_mergeBy {steps : List TracedStep} {s : Session}
    (given : s.steps = steps.map TracedStep.plain) : (mergeBy steps).plain s = s.merge := by
  have seeded : s.seed = .ok () (s.afterCall .seed) := by
    simp only [Session.afterCall, Session.Call.make, Session.seed_eq]
  have kept : (s.afterCall .seed).steps = s.steps := Session.steps_afterCall s .seed
  rw [Session.merge_eq_run, mergeBy, TracedWork.plain_bind, plain_seed, bind_of_ok seeded]
  generalize s.afterCall .seed = begun at kept
  rw [TracedWork.plain_bind, TracedWork.plain_get, get_bind, TracedWork.plain_bind,
    TracedWork.plain_of, value_runFrom, ← given, ← kept, pure_bind, TracedWork.plain_bind]
  dsimp only [runSteps]
  cases (Namesake.runFrom begun.context begun.steps 0 begun.cycle begun.state []).failure with
  | some e => rfl
  | none =>
      simp only [TracedWork.plain_bind, TracedWork.plain_get, TracedWork.plain_of,
        TracedWork.plain_set, TracedWork.plain_pure, value_project, pure_bind]
      rfl

theorem value_build (p : Program) : (build p).value = .of p := by
  simp [build, Build.of]

theorem value_start (old : Program) (names : MappingSet) (new : Program) (known : MappingSet)
    (settings : MergeSettings) :
    (start old names new known settings).value =
      (Session.start old names new known settings).withDefaultSteps := by
  simp [start, value_build]
  rfl

/-- **A traced merge merges.** -/
theorem value_merge (old : Program) (names : MappingSet) (new : Program) (known : MappingSet)
    (settings : MergeSettings) :
    (merge old names new known settings).value =
      (Session.start old names new known settings).withDefaultSteps.merge := by
  rw [merge, value_bind, value_start]
  exact plain_mergeBy plain_defaultSteps.symm

/-! ## In range -/

section

variable {c : Context} (coherent : c.Coherent)

section

variable {l : Ledger} (lawful : l.Lawful c (.inside coherent.new))

include lawful

theorem inRange_carriedTypes : (carriedTypes c l).InRange := by
  rw [carriedTypes, inRange_filterMapM]
  intro e member
  obtain ⟨old, new⟩ := lawful.hasType_of_mem_confirmed member
  rw [inRange_following]
  intro t target
  rw [inRange_bind, inRange_following]
  constructor
  · cases about : e.old with
    | real o => simpa [plainTypeName?] using old o about
    | synthetic s => exact inRange_pure _
  · exact fun plain _ => by simpa using new t target

theorem inRange_carriedFields (isNamed : String → Bool) :
    (carriedFields c l isNamed).InRange := by
  rw [carriedFields, inRange_filterMapM]
  intro e member
  obtain ⟨old, new⟩ := lawful.hasField_of_mem_confirmed member
  rw [inRange_following]
  intro f target
  rw [inRange_bind, inRange_bind, inRange_following]
  refine ⟨inRange_fieldOwnerName coherent.new (new f target), ?_, ?_⟩
  · cases about : e.old with
    | real o =>
        have inside := old o about
        simpa [plainFieldName?, inside] using inRange_fieldOwnerName coherent.old inside
    | synthetic s => exact inRange_pure _
  · exact fun plain _ => by simpa using new f target

theorem inRange_carriedMethods (isNamed : String → Bool) :
    (carriedMethods c l isNamed).InRange := by
  rw [carriedMethods, inRange_filterMapM]
  intro e member
  obtain ⟨old, new⟩ := lawful.hasMethod_of_mem_confirmed member
  rw [inRange_following]
  intro m target
  rw [inRange_bind, inRange_bind, inRange_following]
  refine ⟨inRange_methodOwnerName coherent.new (new m target), ?_, ?_⟩
  · cases about : e.old with
    | real o =>
        have inside := old o about
        simpa [plainMethodName?, inside] using inRange_methodOwnerName coherent.old inside
    | synthetic s => exact inRange_pure _
  · exact fun plain _ => by simpa using new m target

/-- **Names are carried over in range.** -/
theorem inRange_project (names : MappingSet) : (project c l names).InRange := by
  simp [project, inRange_carriedTypes coherent lawful, inRange_carriedFields coherent lawful,
    inRange_carriedMethods coherent lawful]

end

/-- A run stays in range if its operations do, wherever something holds that all steps keep. -/
theorem inRange_runFrom {steps : List TracedStep}
    {inv : Nat → Nat → State → List Execution → Prop}
    (upheld : Upheld c (steps.map TracedStep.plain) inv)
    (looked : ∀ {next cycle s log work}, steps[next]? = some (.operation work) →
      inv next cycle s log → (work c).InRangeFrom s)
    {next cycle : Nat} {s : State} {log : List Execution} (holds : inv next cycle s log) :
    (runFrom c steps next cycle s log).InRange := by
  fun_induction Namesake.runFrom c (steps.map TracedStep.plain) next cycle s log with
  | case1 next cycle s log inside work here s' done ih =>
      obtain ⟨s'', success, kept⟩ :=
        upheld.operation (List.getElem?_eq_some_iff.mpr ⟨inside, here⟩) holds
      rw [done] at success
      cases success
      rw [List.length_map] at inside
      rw [List.getElem_map] at here
      obtain ⟨work', traced, rfl⟩ := TracedStep.operation_of_plain here
      have done : (work' c s).value = .ok () s' := done
      rw [runFrom, dif_pos inside, traced, inRange_bind, done]
      exact ⟨looked (List.getElem?_eq_some_iff.mpr ⟨inside, traced⟩) holds, ih kept⟩
  | case2 next cycle s log inside work here e s' failed =>
      obtain ⟨s'', success, -⟩ :=
        upheld.operation (List.getElem?_eq_some_iff.mpr ⟨inside, here⟩) holds
      rw [failed] at success
      cases success
  | case3 next cycle s log inside target predicate here wanted s' look taken ih =>
      have kept := upheld.taken (List.getElem?_eq_some_iff.mpr ⟨inside, here⟩) holds
        (by rw [look]; exact taken.1) taken.2
      rw [look] at kept
      rw [List.length_map] at inside
      rw [List.getElem_map] at here
      rw [runFrom, dif_pos inside, TracedStep.eq_jump_of_plain here]
      dsimp only
      rw [look, dif_pos taken]
      exact ih kept
  | case4 next cycle s log inside target predicate here wanted s' look refused ih =>
      have kept := upheld.passed (List.getElem?_eq_some_iff.mpr ⟨inside, here⟩) holds
        (by rw [look]; exact refused)
      rw [look] at kept
      rw [List.length_map] at inside
      rw [List.getElem_map] at here
      rw [runFrom, dif_pos inside, TracedStep.eq_jump_of_plain here]
      dsimp only
      rw [look, dif_neg refused]
      exact ih kept
  | case5 next cycle s log outside =>
      rw [List.length_map] at outside
      rw [runFrom, dif_neg outside]
      exact inRange_pure _

/-- The usual pipeline stays in range from a lawful ledger on. -/
theorem inRange_runFrom_default {start : Ledger} (lawful : start.Lawful c (.inside coherent.new))
    {cycle : Nat} {s : State} (latest : s.ledger = start) :
    (runFrom c defaultSteps 0 cycle s []).InRange := by
  have upheld := upheld_chronicled coherent lawful
  rw [← plain_defaultSteps] at upheld
  refine inRange_runFrom upheld ?_ ⟨latest, .begun⟩
  intro next cycle s log work here chronicled
  obtain ⟨pass, rfl⟩ := pass_of_operation here
  have before := chronicled.chronicle.lawful coherent.old lawful
  rw [← chronicled.latest] at before
  exact inRangeFrom_run coherent before pass

end

section

variable {c : Context} (coherent : c.Coherent) {s : Session} (about : s.context = c)
  (lawful : s.state.ledger.Lawful c (.inside coherent.new))

include about lawful

theorem inRangeFrom_seed : seed.InRangeFrom s := by
  subst about
  rw [seed, TracedWork.inRangeFrom_get_bind]
  split_ifs
  · exact TracedWork.inRangeFrom_pure _ s
  rw [TracedWork.inRangeFrom_bind]
  refine ⟨TracedWork.inRangeFrom_quiet _ s, ?_⟩
  rintro _ s' ⟨⟩
  rw [TracedWork.inRangeFrom_bind]
  refine ⟨?_, fun _ s' _ => TracedWork.inRangeFrom_quiet _ s'⟩
  refine inRange_bind.mpr ⟨?_, inRange_pure _⟩
  exact inRangeFrom_performAll coherent lawful (Session.seedState_trail coherent lawful)

/-- A merge with the usual pipeline stays in range. -/
theorem inRangeFrom_mergeBy : (mergeBy defaultSteps).InRangeFrom s := by
  have formed : Session.Call.seed.IsWellFormed c (.inside coherent.new) := trivial
  obtain ⟨context, lawful', -⟩ := Session.lawful_afterCall coherent about lawful formed
  have seeded : s.seed = .ok () (s.afterCall .seed) := by
    simp only [Session.afterCall, Session.Call.make, Session.seed_eq]
  rw [mergeBy, TracedWork.inRangeFrom_bind]
  refine ⟨inRangeFrom_seed coherent about lawful, fun _ begun done => ?_⟩
  rw [plain_seed, seeded] at done
  cases done
  rw [TracedWork.inRangeFrom_get_bind, TracedWork.inRangeFrom_of_bind, context]
  refine ⟨inRange_runFrom_default coherent lawful' rfl, ?_⟩
  rw [TracedWork.inRangeFrom_bind]
  refine ⟨TracedWork.inRangeFrom_quiet _ _, ?_⟩
  rintro _ ran ⟨⟩
  rw [value_runFrom, plain_defaultSteps]
  obtain ⟨success, -, -, latest, chronicle⟩ := (upheld_chronicled coherent lawful').runFrom
    (⟨rfl, .begun⟩ : Chronicled c _ _ 0 (s.afterCall .seed).cycle (s.afterCall .seed).state [])
  rw [success, TracedWork.inRangeFrom_get_bind, TracedWork.inRangeFrom_of_bind]
  have lawful_end := chronicle.lawful coherent.old lawful'
  rw [← latest] at lawful_end
  refine ⟨?_, ?_⟩
  · exact inRange_project coherent lawful_end _
  · exact TracedWork.inRangeFrom_quiet _ _

end

theorem inRange_build {p : Program} (coherent : p.Coherent) : (build p).InRange :=
  List.forall_mem_append.mpr ⟨inRange_groups coherent, inRange_references coherent⟩

/-- **A merge looks up nothing that is out of range.** -/
theorem inRange_merge {old new : Program} (ofOld : old.Coherent) (ofNew : new.Coherent)
    (names known : MappingSet) (settings : MergeSettings) :
    (merge old names new known settings).InRange := by
  have coherent : (Context.of old names new settings).Coherent := ⟨ofOld, ofNew⟩
  rw [merge, inRange_bind, value_start]
  refine ⟨?_, inRangeFrom_mergeBy coherent rfl
    (Session.start_lawful old names new known settings (.inside coherent.new))⟩
  simp [start, inRange_build ofOld, inRange_build ofNew]

end Traced

end Namesake
