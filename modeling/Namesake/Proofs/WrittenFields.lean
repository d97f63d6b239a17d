import Namesake.Proofs.BuiltIndexes
import Namesake.Proofs.WalkedCode

/-! # Which assignments the reference index records

The statements of a body are those that stand in its blocks, at any depth
(`Body.mem_statements_iff`). The first and next steps of a counting loop stand in no block, so an
assignment made there is not among them. The methods that the index lists as writers of a field are
those with an assignment to it that is not inside such a step
(`ReferenceIndex.records_assignments`); an assignment in a step goes unrecorded
(`ReferenceIndex.step_assignment_missed`).
-/

namespace Namesake

/-! ## Inside the steps of loops -/

namespace CodeNode

/-- Some address on the way leads from a counting loop to its first or next step. -/
def EntersStep (n : CodeNode) (a : List Nat) : Prop :=
  ∃ above k loop step, above ++ [k] <+: a ∧ n.at? above = some (statement loop) ∧
    n.at? (above ++ [k]) = some (statement step) ∧ step ∈ loop.steps

variable {n part : CodeNode} {s t : Statement}

theorem not_entersStep_nil : ¬ n.EntersStep [] := by
  rintro ⟨above, k, -, -, leads, -⟩
  exact List.append_ne_nil_of_right_ne_nil above (List.cons_ne_nil k []) (List.prefix_nil.mp leads)

theorem entersStep_cons {k : Nat} (here : n.parts[k]? = some part) (a : List Nat) :
    n.EntersStep (k :: a) ↔
      (∃ loop step, n = statement loop ∧ part = statement step ∧ step ∈ loop.steps) ∨
      part.EntersStep a := by
  have below (b : List Nat) : n.at? (k :: b) = part.at? b := by
    rw [at?, here]
    rfl
  constructor
  · rintro ⟨_ | ⟨j, above⟩, last, loop, step, leads, looped, stepped, taken⟩
    · obtain ⟨rfl, -⟩ := List.cons_prefix_cons.mp leads
      rw [List.nil_append, below] at stepped
      exact .inl ⟨loop, step, Option.some.inj looped, Option.some.inj stepped, taken⟩
    · rw [List.cons_append] at leads
      obtain ⟨rfl, inner⟩ := List.cons_prefix_cons.mp leads
      rw [below] at looped
      rw [List.cons_append, below] at stepped
      exact .inr ⟨above, last, loop, step, inner, looped, stepped, taken⟩
  · rintro (⟨loop, step, rfl, rfl, taken⟩ |
      ⟨above, last, loop, step, leads, looped, stepped, taken⟩)
    · exact ⟨[], k, loop, step, List.cons_prefix_cons.mpr ⟨rfl, List.nil_prefix⟩, rfl, below [],
        taken⟩
    · refine ⟨k :: above, last, loop, step, List.cons_prefix_cons.mpr ⟨rfl, leads⟩, ?_, ?_, taken⟩
      · rw [below, looped]
      · rw [List.cons_append, below, stepped]

/-- A statement stands somewhere in a node, and in no step of a loop there. -/
def Holds (n : CodeNode) (s : Statement) : Prop :=
  ∃ a, n.at? a = some (statement s) ∧ ¬ n.EntersStep a

theorem holds_iff :
    n.Holds s ↔ n = statement s ∨
      ∃ part ∈ n.parts,
        (¬ ∃ loop step, n = statement loop ∧ part = statement step ∧ step ∈ loop.steps) ∧
        part.Holds s := by
  constructor
  · rintro ⟨_ | ⟨k, a⟩, found, outside⟩
    · exact .inl (Option.some.inj found)
    · obtain ⟨part, here, found⟩ := Option.bind_eq_some_iff.mp found
      rw [entersStep_cons here, not_or] at outside
      exact .inr ⟨part, List.mem_of_getElem? here, outside.1, a, found, outside.2⟩
  · rintro (rfl | ⟨part, inside, apart, a, found, outside⟩)
    · exact ⟨[], rfl, not_entersStep_nil⟩
    · obtain ⟨k, here⟩ := List.mem_iff_getElem?.mp inside
      refine ⟨k :: a, Option.bind_eq_some_iff.mpr ⟨part, here, found⟩, ?_⟩
      rw [entersStep_cons here, not_or]
      exact ⟨apart, outside⟩

/-- A value or a test. -/
def IsExpression : CodeNode → Prop
  | instruction _ | condition _ => True
  | block _ | statement _ => False

theorem IsExpression.of_mem_parts (expression : n.IsExpression) (inside : part ∈ n.parts) :
    part.IsExpression := by
  cases n with
  | block => cases expression
  | statement => cases expression
  | instruction i =>
      cases i
      case newArray element size initial =>
        cases initial <;> simp [parts, Instruction.parts] at inside <;>
          grind [IsExpression]
      all_goals
        simp [parts, Instruction.parts] at inside <;> grind [IsExpression]
  | condition c =>
      cases c <;> simp [parts, Condition.parts] at inside <;> grind [IsExpression]

/-- No statement stands in an expression. -/
theorem IsExpression.not_holds (expression : n.IsExpression) : ¬ n.Holds s := by
  induction n using CodeNode.induction with
  | step n ih =>
      rw [holds_iff]
      rintro (rfl | ⟨part, inside, -, below⟩)
      · cases expression
      · exact ih part inside (expression.of_mem_parts inside) below

theorem holds_block_iff {b : List Statement} :
    (block b).Holds s ↔ ∃ t ∈ b, (statement t).Holds s := by
  rw [holds_iff, or_iff_right CodeNode.noConfusion]
  constructor
  · rintro ⟨part, inside, -, below⟩
    obtain ⟨t, member, rfl⟩ := List.mem_map.mp inside
    exact ⟨t, member, below⟩
  · rintro ⟨t, member, below⟩
    refine ⟨statement t, List.mem_map_of_mem member, ?_, below⟩
    rintro ⟨_, _, impossible, -⟩
    cases impossible

theorem holds_statement_iff :
    (statement t).Holds s ↔ t = s ∨ ∃ b ∈ t.blocks, (block b).Holds s := by
  rw [holds_iff, statement.injEq]
  refine or_congr_right ⟨?_, ?_⟩
  · rintro ⟨part, inside, apart, below⟩
    cases part with
    | block b => exact ⟨b, block_mem_parts_iff.mp inside, below⟩
    | statement step =>
        -- a statement right inside another is a step, and no address through it counts
        exact absurd ⟨t, step, rfl, rfl, statement_mem_parts_iff.mp inside⟩ apart
    | instruction => exact absurd below (IsExpression.not_holds trivial)
    | condition => exact absurd below (IsExpression.not_holds trivial)
  · rintro ⟨b, inside, below⟩
    refine ⟨block b, block_mem_parts_iff.mpr inside, ?_, below⟩
    rintro ⟨_, _, -, impossible, -⟩
    cases impossible

/-- What a block holds is what the walk through it visits. -/
theorem holds_block_iff_mem_walkBlock {b : List Statement} :
    (block b).Holds s ↔ s ∈ Statement.walkBlock b := by
  -- blocks and statements stand in one another, so the induction is about both at once
  have each : ∀ n : CodeNode,
      (∀ b, n = block b → (n.Holds s ↔ s ∈ Statement.walkBlock b)) ∧
      ∀ t, n = statement t → (n.Holds s ↔ s ∈ t :: t.nested) := by
    intro n
    induction n using CodeNode.induction with
    | step n ih =>
        constructor
        · rintro b rfl
          rw [holds_block_iff, Statement.walkBlock_eq, List.mem_flatMap]
          refine exists_congr fun t => and_congr_right fun member => ?_
          exact (ih (statement t) (List.mem_map_of_mem member)).2 t rfl
        · rintro t rfl
          rw [holds_statement_iff, List.mem_cons, Statement.nested_eq, List.mem_flatMap, eq_comm]
          refine or_congr_right (exists_congr fun b => and_congr_right fun member => ?_)
          exact (ih (block b) (block_mem_parts_iff.mpr member)).1 b rfl
  exact (each (block b)).1 b rfl

end CodeNode

/-- **The statements of a body** are those at some address that enters no step of a loop. -/
theorem Body.mem_statements_iff {body : List Statement} {s : Statement} :
    s ∈ Body.statements body ↔
      ∃ a, (CodeNode.block body).at? a = some (.statement s) ∧
        ¬ (CodeNode.block body).EntersStep a :=
  CodeNode.holds_block_iff_mem_walkBlock.symm

/-! ## Assignments -/

/-- The field that a statement assigns. -/
def Statement.assigned? : Statement → Option MemberRef
  | instanceFieldAssignment field _ _ | staticFieldAssignment field _ => some field
  | _ => none

/-- A body assigns a field, at some address that enters no step of a loop. -/
def Body.Assigns (body : List Statement) (field : MemberRef) : Prop :=
  ∃ a s, (CodeNode.block body).at? a = some (.statement s) ∧ s.assigned? = some field ∧
    ¬ (CodeNode.block body).EntersStep a

theorem Body.assigns_iff {body : List Statement} {field : MemberRef} :
    Body.Assigns body field ↔ ∃ s ∈ Body.statements body, s.assigned? = some field := by
  simp only [Body.mem_statements_iff]
  constructor
  · rintro ⟨a, s, found, assigned, outside⟩
    exact ⟨s, ⟨a, found, outside⟩, assigned⟩
  · rintro ⟨s, ⟨a, found, outside⟩, assigned⟩
    exact ⟨a, s, found, assigned, outside⟩

/-- A reference that says something is written. -/
def Reference.IsWrite : Reference → Prop
  | write _ | external .write _ => True
  | read _ | invoke _ | create _ | createArray _ | external _ _ => False

namespace Program

variable {p : Program}

/-- The field of the program that a reference to a field leads to. -/
def fieldOf? (p : Program) (r : MemberRef) : Option FieldId :=
  p.typeNamed? r.owner >>= fun t => p.findField? t r.name

/-- A field that the owner declares itself is found before any other. -/
theorem fieldOf?_of_fieldNamed? {r : MemberRef} {t : TypeId} {f : FieldId}
    (owner : p.typeNamed? r.owner = some t) (own : p.fieldNamed? t r.name = some f) :
    p.fieldOf? r = some f := by
  have fresh : t ∈ t :: p.typeIds ∧ t ∉ [] := ⟨List.mem_cons_self, List.not_mem_nil⟩
  rw [fieldOf?, owner, Option.bind_eq_bind, Option.bind_some, findField?, superclassChain, explore,
    dif_pos fresh, List.findSome?_cons, own]

theorem fieldReference_eq (inside : FieldId → Reference) (use : Use) (r : MemberRef) :
    p.fieldReference inside use r =
      (p.fieldOf? r).elim (.external use (r.owner ++ "." ++ r.name)) inside := by
  rw [fieldReference, ← fieldOf?]
  cases p.fieldOf? r <;> rfl

theorem fieldReference_eq_write_iff {r : MemberRef} {f : FieldId} :
    p.fieldReference .write .write r = .write f ↔ p.fieldOf? r = some f := by
  rw [fieldReference_eq]
  cases p.fieldOf? r <;> simp

theorem fieldReference_eq_external_iff {r : MemberRef} {text : String} :
    p.fieldReference .write .write r = .external .write text ↔
      p.fieldOf? r = none ∧ r.owner ++ "." ++ r.name = text := by
  rw [fieldReference_eq]
  cases p.fieldOf? r <;> simp

theorem mem_statementReferences_iff {s : Statement} {r : Reference} :
    r ∈ p.statementReferences s ↔
      ∃ field, s.assigned? = some field ∧ p.fieldReference .write .write field = r := by
  cases s <;> simp [statementReferences, Statement.assigned?, eq_comm]

theorem not_isWrite_of_mem_creation {inside : TypeId → Reference} {use : Use}
    {name? : Option String} {r : Reference} (made : r ∈ p.creation inside use name?)
    (indoors : ∀ t, ¬ (inside t).IsWrite)
    (outdoors : ∀ name, ¬ (Reference.external use name).IsWrite) : ¬ r.IsWrite := by
  unfold creation at made
  split at made
  · cases made
  · split at made
    · obtain rfl := List.mem_singleton.mp made
      exact indoors _
    · obtain rfl := List.mem_singleton.mp made
      exact outdoors _

/-- An instruction writes nothing. -/
theorem not_isWrite_of_mem_instructionReferences {i : Instruction} {r : Reference}
    (made : r ∈ p.instructionReferences i) : ¬ r.IsWrite := by
  have reads (field : MemberRef) : ¬ (p.fieldReference .read .read field).IsWrite := by
    rw [fieldReference_eq]
    cases p.fieldOf? field <;> exact id
  have calls (method : MemberRef) (found? : Option MethodId) :
      ¬ (callReference method found?).IsWrite := by
    cases found? <;> exact id
  unfold instructionReferences at made
  split at made
  · obtain rfl := List.mem_singleton.mp made
    exact reads _
  · obtain rfl := List.mem_singleton.mp made
    exact reads _
  · obtain rfl := List.mem_singleton.mp made
    exact calls _ _
  · obtain rfl := List.mem_singleton.mp made
    exact calls _ _
  · exact not_isWrite_of_mem_creation made (fun _ => id) (fun _ => id)
  · exact not_isWrite_of_mem_creation made (fun _ => id) (fun _ => id)
  · exact not_isWrite_of_mem_creation made (fun _ => id) (fun _ => id)
  · cases made

/-- What a method writes is what its body assigns. -/
theorem mem_referencesOf_iff {m : MethodId} {r : Reference} (written : r.IsWrite) :
    r ∈ p.referencesOf m ↔
      ∃ field, Body.Assigns (p.method m).statements field ∧
        p.fieldReference .write .write field = r := by
  have silent :
      r ∉ (Body.instructions (p.method m).statements).flatMap p.instructionReferences := by
    intro made
    obtain ⟨i, -, made⟩ := List.mem_flatMap.mp made
    exact not_isWrite_of_mem_instructionReferences made written
  rw [referencesOf, List.mem_append, or_iff_left silent, List.mem_flatMap]
  simp only [mem_statementReferences_iff, Body.assigns_iff]
  constructor
  · rintro ⟨s, member, field, assigned, leads⟩
    exact ⟨field, ⟨s, member, assigned⟩, leads⟩
  · rintro ⟨field, ⟨s, member, assigned⟩, leads⟩
    exact ⟨s, member, field, assigned, leads⟩

end Program

/-! ## Writers -/

namespace ReferenceIndex

/-- **Writers are those that assign.** The methods listed as writers of a field are the methods with
an assignment that resolves to it, and those listed as writers of a name outside the program are the
methods with an assignment to that name that does not resolve; in both cases the assignment may
stand at any depth, but not in a step of a loop. -/
theorem records_assignments (p : Program) (m : MethodId) :
    (∀ f, m ∈ (build p).referrers (.write f) ↔
      p.HasMethod m ∧ ∃ field, Body.Assigns (p.method m).statements field ∧
        p.fieldOf? field = some f) ∧
    ∀ text, m ∈ (build p).referrers (.external .write text) ↔
      p.HasMethod m ∧ ∃ field, Body.Assigns (p.method m).statements field ∧
        p.fieldOf? field = none ∧ field.owner ++ "." ++ field.name = text := by
  constructor
  · intro f
    have written : (Reference.write f).IsWrite := trivial
    simp only [mem_referrers_build, Program.mem_referencesOf_iff written,
      Program.fieldReference_eq_write_iff]
  · intro text
    have written : (Reference.external .write text).IsWrite := trivial
    simp only [mem_referrers_build, Program.mem_referencesOf_iff written,
      Program.fieldReference_eq_external_iff]

/-- A class whose method assigns a field of another class in the first step of a loop and its own in
the next step. -/
def steppingWriter : Program where
  types := [{ name := "a", kind := .plain, superclass := none, interfaces := [], signature := none,
              enumConstants := [], methods := [⟨0⟩], fields := [⟨0⟩] }]
  methods := [{ name := "run", descriptor := "()V", isStatic := false, isSynthetic := false,
                signature := ⟨[], .primitive 'V'⟩, owner := ⟨0⟩,
                body := some
                  [.forLoop (some (.staticFieldAssignment ⟨"ext", "f", "I"⟩ (.intConstant 0))) none
                    (some (.staticFieldAssignment ⟨"a", "f", "I"⟩ (.intConstant 0))) []] }]
  fields := [{ name := "f", descriptor := "I", type := .primitive 'I', isStatic := true,
               owner := ⟨0⟩ }]
  byName := .ofList [("a", ⟨0⟩)]

/-- The index knows no writer of either field, though the second is the class's own. -/
theorem step_assignment_missed :
    steppingWriter.validate = .ok () ∧ steppingWriter.HasMethod ⟨0⟩ ∧
    (∃ s, (CodeNode.block (steppingWriter.method ⟨0⟩).statements).at? [0, 0] = some (.statement s) ∧
      s.assigned? = some ⟨"ext", "f", "I"⟩) ∧
    (∃ s, (CodeNode.block (steppingWriter.method ⟨0⟩).statements).at? [0, 1] = some (.statement s) ∧
      s.assigned? = some ⟨"a", "f", "I"⟩) ∧
    steppingWriter.fieldOf? ⟨"ext", "f", "I"⟩ = none ∧
    steppingWriter.fieldOf? ⟨"a", "f", "I"⟩ = some ⟨0⟩ ∧
    ⟨0⟩ ∉ (build steppingWriter).referrers (.external .write "ext.f") ∧
    ⟨0⟩ ∉ (build steppingWriter).referrers (.write ⟨0⟩) := by
  have owner : steppingWriter.typeNamed? "a" = some ⟨0⟩ := by decide
  have own : steppingWriter.fieldNamed? ⟨0⟩ "f" = some ⟨0⟩ := by decide
  exact ⟨rfl, by decide, ⟨_, rfl, rfl⟩, ⟨_, rfl, rfl⟩, by decide,
    Program.fieldOf?_of_fieldNamed? owner own, by decide, by decide⟩

end ReferenceIndex

end Namesake
