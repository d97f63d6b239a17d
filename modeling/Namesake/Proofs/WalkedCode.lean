import Namesake.Proofs.CodeAddresses

/-! # What a walk through a body meets

The walk through a body is defined over five kinds of lists: statements with the blocks inside
them, instructions a statement holds itself, those a condition compares, those inside an
instruction, and the steps of counting loops, which are no statements of their own to it. All of
them come down to one rule, that a node is met and then its parts in turn (`CodeNode.walk_eq`). With
it, the instructions a walk meets are listed by their addresses, each address once, and an
instruction before those inside it (`Body.instructions_met_once`).

The rule has one exception, which the result leaves out. Of the first and next steps of a counting
loop, the walk sees the instructions they hold themselves, and nothing that stands in their blocks.
-/

namespace Namesake

/-! ## Walks as lists of walks -/

theorem Instruction.walkList_eq (is : List Instruction) :
    Instruction.walkList is = is.flatMap Instruction.walk := by
  induction is with
  | nil => rw [Instruction.walkList, List.flatMap_nil]
  | cons i rest ih => rw [Instruction.walkList, ih, List.flatMap_cons]

theorem Condition.walkList_eq (cs : List Condition) :
    Condition.walkList cs = cs.flatMap Condition.walk := by
  induction cs with
  | nil => rw [Condition.walkList, List.flatMap_nil]
  | cons c rest ih => rw [Condition.walkList, ih, List.flatMap_cons]

/-- Walking a condition is walking what it compares. -/
theorem Condition.walk_eq_and :
    (∀ c : Condition, c.walk = c.instructions.flatMap Instruction.walk) ∧
    ∀ cs : List Condition,
      Condition.walkList cs = (Condition.listInstructions cs).flatMap Instruction.walk := by
  apply Condition.instructions.mutual_induct <;>
    simp_all [Condition.walk, Condition.instructions, Condition.walkList,
      Condition.listInstructions]

theorem Condition.walk_eq (c : Condition) : c.walk = c.instructions.flatMap Instruction.walk :=
  Condition.walk_eq_and.1 c

/-- **Walking an instruction** is being at it and then walking its children. -/
theorem Instruction.walk_eq (i : Instruction) :
    i.walk = i :: i.children.flatMap Instruction.walk := by
  cases i
  case newArray element size initial =>
    cases initial <;> simp [Instruction.walk, Instruction.children, Instruction.walkList_eq]
  all_goals
    simp [Instruction.walk, Instruction.children, Instruction.walkList_eq, Condition.walk_eq]

namespace Statement

theorem walkElifs_eq (elifs : List Elif) :
    walkElifs elifs = (elifs.map Elif.body).flatMap walkBlock := by
  induction elifs with
  | nil => rw [walkElifs, List.map_nil, List.flatMap_nil]
  | cons e rest ih =>
      cases e
      rw [walkElifs, ih, List.map_cons, List.flatMap_cons, Elif.body]

theorem walkCases_eq (cases_ : List Case) :
    walkCases cases_ = (cases_.map Case.body).flatMap walkBlock := by
  induction cases_ with
  | nil => rw [walkCases, List.map_nil, List.flatMap_nil]
  | cons c rest ih =>
      cases c
      rw [walkCases, ih, List.map_cons, List.flatMap_cons, Case.body]

theorem walkCatches_eq (catches : List CatchBlock) :
    walkCatches catches = (catches.map CatchBlock.body).flatMap walkBlock := by
  induction catches with
  | nil => rw [walkCatches, List.map_nil, List.flatMap_nil]
  | cons c rest ih =>
      cases c
      rw [walkCatches, ih, List.map_cons, List.flatMap_cons, CatchBlock.body]

/-- **Below a statement** the walk goes through its blocks. -/
theorem nested_eq (s : Statement) : s.nested = s.blocks.flatMap walkBlock := by
  cases s
  case ifElse condition body elifs last =>
    cases last <;> simp [nested, blocks, walkElifs_eq]
  all_goals simp [nested, blocks, walkCases_eq, walkCatches_eq]

theorem instructions_forLoop (first : Option Statement) (condition : Option Condition)
    (next : Option Statement) (body : List Statement) :
    (forLoop first condition next body).instructions =
      first.toList.flatMap instructions ++ condition.toList.flatMap Condition.instructions ++
        next.toList.flatMap instructions := by
  cases first <;> cases next <;> simp [instructions]

theorem walkBlock_eq (b : List Statement) : walkBlock b = b.flatMap fun s => s :: s.nested := by
  induction b with
  | nil => rw [walkBlock, List.flatMap_nil]
  | cons s rest ih => rw [walkBlock, ih, List.flatMap_cons]

end Statement

/-! ## Met in a node -/

namespace CodeNode

/-- The instruction a node is. -/
def own : CodeNode → List Instruction
  | instruction i => [i]
  | block _ | statement _ | condition _ => []

/-- The instructions that are met in a node. -/
def walk : CodeNode → List Instruction
  | block statements => Body.instructions statements
  | statement s => (s :: s.nested).flatMap fun s => s.instructions.flatMap Instruction.walk
  | instruction i => i.walk
  | condition c => c.walk

theorem walk_block (b : List Statement) :
    (block b).walk = b.flatMap fun s => (statement s).walk := by
  rw [walk, Body.instructions, Body.statements, Statement.walkBlock_eq, List.flatMap_assoc]
  rfl

theorem walk_statement (s : Statement) :
    (statement s).walk =
      s.instructions.flatMap Instruction.walk ++ s.blocks.flatMap Body.instructions := by
  rw [walk, List.flatMap_cons, Statement.nested_eq, List.flatMap_assoc]
  rfl

/-- Where the blocks of a statement are empty, only the instructions it holds itself are met. -/
theorem walk_of_flat {s : Statement} (flat : ∀ block ∈ s.blocks, block = []) :
    (statement s).walk = s.instructions.flatMap Instruction.walk := by
  have nothing : s.blocks.flatMap Body.instructions = [] := by
    rw [List.flatMap_eq_nil_iff]
    intro b inside
    rw [flat b inside]
    rfl
  rw [walk_statement, nothing, List.append_nil]

theorem walk_steps {steps : List Statement}
    (flat : ∀ step ∈ steps, ∀ block ∈ step.blocks, block = []) :
    (steps.map statement).flatMap walk =
      (steps.flatMap Statement.instructions).flatMap Instruction.walk := by
  rw [List.flatMap_map, List.flatMap_assoc]
  exact List.flatMap_congr fun step member => walk_of_flat (flat step member)

/-- **What is met in a node** is the node itself, if it is an instruction, and what is met in the
parts right inside it, if the steps of a loop have no statements in blocks. -/
theorem walk_eq (n : CodeNode)
    (flat : ∀ s, n = statement s → ∀ step ∈ s.steps, ∀ block ∈ step.blocks, block = []) :
    n.walk = n.own ++ n.parts.flatMap walk := by
  cases n with
  | block b => rw [walk_block, own, parts, List.flatMap_map, List.nil_append]
  | instruction i =>
      rw [walk, own, parts, Instruction.walk_eq, List.singleton_append]
      congr 1
      cases i
      case newArray element size initial =>
        cases initial <;> simp [Instruction.children, Instruction.parts, walk, List.flatMap_map]
      all_goals
        simp [Instruction.children, Instruction.parts, walk, List.flatMap_map, Condition.walk_eq]
  | condition c =>
      rw [own, List.nil_append]
      cases c <;>
        simp [walk, Condition.walk, parts, Condition.parts, List.flatMap_map, Condition.walkList_eq]
  | statement s =>
      rw [own, List.nil_append, walk_statement]
      replace flat := flat s rfl
      cases s
      case forLoop first condition next body =>
        -- the steps are parts, but only the instructions they hold are met
        have firsts := walk_steps fun step taken => flat step (List.mem_append_left _ taken)
        have nexts := walk_steps fun step taken => flat step (List.mem_append_right _ taken)
        have tests : (condition.toList.map CodeNode.condition).flatMap walk =
            (condition.toList.flatMap Condition.instructions).flatMap Instruction.walk := by
          cases condition <;> simp [walk, Condition.walk_eq]
        rw [Statement.instructions_forLoop, parts, Statement.parts]
        simp only [List.flatMap_append, firsts, tests, nexts, Statement.blocks,
          List.flatMap_singleton, walk]
      all_goals
        simp [parts, Statement.parts, Statement.instructions, Statement.blocks, walk,
          List.flatMap_map, List.flatMap_assoc, Condition.walk_eq]

/-! ## Every instruction once -/

/-- Addresses list some instructions: at each address stands the instruction of that place, every
address of an instruction is among them, and none comes after one that leads on from it. -/
structure Lists (look : List Nat → Option CodeNode) (addresses : List (List Nat))
    (found : List Instruction) : Prop where
  mem_iff : ∀ a, a ∈ addresses ↔ ∃ i, look a = some (instruction i)
  map_eq : addresses.map look = found.map fun i => some (instruction i)
  ordered : addresses.Pairwise fun earlier later => ¬ later <+: earlier

/-- The node at an address that starts with the number of one of some nodes. -/
def among? (nodes : List CodeNode) : List Nat → Option CodeNode
  | [] => none
  | k :: address => nodes[k]? >>= (·.at? address)

theorem lists_nil : Lists (among? []) [] [] where
  mem_iff a := by cases a <;> simp [among?]
  map_eq := rfl
  ordered := .nil

variable {n : CodeNode} {nodes : List CodeNode} {addresses rest : List (List Nat)}
  {found others : List Instruction}

/-- An address among some nodes tells which one first. -/
theorem Lists.exists_cons (lists : Lists (among? nodes) addresses found) {a : List Nat}
    (listed : a ∈ addresses) : ∃ k b, a = k :: b := by
  apply List.exists_cons_of_ne_nil
  rintro rfl
  obtain ⟨i, impossible⟩ := (lists.mem_iff []).mp listed
  cases impossible

/-- A node put in front moves the numbers of the others by one. -/
theorem Lists.cons (first : Lists n.at? addresses found)
    (later : Lists (among? nodes) rest others) :
    Lists (among? (n :: nodes)) (addresses.map (0 :: ·) ++ rest.map (List.modifyHead (· + 1)))
      (found ++ others) where
  mem_iff a := by
    rw [List.mem_append, List.mem_map, List.mem_map]
    cases a with
    | nil =>
        constructor
        · rintro (⟨b, -, impossible⟩ | ⟨b, listed, same⟩)
          · cases impossible
          · obtain ⟨k, d, rfl⟩ := later.exists_cons listed
            cases same
        · rintro ⟨i, impossible⟩
          cases impossible
    | cons k a =>
        cases k with
        | zero =>
            have here : among? (n :: nodes) (0 :: a) = n.at? a := rfl
            rw [here, ← first.mem_iff]
            constructor
            · rintro (⟨b, listed, same⟩ | ⟨b, listed, same⟩)
              · obtain rfl := (List.cons.inj same).2
                exact listed
              · obtain ⟨k, d, rfl⟩ := later.exists_cons listed
                cases (List.cons.inj same).1
            · exact fun listed => .inl ⟨a, listed, rfl⟩
        | succ k =>
            have there : among? (n :: nodes) ((k + 1) :: a) = among? nodes (k :: a) := rfl
            rw [there, ← later.mem_iff]
            constructor
            · rintro (⟨b, -, same⟩ | ⟨b, listed, same⟩)
              · cases (List.cons.inj same).1
              · obtain ⟨j, d, rfl⟩ := later.exists_cons listed
                obtain ⟨number, rfl⟩ := List.cons.inj same
                obtain rfl := Nat.succ.inj number
                exact listed
            · exact fun listed => .inr ⟨k :: a, listed, rfl⟩
  map_eq := by
    rw [List.map_append, List.map_append, ← first.map_eq, ← later.map_eq, List.map_map,
      List.map_map]
    congr 1
    apply List.map_congr_left
    rintro (_ | ⟨k, a⟩) - <;> rfl
  ordered := by
    rw [List.pairwise_append, List.pairwise_map, List.pairwise_map]
    refine ⟨?_, ?_, ?_⟩
    · exact first.ordered.imp fun apart below => apart (List.prefix_cons_inj 0 |>.mp below)
    · refine later.ordered.imp_of_mem ?_
      intro b c before after apart below
      obtain ⟨j, d, rfl⟩ := later.exists_cons before
      obtain ⟨k, e, rfl⟩ := later.exists_cons after
      obtain ⟨number, leads⟩ := List.cons_prefix_cons.mp below
      exact apart (List.cons_prefix_cons.mpr ⟨Nat.succ.inj number, leads⟩)
    · intro b before c after below
      obtain ⟨d, -, rfl⟩ := List.mem_map.mp before
      obtain ⟨e, listed, rfl⟩ := List.mem_map.mp after
      obtain ⟨k, e, rfl⟩ := later.exists_cons listed
      cases (List.cons_prefix_cons.mp below).1

/-- A node is met before its parts. -/
theorem Lists.within (below : Lists (among? n.parts) addresses found) :
    Lists n.at? (n.own.map (fun _ => []) ++ addresses) (n.own ++ found) where
  mem_iff a := by
    rw [List.mem_append]
    cases a with
    | nil =>
        have absent : [] ∉ addresses := by
          intro listed
          obtain ⟨k, d, impossible⟩ := below.exists_cons listed
          cases impossible
        cases n <;> simp [own, at?, absent]
    | cons k a =>
        have unlike : k :: a ∉ n.own.map fun _ => ([] : List Nat) := by
          intro member
          obtain ⟨-, -, impossible⟩ := List.mem_map.mp member
          cases impossible
        rw [or_iff_right unlike]
        exact below.mem_iff (k :: a)
  map_eq := by
    have same : addresses.map n.at? = addresses.map (among? n.parts) := by
      apply List.map_congr_left
      intro a listed
      obtain ⟨k, d, rfl⟩ := below.exists_cons listed
      rfl
    rw [List.map_append, List.map_append, same, below.map_eq]
    congr 1
    cases n <;> rfl
  ordered := by
    rw [List.pairwise_append]
    refine ⟨?_, below.ordered, ?_⟩
    · cases n <;> simp [own]
    · intro b here c later leads
      obtain ⟨-, -, rfl⟩ := List.mem_map.mp here
      obtain ⟨k, d, rfl⟩ := below.exists_cons later
      cases List.prefix_nil.mp leads

/-- No loop in a node has statements in the blocks of its first or next step. -/
def HasFlatSteps (n : CodeNode) : Prop :=
  ∀ a s, n.at? a = some (statement s) → ∀ step ∈ s.steps, ∀ block ∈ step.blocks, block = []

theorem hasFlatSteps_iff :
    n.HasFlatSteps ↔
      (∀ s, n = statement s → ∀ step ∈ s.steps, ∀ block ∈ step.blocks, block = []) ∧
      n.parts.Forall HasFlatSteps := by
  rw [List.forall_iff_forall_mem]
  constructor
  · intro flat
    refine ⟨fun s same => flat [] s (congrArg some same), ?_⟩
    intro part inside a s found
    obtain ⟨k, here⟩ := List.mem_iff_getElem?.mp inside
    apply flat (k :: a) s
    rw [at?, here]
    exact found
  · rintro ⟨here, below⟩ (_ | ⟨k, a⟩) s found
    · exact here s (Option.some.inj found)
    · obtain ⟨part, taken, found⟩ := Option.bind_eq_some_iff.mp found
      exact below part (List.mem_of_getElem? taken) a s found

/-- The instructions that are met in some parts are listed by the addresses in each of them. -/
theorem exists_lists_among
    (each : ∀ part ∈ nodes, ∃ addresses, Lists part.at? addresses part.walk) :
    ∃ addresses, Lists (among? nodes) addresses (nodes.flatMap walk) := by
  induction nodes with
  | nil => exact ⟨[], lists_nil⟩
  | cons part rest ih =>
      rw [List.forall_mem_cons] at each
      obtain ⟨⟨_, first⟩, others⟩ := each
      obtain ⟨_, later⟩ := ih others
      exact ⟨_, first.cons later⟩

/-- The instructions that are met in a node are listed by their addresses in it. -/
theorem HasFlatSteps.exists_lists (flat : n.HasFlatSteps) :
    ∃ addresses, Lists n.at? addresses n.walk := by
  induction n using CodeNode.induction with
  | step n ih =>
      obtain ⟨here, inside⟩ := hasFlatSteps_iff.mp flat
      rw [List.forall_iff_forall_mem] at inside
      obtain ⟨_, below⟩ := exists_lists_among fun part member => ih part member (inside part member)
      rw [walk_eq n here]
      exact ⟨_, below.within⟩

end CodeNode

/-- **Walking a body meets every instruction once.** The addresses at which instructions stand can
be listed without repetition so that the walk meets, one by one, what stands at them; and no address
comes after one that leads on from it, so an instruction is met before all those inside it. Blocks
in the steps of counting loops must be empty. -/
theorem Body.instructions_met_once (body : List Statement)
    (flat : ∀ a s, (CodeNode.block body).at? a = some (.statement s) →
      ∀ step ∈ s.steps, ∀ block ∈ step.blocks, block = []) :
    ∃ addresses : List (List Nat), addresses.Nodup ∧
      (∀ a, a ∈ addresses ↔ ∃ i, (CodeNode.block body).at? a = some (.instruction i)) ∧
      addresses.map (CodeNode.block body).at? =
        (Body.instructions body).map (fun i => some (.instruction i)) ∧
      addresses.Pairwise fun earlier later => ¬ later <+: earlier := by
  have steps : (CodeNode.block body).HasFlatSteps := flat
  obtain ⟨addresses, lists⟩ := steps.exists_lists
  have distinct : addresses.Nodup := by
    apply lists.ordered.imp
    rintro a b apart rfl
    exact apart (List.prefix_refl a)
  exact ⟨addresses, distinct, lists.mem_iff, lists.map_eq, lists.ordered⟩

/-- A counting loop over a body with blocks and values in all kinds of places. -/
def nestedLoop : List Statement :=
  [.forLoop (some (.localAssignment ⟨1, none⟩ (.stringConstant "first")))
    (some (.and [.compare .lt (.localAccess ⟨1, none⟩) (.stringConstant "limit"),
      .inverse (.boolean (.stringConstant "test"))]))
    (some (.localAssignment ⟨1, none⟩ (.negative (.stringConstant "next"))))
    [.ifElse (.boolean (.ternary (.boolean (.stringConstant "which")) (.stringConstant "this")
        (.stringConstant "that")))
      [.throwValue (.stringConstant "thrown")]
      [.mk (.boolean (.stringConstant "otherwise"))
        [.returnValue (some (.newArray (.primitive 'C') (.stringConstant "size")
          (some [.stringConstant "initial", .stringConstant "further"])))]]
      none]]

theorem Body.instructions_met_once_in_nestedLoop :
    (∃ addresses : List (List Nat), addresses.Nodup ∧
      (∀ a, a ∈ addresses ↔ ∃ i, (CodeNode.block nestedLoop).at? a = some (.instruction i)) ∧
      addresses.map (CodeNode.block nestedLoop).at? =
        (Body.instructions nestedLoop).map (fun i => some (.instruction i)) ∧
      addresses.Pairwise fun earlier later => ¬ later <+: earlier) ∧
    Body.stringConstants nestedLoop =
      ["first", "limit", "test", "next", "which", "this", "that", "otherwise", "thrown", "size",
        "initial", "further"] := by
  refine ⟨Body.instructions_met_once nestedLoop ?_, rfl⟩
  have flat : (CodeNode.block nestedLoop).HasFlatSteps := by
    simp [nestedLoop, CodeNode.hasFlatSteps_iff, CodeNode.parts, Statement.parts, Condition.parts,
      Instruction.parts, Elif.condition, Elif.body, Statement.steps, Statement.blocks]
  exact flat

end Namesake
