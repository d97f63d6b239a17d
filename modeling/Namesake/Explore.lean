/-! # Exploring a graph

`explore` visits what can be reached from a stack of nodes, depth first, each node once; `postorder`
lists every node after what was first reached through it. Both stay inside a finite universe of
nodes, so they end on graphs with cycles too.
-/

namespace Namesake

variable {α : Type} [DecidableEq α]

/-- The members of the universe that are not visited yet. -/
def unvisited (nodes visited : List α) : List α := nodes.filter fun a => !visited.contains a

/-- Visiting a further node takes it out of the unvisited ones. -/
theorem unvisited_cons (nodes visited : List α) (a : α) :
    unvisited nodes (a :: visited) = (unvisited nodes visited).filter fun b => b != a := by
  rw [unvisited, unvisited, List.filter_filter]
  exact List.filter_congr fun b _ => by rw [List.contains_cons, Bool.not_or]; rfl

/-- Visiting a further node of the universe leaves fewer of them. -/
theorem unvisited_cons_lt {nodes visited : List α} {a : α} (inside : a ∈ nodes)
    (fresh : a ∉ visited) :
    (unvisited nodes (a :: visited)).length < (unvisited nodes visited).length := by
  rw [unvisited_cons, List.length_filter_lt_length_iff_exists]
  refine ⟨a, List.mem_filter.2 ⟨inside, ?_⟩, ?_⟩
  · rw [Bool.not_eq_true', List.contains_eq_mem, decide_eq_false fresh]
  · rw [bne_self_eq_false]
    exact Bool.false_ne_true

/-- The nodes met from a stack, each once, in the order they are met: the successors of a node come
before what is below it on the stack. Nodes outside the universe are passed over. -/
def explore (next : α → List α) (nodes visited : List α) : (stack : List α) → List α
  | [] => []
  | a :: stack =>
    if _h : a ∈ nodes ∧ a ∉ visited then
      a :: explore next nodes (a :: visited) (next a ++ stack)
    else explore next nodes visited stack
termination_by stack => ((unvisited nodes visited).length, stack.length)
decreasing_by
  · exact Prod.Lex.left _ _ (unvisited_cons_lt _h.1 _h.2)
  · exact Prod.Lex.right _ (by simp)

/-- What is left to do at a node. -/
inductive Visit (α : Type) where
  /-- Visit what can be reached from it first. -/
  | enter (node : α)
  /-- List the node itself. -/
  | leave (node : α)

/-- The nodes met from a stack of visits, each listed after what was first reached through it. -/
def postorder (next : α → List α) (nodes visited : List α) : (stack : List (Visit α)) → List α
  | [] => []
  | .leave a :: stack => a :: postorder next nodes visited stack
  | .enter a :: stack =>
    if _h : a ∈ nodes ∧ a ∉ visited then
      postorder next nodes (a :: visited) ((next a).map .enter ++ .leave a :: stack)
    else postorder next nodes visited stack
termination_by stack => ((unvisited nodes visited).length, stack.length)
decreasing_by
  · exact Prod.Lex.right _ (by simp)
  · exact Prod.Lex.left _ _ (unvisited_cons_lt _h.1 _h.2)
  · exact Prod.Lex.right _ (by simp)

end Namesake
