import Mathlib.Logic.Relation
import Namesake.Explore

/-! # What exploring reaches

A search stays in its universe. It visits what it is started with and, with a node, all that follows
it, unless a node is outside the universe or was visited before. So a search that starts below a
node finds exactly what can be reached from it, the node itself left out (`mem_explore_below`). A
search that stops at the first answer (`Search`) always comes to an end, and its answer is the first
one among the nodes that are met (`search_iff`). A postorder lists every node it enters
(`mem_postorder_of_stack`).
-/

namespace Namesake

variable {α : Type} [DecidableEq α] {next : α → List α} {nodes visited : List α}

/-! ## Searches -/

/-- What is met on the way from a stack is part of the universe. -/
theorem mem_of_mem_explore {stack : List α} {a : α}
    (member : a ∈ explore next nodes visited stack) : a ∈ nodes := by
  fun_induction explore next nodes visited stack with
  | case1 => cases member
  | case2 visited first stack fresh ih =>
      rcases List.mem_cons.mp member with rfl | later
      · exact fresh.1
      · exact ih later
  | case3 visited first stack stale ih => exact ih member

/-- Whatever is met can be reached from the stack, and is met for the first time. -/
theorem reached_of_mem_explore {stack : List α} {a : α}
    (met : a ∈ explore next nodes visited stack) :
    a ∉ visited ∧ ∃ s ∈ stack, Relation.ReflTransGen (fun a b => b ∈ next a) s a := by
  fun_induction explore next nodes visited stack with
  | case1 => cases met
  | case2 visited s stack fresh ih =>
      rcases List.mem_cons.mp met with rfl | later
      · exact ⟨fresh.2, a, List.mem_cons_self, .refl⟩
      · obtain ⟨unvisited, s', member, path⟩ := ih later
        refine ⟨fun before => unvisited (List.mem_cons_of_mem s before), ?_⟩
        rcases List.mem_append.mp member with follows | waiting
        · exact ⟨s, List.mem_cons_self, .head follows path⟩
        · exact ⟨s', List.mem_cons_of_mem s waiting, path⟩
  | case3 visited s stack stale ih =>
      obtain ⟨unvisited, s', member, path⟩ := ih met
      exact ⟨unvisited, s', List.mem_cons_of_mem s member, path⟩

/-- The stack is met, and with a node all that follows it, unless visited before. -/
theorem explore_covers (stack : List α) :
    (∀ s ∈ stack, s ∈ nodes → s ∈ visited ∨ s ∈ explore next nodes visited stack) ∧
    ∀ a ∈ explore next nodes visited stack, ∀ b ∈ next a, b ∈ nodes →
      b ∈ visited ∨ b ∈ explore next nodes visited stack := by
  fun_induction explore next nodes visited stack with
  | case1 => exact ⟨fun s member => (nomatch member), fun a met => (nomatch met)⟩
  | case2 visited s stack fresh ih =>
      obtain ⟨covered, closed⟩ := ih
      -- what counted as visited for the rest of the search was visited before or is the node itself
      have settle : ∀ {b : α}, b ∈ s :: visited ∨
          b ∈ explore next nodes (s :: visited) (next s ++ stack) →
          b ∈ visited ∨ b ∈ s :: explore next nodes (s :: visited) (next s ++ stack) := by
        rintro b (before | later)
        · rcases List.mem_cons.mp before with rfl | before
          · exact .inr List.mem_cons_self
          · exact .inl before
        · exact .inr (List.mem_cons_of_mem s later)
      constructor
      · intro s' member inside
        rcases List.mem_cons.mp member with rfl | waiting
        · exact .inr List.mem_cons_self
        · exact settle (covered s' (List.mem_append_right _ waiting) inside)
      · intro a met b follows inside
        rcases List.mem_cons.mp met with rfl | later
        · exact settle (covered b (List.mem_append_left _ follows) inside)
        · exact settle (closed a later b follows inside)
  | case3 visited s stack stale ih =>
      obtain ⟨covered, closed⟩ := ih
      refine ⟨?_, closed⟩
      intro s' member inside
      rcases List.mem_cons.mp member with rfl | waiting
      · by_cases before : s' ∈ visited
        · exact .inl before
        · exact absurd ⟨inside, before⟩ stale
      · exact covered s' waiting inside

/-- **A search below a node finds what can be reached from it**, and not the node. -/
theorem mem_explore_below (inside : ∀ a b, b ∈ next a → b ∈ nodes) {root a : α} :
    a ∈ explore next nodes [root] (next root) ↔
      a ≠ root ∧ Relation.ReflTransGen (fun a b => b ∈ next a) root a := by
  constructor
  · intro met
    obtain ⟨fresh, s, follows, path⟩ := reached_of_mem_explore met
    exact ⟨fun same => fresh (List.mem_singleton.mpr same), .head follows path⟩
  · rintro ⟨other, path⟩
    obtain ⟨covered, closed⟩ := @explore_covers _ _ next nodes [root] (next root)
    have met : ∀ b, Relation.ReflTransGen (fun a b => b ∈ next a) root b →
        b = root ∨ b ∈ explore next nodes [root] (next root) := by
      intro b path
      induction path with
      | refl => exact .inl rfl
      | @tail b c path follows ih =>
          have found : c ∈ [root] ∨ c ∈ explore next nodes [root] (next root) := by
            rcases ih with rfl | before
            · exact covered c follows (inside _ _ follows)
            · exact closed b before c follows (inside _ _ follows)
          exact found.imp_left List.mem_singleton.mp
    exact (met a path).resolve_left other

/-- **A search from a node finds what can be reached from it**, the node included. -/
theorem mem_explore_from (inside : ∀ a b, b ∈ next a → b ∈ nodes) {root a : α}
    (here : root ∈ nodes) :
    a ∈ explore next nodes [] [root] ↔ Relation.ReflTransGen (fun a b => b ∈ next a) root a := by
  constructor
  · intro met
    obtain ⟨-, s, started, path⟩ := reached_of_mem_explore met
    obtain rfl := List.mem_singleton.mp started
    exact path
  · intro path
    obtain ⟨covered, closed⟩ := @explore_covers _ _ next nodes [] [root]
    induction path with
    | refl => exact (covered root List.mem_cons_self here).resolve_left List.not_mem_nil
    | tail _ follows ih =>
        exact (closed _ ih _ follows (inside _ _ follows)).resolve_left List.not_mem_nil

/-! ## Searches for an answer -/

/-- A search comes to an end: nodes are taken from a stack, those visited before are passed over,
and the first node with an answer ends it. Nothing bounds how long it takes. -/
inductive Search {β : Type} (next : α → List α) (answer : α → Option β) :
    (visited stack : List α) → Option β → Prop
  | exhausted {visited : List α} : Search next answer visited [] none
  | again {visited stack : List α} {a : α} {result : Option β} (known : a ∈ visited)
      (rest : Search next answer visited stack result) :
      Search next answer visited (a :: stack) result
  | answered {visited stack : List α} {a : α} {b : β} (fresh : a ∉ visited)
      (answers : answer a = some b) : Search next answer visited (a :: stack) (some b)
  | onward {visited stack : List α} {a : α} {result : Option β} (fresh : a ∉ visited)
      (silent : answer a = none)
      (rest : Search next answer (a :: visited) (next a ++ stack) result) :
      Search next answer visited (a :: stack) result

variable {β : Type} {answer : α → Option β}

/-- Where no node leads out of the universe, a search ends with the first answer that is met. -/
theorem search_explore (inside : ∀ a b, b ∈ next a → b ∈ nodes) {stack : List α}
    (started : ∀ a ∈ stack, a ∈ nodes) :
    Search next answer visited stack ((explore next nodes visited stack).findSome? answer) := by
  fun_induction explore next nodes visited stack with
  | case1 => exact .exhausted
  | case2 visited a stack fresh ih =>
      rw [List.findSome?_cons]
      cases answers : answer a with
      | some b => exact .answered fresh.2 answers
      | none =>
          refine .onward fresh.2 answers (ih ?_)
          intro b member
          rcases List.mem_append.mp member with follows | waiting
          · exact inside a b follows
          · exact started b (List.mem_cons_of_mem a waiting)
  | case3 visited a stack stale ih =>
      have known : a ∈ visited :=
        Decidable.byContradiction fun fresh => stale ⟨started a List.mem_cons_self, fresh⟩
      exact .again known (ih fun b member => started b (List.mem_cons_of_mem a member))

omit [DecidableEq α] in
/-- A search ends in one way only. -/
theorem Search.unique {stack : List α} {result result' : Option β}
    (first : Search next answer visited stack result)
    (second : Search next answer visited stack result') : result = result' := by
  induction first with
  | exhausted =>
      cases second
      rfl
  | again known _ ih =>
      cases second with
      | again _ rest => exact ih rest
      | answered fresh _ => exact absurd known fresh
      | onward fresh _ _ => exact absurd known fresh
  | answered fresh answers =>
      cases second with
      | again known _ => exact absurd known fresh
      | answered _ answers' => exact answers.symm.trans answers'
      | onward _ silent _ =>
          rw [silent] at answers
          cases answers
  | onward fresh silent _ ih =>
      cases second with
      | again known _ => exact absurd known fresh
      | answered _ answers =>
          rw [silent] at answers
          cases answers
      | onward _ _ rest => exact ih rest

/-- **A search comes to an end**, with the first answer among the nodes that are met. -/
theorem search_iff (inside : ∀ a b, b ∈ next a → b ∈ nodes) {root : α} (here : root ∈ nodes)
    {result : Option β} :
    Search next answer [] [root] result ↔
      result = (explore next nodes [] [root]).findSome? answer := by
  have ends : Search next answer [] [root] ((explore next nodes [] [root]).findSome? answer) := by
    apply search_explore inside
    intro a started
    obtain rfl := List.mem_singleton.mp started
    exact here
  constructor
  · intro other
    exact other.unique ends
  · rintro rfl
    exact ends

/-! ## Postorders -/

/-- What is listed in postorder is part of the universe, or its turn had come at the start. -/
theorem mem_of_mem_postorder {stack : List (Visit α)} {a : α}
    (member : a ∈ postorder next nodes visited stack) : a ∈ nodes ∨ .leave a ∈ stack := by
  fun_induction postorder next nodes visited stack with
  | case1 => cases member
  | case2 visited first stack ih =>
      rcases List.mem_cons.mp member with rfl | later
      · exact .inr List.mem_cons_self
      · exact (ih later).imp_right (List.mem_cons_of_mem _)
  | case3 visited first stack fresh ih =>
      rcases ih member with inside | waiting
      · exact .inl inside
      · rcases List.mem_append.mp waiting with entered | waiting
        · obtain ⟨b, -, impossible⟩ := List.mem_map.mp entered
          cases impossible
        · rcases List.mem_cons.mp waiting with same | waiting
          · obtain rfl := Visit.leave.inj same
            exact .inl fresh.1
          · exact .inr (List.mem_cons_of_mem _ waiting)
  | case4 visited first stack stale ih =>
      exact (ih member).imp_right (List.mem_cons_of_mem _)

/-- Every node a postorder is at or enters is listed, unless visited before. -/
theorem mem_postorder_of_stack {stack : List (Visit α)} {a : α} :
    (.leave a ∈ stack → a ∈ postorder next nodes visited stack) ∧
    (.enter a ∈ stack → a ∈ nodes → a ∉ visited → a ∈ postorder next nodes visited stack) := by
  fun_induction postorder next nodes visited stack with
  | case1 => exact ⟨fun member => (nomatch member), fun member => (nomatch member)⟩
  | case2 visited b stack ih =>
      constructor
      · intro member
        rcases List.mem_cons.mp member with same | waiting
        · obtain rfl := Visit.leave.inj same
          exact List.mem_cons_self
        · exact List.mem_cons_of_mem b (ih.1 waiting)
      · intro member inside fresh
        rcases List.mem_cons.mp member with same | waiting
        · cases same
        · exact List.mem_cons_of_mem b (ih.2 waiting inside fresh)
  | case3 visited b stack fresh ih =>
      constructor
      · intro member
        rcases List.mem_cons.mp member with same | waiting
        · cases same
        · exact ih.1 (List.mem_append_right _ (List.mem_cons_of_mem _ waiting))
      · intro member inside fresh'
        by_cases here : a = b
        · subst here
          exact ih.1 (List.mem_append_right _ List.mem_cons_self)
        · rcases List.mem_cons.mp member with same | waiting
          · exact absurd (Visit.enter.inj same) here
          · apply ih.2 (List.mem_append_right _ (List.mem_cons_of_mem _ waiting)) inside
            exact fun before => (List.mem_cons.mp before).elim here fresh'
  | case4 visited b stack stale ih =>
      constructor
      · intro member
        rcases List.mem_cons.mp member with same | waiting
        · cases same
        · exact ih.1 waiting
      · intro member inside fresh
        rcases List.mem_cons.mp member with same | waiting
        · obtain rfl := Visit.enter.inj same
          exact absurd ⟨inside, fresh⟩ stale
        · exact ih.2 waiting inside fresh

end Namesake
