import Namesake.Program.Nesting
import Namesake.Proofs.Exploring
import Namesake.Proofs.Lookups

/-! # Noting lookups

A number that is out of range stands for a blank entry, so a function that looks one up gives a
result all the same. What is looked up can be told from traced functions: they are written like the
plain ones, in a monad that notes every lookup together with the program it is made in (`Traced`).
Two things are shown of each of them. Its value is what the plain function gives, whatever the
program is like; and in a coherent program all its lookups are in range (`Traced.InRange`).

Here this is done for the hierarchy, for members and how they are found, and for nesting.
-/

namespace Namesake

/-- Something is looked up in a program by its number. -/
inductive Lookup where
  | type (p : Program) (t : TypeId)
  | method (p : Program) (m : MethodId)
  | field (p : Program) (f : FieldId)

/-- What is looked up is part of the program it is looked up in. -/
def Lookup.InRange : Lookup → Prop
  | type p t => p.HasType t
  | method p m => p.HasMethod m
  | field p f => p.HasField f

/-- A value, and what is looked up on the way to it. -/
structure Traced (α : Type) where
  value : α
  lookups : List Lookup

namespace Traced

variable {α β : Type}

instance : Monad Traced where
  pure a := ⟨a, []⟩
  bind x next := ⟨(next x.value).value, x.lookups ++ (next x.value).lookups⟩

instance : LawfulMonad Traced :=
  .mk' Traced (fun x => congrArg (Traced.mk x.value) (List.append_nil _)) (fun _ _ => rfl)
    (fun x next last => congrArg (Traced.mk _) (List.append_assoc ..))

/-- All lookups are in range. -/
def InRange (x : Traced α) : Prop := ∀ look ∈ x.lookups, look.InRange

@[simp]
theorem value_pure (a : α) : (pure a : Traced α).value = a := rfl

@[simp]
theorem value_bind (x : Traced α) (next : α → Traced β) :
    (x >>= next).value = (next x.value).value := rfl

@[simp]
theorem value_map (f : α → β) (x : Traced α) : (f <$> x).value = f x.value := rfl

@[simp]
theorem inRange_pure (a : α) : (pure a : Traced α).InRange := fun _ looked => nomatch looked

@[simp]
theorem inRange_bind {x : Traced α} {next : α → Traced β} :
    (x >>= next).InRange ↔ x.InRange ∧ (next x.value).InRange :=
  List.forall_mem_append

@[simp]
theorem inRange_map {f : α → β} {x : Traced α} : (f <$> x).InRange ↔ x.InRange := by
  rw [map_eq_pure_bind, inRange_bind, and_iff_left (inRange_pure _)]

/-! ## Going through lists -/

section

variable {l : List α}

@[simp]
theorem value_mapM (f : α → Traced β) (l : List α) :
    (l.mapM f).value = l.map fun a => (f a).value := by
  induction l with
  | nil => rfl
  | cons a rest ih => simp [List.mapM_cons, ih]

@[simp]
theorem inRange_mapM {f : α → Traced β} : (l.mapM f).InRange ↔ ∀ a ∈ l, (f a).InRange := by
  induction l with
  | nil => simp
  | cons a rest ih => simp [List.mapM_cons, ih]

@[simp]
theorem value_flatMapM (f : α → Traced (List β)) (l : List α) :
    (l.flatMapM f).value = l.flatMap fun a => (f a).value := by
  induction l with
  | nil => rfl
  | cons a rest ih => simp [List.flatMapM_cons, ih]

@[simp]
theorem inRange_flatMapM {f : α → Traced (List β)} :
    (l.flatMapM f).InRange ↔ ∀ a ∈ l, (f a).InRange := by
  induction l with
  | nil => simp
  | cons a rest ih => simp [List.flatMapM_cons, ih]

@[simp]
theorem value_filterMapM (f : α → Traced (Option β)) (l : List α) :
    (l.filterMapM f).value = l.filterMap fun a => (f a).value := by
  induction l with
  | nil => rfl
  | cons a rest ih =>
      rw [List.filterMapM_cons, value_bind, List.filterMap_cons]
      cases (f a).value <;> simp [ih]

@[simp]
theorem inRange_filterMapM {f : α → Traced (Option β)} :
    (l.filterMapM f).InRange ↔ ∀ a ∈ l, (f a).InRange := by
  induction l with
  | nil => simp
  | cons a rest ih =>
      rw [List.filterMapM_cons, inRange_bind, List.forall_mem_cons]
      cases (f a).value <;> simp [ih]

/-- The items of a list that pass a test. -/
def filter (test : α → Traced Bool) (l : List α) : Traced (List α) :=
  l.filterMapM fun a => do return if ← test a then some a else none

@[simp]
theorem value_filter (test : α → Traced Bool) (l : List α) :
    (filter test l).value = l.filter fun a => (test a).value := by
  rw [filter, value_filterMapM, ← List.filterMap_eq_filter]
  rfl

@[simp]
theorem inRange_filter {test : α → Traced Bool} :
    (filter test l).InRange ↔ ∀ a ∈ l, (test a).InRange := by
  simp [filter]

@[simp]
theorem value_findSomeM? (f : α → Traced (Option β)) (l : List α) :
    (l.findSomeM? f).value = l.findSome? fun a => (f a).value := by
  induction l with
  | nil => rfl
  | cons a rest ih =>
      rw [List.findSomeM?_cons, value_bind, List.findSome?_cons]
      cases (f a).value with
      | none => exact ih
      | some b => rfl

/-- A search for the first result looks up no more than what the items before it take. -/
theorem inRange_findSomeM? {f : α → Traced (Option β)} (each : ∀ a ∈ l, (f a).InRange) :
    (l.findSomeM? f).InRange := by
  induction l with
  | nil => exact inRange_pure none
  | cons a rest ih =>
      rw [List.forall_mem_cons] at each
      rw [List.findSomeM?_cons, inRange_bind]
      refine ⟨each.1, ?_⟩
      cases (f a).value with
      | none => exact ih each.2
      | some b => exact inRange_pure _

@[simp]
theorem value_findM? (test : α → Traced Bool) (l : List α) :
    (l.findM? test).value = l.find? fun a => (test a).value := by
  induction l with
  | nil => rfl
  | cons a rest ih =>
      rw [List.findM?, value_bind, List.find?_cons]
      cases (test a).value with
      | false => exact ih
      | true => rfl

/-- A search for the first item looks up no more than what testing them takes. -/
theorem inRange_findM? {test : α → Traced Bool} (each : ∀ a ∈ l, (test a).InRange) :
    (l.findM? test).InRange := by
  induction l with
  | nil => exact inRange_pure none
  | cons a rest ih =>
      rw [List.forall_mem_cons] at each
      rw [List.findM?, inRange_bind]
      refine ⟨each.1, ?_⟩
      cases (test a).value with
      | false => exact ih each.2
      | true => exact inRange_pure _

@[simp]
theorem value_foldlM (f : β → α → Traced β) (b : β) (l : List α) :
    (l.foldlM f b).value = l.foldl (fun b a => (f b a).value) b := by
  induction l generalizing b with
  | nil => rfl
  | cons a rest ih => rw [List.foldlM_cons, value_bind, ih, List.foldl_cons]

/-- A fold looks up what its steps do, each where what they keep still holds. -/
theorem inRange_foldlM_of_keeps {f : β → α → Traced β} {motive : β → Prop}
    (each : ∀ b, motive b → ∀ a ∈ l, (f b a).InRange ∧ motive (f b a).value) {b : β}
    (holds : motive b) : (l.foldlM f b).InRange := by
  induction l generalizing b with
  | nil => exact inRange_pure b
  | cons a rest ih =>
      obtain ⟨looked, kept⟩ := each b holds a List.mem_cons_self
      rw [List.foldlM_cons, inRange_bind]
      exact ⟨looked, ih (fun b holds a later => each b holds a (.tail _ later)) kept⟩

theorem inRange_foldlM {f : β → α → Traced β} (each : ∀ b, ∀ a ∈ l, (f b a).InRange) (b : β) :
    (l.foldlM f b).InRange :=
  inRange_foldlM_of_keeps (motive := fun _ => True)
    (fun b _ a listed => ⟨each b a listed, trivial⟩) trivial

/-- Go on with what was found, if anything was. -/
def following (found : Option α) (next : α → Traced (Option β)) : Traced (Option β) :=
  match found with
  | some a => next a
  | none => pure none

@[simp]
theorem value_following (found : Option α) (next : α → Traced (Option β)) :
    (following found next).value = found >>= fun a => (next a).value := by
  cases found <;> rfl

@[simp]
theorem inRange_following {found : Option α} {next : α → Traced (Option β)} :
    (following found next).InRange ↔ ∀ a, found = some a → (next a).InRange := by
  cases found <;> simp [following]

/-- Go on where a test holds. -/
def guarded (test : Prop) [Decidable test] (next : Traced (Option α)) : Traced (Option α) :=
  if test then next else pure none

@[simp]
theorem value_guarded (test : Prop) {_ : Decidable test} (next : Traced (Option α)) :
    (guarded test next).value = guard test >>= fun _ => next.value := by
  unfold guarded
  split_ifs with holds <;> simp [holds]

@[simp]
theorem inRange_guarded {test : Prop} {_ : Decidable test} {next : Traced (Option α)} :
    (guarded test next).InRange ↔ (test → next.InRange) := by
  unfold guarded
  split_ifs with holds <;> simp [holds]

end

/-! ## Graphs -/

section

variable [DecidableEq α] (next : α → Traced (List α))

/-- Explore a graph. A node outside the universe is looked up before it is passed over. -/
def explore (nodes visited : List α) : (stack : List α) → Traced (List α)
  | [] => pure []
  | a :: stack =>
    if _seen : a ∈ visited then explore nodes visited stack
    else do
      let found ← next a
      if _inside : a ∈ nodes then return a :: (← explore nodes (a :: visited) (found ++ stack))
      else explore nodes visited stack
termination_by stack => ((unvisited nodes visited).length, stack.length)
decreasing_by
  · exact Prod.Lex.right _ (by simp)
  · exact Prod.Lex.left _ _ (unvisited_cons_lt _inside _seen)
  · exact Prod.Lex.right _ (by simp)

@[simp]
theorem value_explore (nodes visited stack : List α) :
    (explore next nodes visited stack).value =
      Namesake.explore (fun a => (next a).value) nodes visited stack := by
  fun_induction Namesake.explore (fun a => (next a).value) nodes visited stack with
  | case1 => rw [explore, value_pure]
  | case2 visited a stack fresh ih =>
      rw [explore, dif_neg fresh.2, value_bind, dif_pos fresh.1, value_bind, ih]
      rfl
  | case3 visited a stack passed ih =>
      rw [explore]
      by_cases seen : a ∈ visited
      · rw [dif_pos seen, ih]
      · rw [dif_neg seen, value_bind, dif_neg fun inside => passed ⟨inside, seen⟩, ih]

variable {next}

/-- Where nodes of a kind only lead to nodes of the kind, exploring from some of them looks up what
they take. -/
theorem inRange_explore {motive : α → Prop} {nodes visited stack : List α}
    (each : ∀ a, motive a → (next a).InRange ∧ ∀ b ∈ (next a).value, motive b)
    (all : ∀ a ∈ stack, motive a) : (explore next nodes visited stack).InRange := by
  fun_induction Namesake.explore (fun a => (next a).value) nodes visited stack with
  | case1 =>
      rw [explore]
      exact inRange_pure []
  | case2 visited a stack fresh ih =>
      rw [List.forall_mem_cons] at all
      obtain ⟨looked, leads⟩ := each a all.1
      rw [explore, dif_neg fresh.2, inRange_bind, dif_pos fresh.1, inRange_bind]
      exact ⟨looked, ih (List.forall_mem_append.mpr ⟨leads, all.2⟩), inRange_pure _⟩
  | case3 visited a stack passed ih =>
      rw [List.forall_mem_cons] at all
      rw [explore]
      by_cases seen : a ∈ visited
      · rw [dif_pos seen]
        exact ih all.2
      · rw [dif_neg seen, inRange_bind, dif_neg fun inside => passed ⟨inside, seen⟩]
        exact ⟨(each a all.1).1, ih all.2⟩

variable (next)

/-- List the nodes of a graph, each after what was first reached through it. -/
def postorder (nodes visited : List α) : (stack : List (Visit α)) → Traced (List α)
  | [] => pure []
  | .leave a :: stack => do return a :: (← postorder nodes visited stack)
  | .enter a :: stack =>
    if _seen : a ∈ visited then postorder nodes visited stack
    else do
      let found ← next a
      if _inside : a ∈ nodes then
        postorder nodes (a :: visited) (found.map .enter ++ .leave a :: stack)
      else postorder nodes visited stack
termination_by stack => ((unvisited nodes visited).length, stack.length)
decreasing_by
  · exact Prod.Lex.right _ (by simp)
  · exact Prod.Lex.right _ (by simp)
  · exact Prod.Lex.left _ _ (unvisited_cons_lt _inside _seen)
  · exact Prod.Lex.right _ (by simp)

@[simp]
theorem value_postorder (nodes visited : List α) (stack : List (Visit α)) :
    (postorder next nodes visited stack).value =
      Namesake.postorder (fun a => (next a).value) nodes visited stack := by
  fun_induction Namesake.postorder (fun a => (next a).value) nodes visited stack with
  | case1 => rw [postorder, value_pure]
  | case2 visited a stack ih =>
      rw [postorder, value_bind, ih]
      rfl
  | case3 visited a stack fresh ih =>
      rw [postorder, dif_neg fresh.2, value_bind, dif_pos fresh.1, ih]
  | case4 visited a stack passed ih =>
      rw [postorder]
      by_cases seen : a ∈ visited
      · rw [dif_pos seen, ih]
      · rw [dif_neg seen, value_bind, dif_neg fun inside => passed ⟨inside, seen⟩, ih]

variable {next}

/-- Listing a graph from nodes of a kind looks up what nodes of the kind take. -/
theorem inRange_postorder {motive : α → Prop} {nodes visited : List α} {stack : List (Visit α)}
    (each : ∀ a, motive a → (next a).InRange ∧ ∀ b ∈ (next a).value, motive b)
    (all : ∀ a, .enter a ∈ stack → motive a) : (postorder next nodes visited stack).InRange := by
  fun_induction Namesake.postorder (fun a => (next a).value) nodes visited stack with
  | case1 =>
      rw [postorder]
      exact inRange_pure []
  | case2 visited a stack ih =>
      rw [postorder, inRange_bind]
      exact ⟨ih fun b later => all b (.tail _ later), inRange_pure _⟩
  | case3 visited a stack fresh ih =>
      obtain ⟨looked, leads⟩ := each a (all a List.mem_cons_self)
      rw [postorder, dif_neg fresh.2, inRange_bind, dif_pos fresh.1]
      refine ⟨looked, ih fun b member => ?_⟩
      rcases List.mem_append.mp member with found | waiting
      · obtain ⟨b', led, same⟩ := List.mem_map.mp found
        obtain rfl := Visit.enter.inj same
        exact leads b' led
      · rcases List.mem_cons.mp waiting with impossible | later
        · cases impossible
        · exact all b (.tail _ later)
  | case4 visited a stack passed ih =>
      have rest := ih fun b later => all b (.tail _ later)
      rw [postorder]
      by_cases seen : a ∈ visited
      · rw [dif_pos seen]
        exact rest
      · rw [dif_neg seen, inRange_bind, dif_neg fun inside => passed ⟨inside, seen⟩]
        exact ⟨(each a (all a List.mem_cons_self)).1, rest⟩

end

end Traced

end Namesake
