import Namesake.Proofs.WellFormed

/-! # Building programs

A program is built by adding types, methods and fields to the empty one. A type is refused if its
name is taken, and a member if its owner is not there. What is not refused keeps the parts of the
program together, so whatever is built this way is valid
(`Program.validate_iff_and_afterAdditions`).
-/

namespace Namesake

/-- Something to add to a program. -/
inductive Addition where
  | type (decl : TypeDecl)
  | method (owner : TypeId) (decl : MethodDecl)
  | field (owner : TypeId) (decl : FieldDecl)

namespace Program

/-- Add something to a program. -/
def add (p : Program) : Addition → Except ModelError Program
  | .type decl => return (← p.addType decl).2
  | .method owner decl => return (← p.addMethod owner decl).2
  | .field owner decl => return (← p.addField owner decl).2

/-- The program after an attempt to add something. -/
def afterAddition (p : Program) (a : Addition) : Program :=
  match p.add a with
  | .ok p' => p'
  | .error _ => p

/-- The program after attempts to add several things, one after the other. -/
def afterAdditions (p : Program) (additions : List Addition) : Program :=
  additions.foldl afterAddition p

/-- Why an addition is refused. -/
inductive Refuses (p : Program) : Addition → ModelError → Prop
  | taken {decl : TypeDecl} {t : TypeId} (inside : p.HasType t)
      (same : (p.type t).name = decl.name) : Refuses p (.type decl) (.duplicateType decl.name)
  | methodAstray {owner : TypeId} {decl : MethodDecl} (outside : ¬ p.HasType owner) :
      Refuses p (.method owner decl) (.unknownType owner.index)
  | fieldAstray {owner : TypeId} {decl : FieldDecl} (outside : ¬ p.HasType owner) :
      Refuses p (.field owner decl) (.unknownType owner.index)

/-! ## What is added -/

/-- The program with one more type. -/
def withType (p : Program) (decl : TypeDecl) : Program :=
  { p with
    types := p.types ++ [{ decl with methods := [], fields := [] }]
    byName := p.byName.insert decl.name ⟨p.types.length⟩ }

/-- The program with one more method. -/
def withMethod (p : Program) (owner : TypeId) (decl : MethodDecl) : Program :=
  { p with
    types := p.types.modify owner.index fun t =>
      { t with methods := t.methods ++ [⟨p.methods.length⟩] }
    methods := p.methods ++ [{ decl with owner }] }

/-- The program with one more field. -/
def withField (p : Program) (owner : TypeId) (decl : FieldDecl) : Program :=
  { p with
    types := p.types.modify owner.index fun t =>
      { t with fields := t.fields ++ [⟨p.fields.length⟩] }
    fields := p.fields ++ [{ decl with owner }] }

variable {p p' : Program}

theorem add_type (p : Program) (decl : TypeDecl) : p.add (.type decl) =
    if p.byName.contains decl.name then .error (.duplicateType decl.name)
    else .ok (p.withType decl) := by
  rw [add, addType]
  split_ifs <;> rfl

theorem add_method (p : Program) (owner : TypeId) (decl : MethodDecl) :
    p.add (.method owner decl) =
      if p.HasType owner then .ok (p.withMethod owner decl)
      else .error (.unknownType owner.index) := by
  have asked : p.addMethod owner decl =
      if p.HasType owner then .ok (⟨p.methods.length⟩, p.withMethod owner decl)
      else .error (.unknownType owner.index) := rfl
  rw [add, asked]
  split_ifs <;> rfl

theorem add_field (p : Program) (owner : TypeId) (decl : FieldDecl) :
    p.add (.field owner decl) =
      if p.HasType owner then .ok (p.withField owner decl)
      else .error (.unknownType owner.index) := by
  have asked : p.addField owner decl =
      if p.HasType owner then .ok (⟨p.fields.length⟩, p.withField owner decl)
      else .error (.unknownType owner.index) := rfl
  rw [add, asked]
  split_ifs <;> rfl

/-- What an addition that is not refused does. -/
theorem cases_of_add {a : Addition} (added : p.add a = .ok p') :
    (∃ decl : TypeDecl, p.typeNamed? decl.name = none ∧ p' = p.withType decl) ∨
    (∃ owner decl, p.HasType owner ∧ p' = p.withMethod owner decl) ∨
    ∃ owner decl, p.HasType owner ∧ p' = p.withField owner decl := by
  cases a with
  | type decl =>
      rw [add_type] at added
      split_ifs at added with taken
      obtain rfl := Except.ok.inj added
      exact .inl ⟨decl, SortedMap.contains_eq_false_iff.mp (Bool.eq_false_iff.mpr taken), rfl⟩
  | method owner decl =>
      rw [add_method] at added
      split_ifs at added with inside
      obtain rfl := Except.ok.inj added
      exact .inr (.inl ⟨owner, decl, inside, rfl⟩)
  | field owner decl =>
      rw [add_field] at added
      split_ifs at added with inside
      obtain rfl := Except.ok.inj added
      exact .inr (.inr ⟨owner, decl, inside, rfl⟩)

/-! ## Looking things up afterwards -/

private theorem getD_concat {α : Type} (l : List α) (e d : α) (i : Nat) :
    (l ++ [e]).getD i d = if i = l.length then e else l.getD i d := by
  rw [List.getD_eq_getElem?_getD, List.getD_eq_getElem?_getD, List.getElem?_append]
  split_ifs with inside last beyond
  · exact absurd last (Nat.ne_of_lt inside)
  · rfl
  · rw [beyond, Nat.sub_self]
    rfl
  · have later : 1 ≤ i - l.length := by omega
    rw [List.getElem?_eq_none later, List.getElem?_eq_none (Nat.le_of_not_lt inside)]

theorem type_withType (decl : TypeDecl) (t : TypeId) :
    (p.withType decl).type t =
      if t.index = p.types.length then { decl with methods := [], fields := [] } else p.type t :=
  getD_concat ..

theorem method_withMethod (owner : TypeId) (decl : MethodDecl) (m : MethodId) :
    (p.withMethod owner decl).method m =
      if m.index = p.methods.length then { decl with owner } else p.method m :=
  getD_concat ..

theorem field_withField (owner : TypeId) (decl : FieldDecl) (f : FieldId) :
    (p.withField owner decl).field f =
      if f.index = p.fields.length then { decl with owner } else p.field f :=
  getD_concat ..

/-- Changing the entry of one type leaves the others alone. -/
theorem type_of_modify {t : TypeId} {f : TypeEntry → TypeEntry} (inside : p.HasType t)
    (types : p'.types = p.types.modify t.index f) (u : TypeId) :
    p'.type u = if u = t then f (p.type u) else p.type u := by
  rw [type, type, types, List.getD_eq_getElem?_getD, List.getElem?_modify]
  split_ifs with here same same
  · obtain rfl := same
    rw [List.getD_eq_getElem?_getD, List.getElem?_eq_getElem inside]
    rfl
  · exact absurd (congrArg TypeId.mk here).symm same
  · exact absurd (congrArg TypeId.index same).symm here
  · rw [List.getD_eq_getElem?_getD, Option.map_eq_map, Option.map_id']

theorem hasType_of_modify {t : TypeId} {f : TypeEntry → TypeEntry}
    (types : p'.types = p.types.modify t.index f) (u : TypeId) : p'.HasType u ↔ p.HasType u := by
  rw [HasType, HasType, types, List.length_modify]

/-! ## Lists of members afterwards -/

section

variable {ι : Type} [DecidableEq ι] {members : TypeEntry → List ι} {here here' : ι → Prop}
  {owner owner' : ι → TypeId}

omit [DecidableEq ι] in
private theorem perm_flatMap_modify {l : List TypeEntry} {i : Nat} {x : ι}
    {f : TypeEntry → TypeEntry} (inside : i < l.length)
    (lists : ∀ e, members (f e) = members e ++ [x]) :
    ((l.modify i f).flatMap members).Perm (x :: l.flatMap members) := by
  induction l generalizing i with
  | nil => exact absurd inside (Nat.not_lt_zero i)
  | cons first rest ih =>
      cases i with
      | zero =>
          rw [List.modify_zero_cons, List.flatMap_cons, List.flatMap_cons, lists, List.append_assoc]
          exact List.perm_middle
      | succ i =>
          rw [List.modify_succ_cons, List.flatMap_cons, List.flatMap_cons]
          have later := ih (Nat.lt_of_succ_lt_succ inside)
          exact (later.append_left _).trans List.perm_middle

/-- What leaves the members of a kind alone keeps their lists in order. -/
theorem ListsOnce.congr (once : p.ListsOnce members here owner)
    (all : p'.types.flatMap members = p.types.flatMap members)
    (each : ∀ t, members (p'.type t) = members (p.type t)) : p'.ListsOnce members here owner := by
  obtain ⟨resolves, single, byOwner⟩ := once
  refine ⟨?_, ?_, ?_⟩
  · rw [all]
    exact resolves
  · rw [all]
    exact single
  · intro x present
    rw [each]
    exact byOwner x present

/-- Changing the entry of one type elsewhere keeps the lists of a kind in order. -/
theorem ListsOnce.aside {t : TypeId} {f : TypeEntry → TypeEntry}
    (once : p.ListsOnce members here owner) (inside : p.HasType t)
    (types : p'.types = p.types.modify t.index f) (same : ∀ e, members (f e) = members e) :
    p'.ListsOnce members here owner := by
  have unchanged (l : List TypeEntry) (i : Nat) :
      (l.modify i f).flatMap members = l.flatMap members := by
    induction l generalizing i with
    | nil => rw [List.modify_nil]
    | cons first rest ih =>
        cases i with
        | zero => rw [List.modify_zero_cons, List.flatMap_cons, List.flatMap_cons, same]
        | succ i => rw [List.modify_succ_cons, List.flatMap_cons, List.flatMap_cons, ih]
  refine once.congr ?_ fun u => ?_
  · rw [types, unchanged]
  · rw [type_of_modify inside types]
    split_ifs
    · exact same _
    · rfl

/-- A new member that is put on the list of its owner keeps the lists of its kind in order. -/
theorem ListsOnce.listing {t : TypeId} {f : TypeEntry → TypeEntry} {x : ι}
    (once : p.ListsOnce members here owner) (inside : p.HasType t)
    (types : p'.types = p.types.modify t.index f) (lists : ∀ e, members (f e) = members e ++ [x])
    (fresh : ¬ here x) (known : ∀ y, here' y ↔ y = x ∨ here y)
    (owners : ∀ y, here y → owner' y = owner y) (owned : owner' x = t) :
    p'.ListsOnce members here' owner' := by
  have all : (p'.types.flatMap members).Perm (x :: p.types.flatMap members) := by
    rw [types]
    exact perm_flatMap_modify inside lists
  have grown (y : ι) (u : TypeId) (listed : y ∈ members (p.type u)) :
      y ∈ members (p'.type u) := by
    rw [type_of_modify inside types]
    split_ifs
    · rw [lists]
      exact List.mem_append_left _ listed
    · exact listed
  refine ⟨?_, ?_, ?_⟩
  · intro y member
    rw [all.mem_iff, List.mem_cons] at member
    exact (known y).mpr (member.imp_right (once.resolves y))
  · intro y present
    rw [all.count_eq, List.count_cons]
    rcases (known y).mp present with rfl | before
    · have unlisted : y ∉ p.types.flatMap members := fun member => fresh (once.resolves y member)
      rw [List.count_eq_zero_of_not_mem unlisted, beq_self_eq_true, if_pos rfl]
    · have other : (x == y) = false := by
        rw [beq_eq_false_iff_ne]
        rintro rfl
        exact fresh before
      rw [once.once y before, other]
      rfl
  · intro y present
    rcases (known y).mp present with rfl | before
    · rw [owned, type_of_modify inside types, if_pos rfl, lists]
      exact List.mem_append_right _ (List.mem_singleton_self y)
    · rw [owners y before]
      exact grown y _ (once.byOwner y before)

end

/-! ## Keeping the parts together -/

namespace WellFormed

theorem withType (formed : p.WellFormed) {decl : TypeDecl}
    (free : p.typeNamed? decl.name = none) : (p.withType decl).WellFormed := by
  have more (t : TypeId) :
      (p.withType decl).HasType t ↔ t.index = p.types.length ∨ p.HasType t := by
    rw [HasType, HasType, Program.withType, List.length_append, List.length_singleton]
    omega
  have unlisted {ι : Type} (members : TypeEntry → List ι) (none_ : members default = [])
      (bare : members { decl with methods := [], fields := [] } = []) :
      (p.withType decl).types.flatMap members = p.types.flatMap members ∧
        ∀ t, members ((p.withType decl).type t) = members (p.type t) := by
    refine ⟨?_, fun t => ?_⟩
    · rw [Program.withType, List.flatMap_append, List.flatMap_singleton, bare, List.append_nil]
    · rw [type_withType]
      split_ifs with last
      · rw [bare, type_eq_default (Nat.not_lt.mpr (Nat.le_of_eq last.symm)), none_]
      · rfl
  refine ⟨?indexed, ?methods, ?fields⟩
  case indexed =>
    intro name t
    have found : (p.withType decl).typeNamed? name =
        if decl.name = name then some ⟨p.types.length⟩ else p.typeNamed? name :=
      SortedMap.get?_insert ..
    rw [found, more, type_withType]
    split_ifs with same last last
    · exact ⟨fun _ => ⟨.inl last, same⟩, fun _ => congrArg (some ∘ TypeId.mk) last.symm⟩
    · refine ⟨fun this => absurd (congrArg TypeId.index (Option.some.inj this)).symm last, ?_⟩
      rintro ⟨inside, named⟩
      have indexed := (formed.indexed name t).mpr ⟨inside.resolve_left last, named⟩
      rw [← same, free] at indexed
      cases indexed
    · refine ⟨fun this => ?_, fun both => absurd both.2 same⟩
      obtain ⟨inside, -⟩ := (formed.indexed name t).mp this
      exact absurd last (Nat.ne_of_lt inside)
    · rw [formed.indexed, or_iff_right last]
  case methods =>
    obtain ⟨all, each⟩ := unlisted (·.methods) rfl rfl
    exact formed.methods.congr all each
  case fields =>
    obtain ⟨all, each⟩ := unlisted (·.fields) rfl rfl
    exact formed.fields.congr all each

/-- Changing what a type lists keeps the name index in order. -/
private theorem indexed_of_modify (formed : p.WellFormed) {t : TypeId} {f : TypeEntry → TypeEntry}
    (inside : p.HasType t) (types : p'.types = p.types.modify t.index f)
    (names : ∀ e, (f e).name = e.name) (index : p'.byName = p.byName) (name : String)
    (u : TypeId) : p'.typeNamed? name = some u ↔ p'.HasType u ∧ (p'.type u).name = name := by
  have named : (p'.type u).name = (p.type u).name := by
    rw [type_of_modify inside types]
    split_ifs
    · exact names _
    · rfl
  rw [typeNamed?, index, hasType_of_modify types, named]
  exact formed.indexed name u

theorem withMethod (formed : p.WellFormed) {owner : TypeId} (inside : p.HasType owner)
    (decl : MethodDecl) : (p.withMethod owner decl).WellFormed := by
  have last {m : MethodId} (present : p.HasMethod m) : m.index ≠ p.methods.length :=
    Nat.ne_of_lt present
  refine ⟨formed.indexed_of_modify inside rfl (fun _ => rfl) rfl, ?methods,
    formed.fields.aside inside rfl fun _ => rfl⟩
  case methods =>
    refine formed.methods.listing inside rfl (fun _ => rfl) (Nat.lt_irrefl _) ?known ?owners ?owned
    case known =>
      intro m
      have same : m = ⟨p.methods.length⟩ ↔ m.index = p.methods.length :=
        ⟨congrArg MethodId.index, congrArg MethodId.mk⟩
      rw [same, HasMethod, HasMethod, Program.withMethod, List.length_append,
        List.length_singleton]
      omega
    case owners =>
      intro m present
      rw [method_withMethod, if_neg (last present)]
    case owned => rw [method_withMethod, if_pos rfl]

theorem withField (formed : p.WellFormed) {owner : TypeId} (inside : p.HasType owner)
    (decl : FieldDecl) : (p.withField owner decl).WellFormed := by
  have last {f : FieldId} (present : p.HasField f) : f.index ≠ p.fields.length :=
    Nat.ne_of_lt present
  refine ⟨formed.indexed_of_modify inside rfl (fun _ => rfl) rfl,
    formed.methods.aside inside rfl fun _ => rfl, ?fields⟩
  case fields =>
    refine formed.fields.listing inside rfl (fun _ => rfl) (Nat.lt_irrefl _) ?known ?owners ?owned
    case known =>
      intro f
      have same : f = ⟨p.fields.length⟩ ↔ f.index = p.fields.length :=
        ⟨congrArg FieldId.index, congrArg FieldId.mk⟩
      rw [same, HasField, HasField, Program.withField, List.length_append, List.length_singleton]
      omega
    case owners =>
      intro f present
      rw [field_withField, if_neg (last present)]
    case owned => rw [field_withField, if_pos rfl]

/-- An attempt to add something keeps the parts of a program together. -/
theorem afterAddition (formed : p.WellFormed) (a : Addition) :
    (p.afterAddition a).WellFormed := by
  unfold Program.afterAddition
  cases added : p.add a with
  | error e => exact formed
  | ok p' =>
      obtain ⟨decl, free, rfl⟩ | ⟨owner, decl, inside, rfl⟩ | ⟨owner, decl, inside, rfl⟩ :=
        cases_of_add added
      · exact formed.withType free
      · exact formed.withMethod inside decl
      · exact formed.withField inside decl

theorem afterAdditions (formed : p.WellFormed) (additions : List Addition) :
    (p.afterAdditions additions).WellFormed := by
  induction additions generalizing p with
  | nil => exact formed
  | cons a rest ih => exact ih (formed.afterAddition a)

/-- A program whose parts fit together refuses an addition exactly if the name is taken or the owner
is not there. -/
theorem add_eq_error_iff (formed : p.WellFormed) {a : Addition} {e : ModelError} :
    p.add a = .error e ↔ p.Refuses a e := by
  constructor
  · intro refused
    cases a with
    | type decl =>
        rw [add_type] at refused
        split_ifs at refused with taken
        obtain rfl := Except.error.inj refused
        obtain ⟨t, found⟩ := SortedMap.contains_iff.mp taken
        obtain ⟨inside, same⟩ := (formed.indexed decl.name t).mp found
        exact .taken inside same
    | method owner decl =>
        rw [add_method] at refused
        split_ifs at refused with inside
        obtain rfl := Except.error.inj refused
        exact .methodAstray inside
    | field owner decl =>
        rw [add_field] at refused
        split_ifs at refused with inside
        obtain rfl := Except.error.inj refused
        exact .fieldAstray inside
  · intro refused
    cases refused with
    | @taken decl t inside same =>
        have found := (formed.indexed decl.name t).mpr ⟨inside, same⟩
        rw [add_type, if_pos (SortedMap.contains_of_get? found)]
    | methodAstray outside => rw [add_method, if_neg outside]
    | fieldAstray outside => rw [add_field, if_neg outside]

end WellFormed

theorem wellFormed_empty : empty.WellFormed where
  indexed name t := by
    constructor
    · intro found
      cases found
    · rintro ⟨inside, -⟩
      exact absurd inside (Nat.not_lt_zero _)
  methods := ⟨nofun, fun _ inside => absurd inside (Nat.not_lt_zero _),
    fun _ inside => absurd inside (Nat.not_lt_zero _)⟩
  fields := ⟨nofun, fun _ inside => absurd inside (Nat.not_lt_zero _),
    fun _ inside => absurd inside (Nat.not_lt_zero _)⟩

/-- **Validation accepts exactly the well-formed programs, and what is built is one of them.**
Whatever is attempted to be added to the empty program, in whatever order, the outcome passes
validation. Of the attempts, those fail whose name is taken or whose owner is not there, and a
failure leaves the program as it was. -/
theorem validate_iff_and_afterAdditions :
    (∀ p : Program, p.validate = .ok () ↔ p.WellFormed) ∧
    ∀ additions : List Addition,
      let built := empty.afterAdditions additions
      built.validate = .ok () ∧
      ∀ a e, (built.add a = .error e ↔ built.Refuses a e) ∧
        (built.Refuses a e → built.afterAddition a = built) := by
  refine ⟨fun _ => validate_eq_ok_iff, ?_⟩
  intro additions built
  have formed : built.WellFormed := wellFormed_empty.afterAdditions additions
  refine ⟨validate_eq_ok_iff.mpr formed, fun a e => ⟨formed.add_eq_error_iff, ?_⟩⟩
  intro refused
  rw [Program.afterAddition, formed.add_eq_error_iff.mpr refused]

end Program

end Namesake
