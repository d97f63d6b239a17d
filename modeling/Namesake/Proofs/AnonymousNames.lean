import Namesake.Proofs.Projection

/-! # Numbering anonymous types

The names of anonymous types are gone through in order. A type has a longer name than the type
around it and starts with that, so it comes later (`TypeName.lt_of_outer?`), and when its turn comes
(`namesAt`) the type around it has the name it has in the end, or none for good. So an anonymous
type is left without a name only where the type around it is, at any depth; its number is the first
from its own on whose name is free at its turn; and names that are there stay
(`project_numbers_anonymous`).
-/

namespace Namesake

/-! ## Order -/

/-- A type comes after the type around it. -/
theorem TypeName.lt_of_outer? {name outer : String} (around : outer? name = some outer) :
    outer < name := by
  obtain ⟨⟨before, after⟩, split, rfl⟩ := Option.map_eq_some_iff.mp around
  have shorter : before ++ [] < before ++ '$' :: after :=
    List.append_left_lt (List.nil_lt_cons _ _)
  rw [List.append_nil, ← (Text.splitLast?_eq_some split).1] at shorter
  change (String.ofList before).toList < name.toList
  rwa [String.toList_ofList]

namespace Program

theorem mem_anonymousNames {p : Program} {x : String} : x ∈ p.anonymousNames ↔
    TypeName.isAnonymous x = true ∧ ∃ t, p.HasType t ∧ (p.type t).name = x := by
  rw [anonymousNames, List.mem_mergeSort, List.mem_filter, and_comm, List.mem_map]
  refine and_congr_right fun _ => ?_
  constructor
  · rintro ⟨entry, listed, named⟩
    obtain ⟨i, found⟩ := List.mem_iff_getElem?.mp listed
    obtain ⟨inside, rfl⟩ := type_eq_of_getElem? (t := ⟨i⟩) found
    exact ⟨⟨i⟩, inside, named⟩
  · rintro ⟨t, inside, named⟩
    obtain ⟨-, same⟩ := type_eq_of_getElem? (List.getElem?_eq_getElem inside)
    exact ⟨_, List.getElem_mem inside, same ▸ named⟩

/-- Anonymous types come in the order of their names. -/
theorem pairwise_anonymousNames (p : Program) : p.anonymousNames.Pairwise (· ≤ ·) := by
  have trans : ∀ a b c : String, decide (a ≤ b) = true → decide (b ≤ c) = true →
      decide (a ≤ c) = true := fun a b c first second =>
    decide_eq_true (String.le_trans (of_decide_eq_true first) (of_decide_eq_true second))
  have total : ∀ a b : String, (decide (a ≤ b) || decide (b ≤ a)) = true := by
    intro a b
    rw [Bool.or_eq_true, decide_eq_true_eq, decide_eq_true_eq]
    exact String.le_total a b
  have sorted := List.pairwise_mergeSort trans total
    ((p.types.map (·.name)).filter TypeName.isAnonymous)
  exact sorted.imp of_decide_eq_true

end Program

/-! ## Turns -/

/-- The names when the turn of an anonymous type comes. -/
def namesAt (turns : List String) (s : MappingSet) (x : String) : MappingSet :=
  (turns.takeWhile (· < x)).foldl nameAnonymous s

/-- Whether some type has a plain name. -/
def MappingSet.IsBorne (s : MappingSet) (plain : String) : Prop := ∃ x, s.mapType? x = some plain

section

variable {s : MappingSet} {turns : List String} {x y outer plain : String} {number : Nat}

/-- In a sorted list, what has its turn before a name is below it, and what comes later is not. -/
theorem split_at_turn (sorted : turns.Pairwise (· ≤ ·)) (listed : x ∈ turns) :
    ∃ rest, turns = turns.takeWhile (· < x) ++ x :: rest ∧ ∀ z ∈ rest, x ≤ z := by
  induction turns with
  | nil => cases listed
  | cons first rest ih =>
      obtain ⟨least, sorted'⟩ := List.pairwise_cons.mp sorted
      by_cases before : first < x
      · have later : x ∈ rest := by
          rcases List.mem_cons.mp listed with rfl | later
          · exact absurd before (String.lt_irrefl x)
          · exact later
        obtain ⟨after, split, above⟩ := ih sorted' later
        refine ⟨after, ?_, above⟩
        rw [List.takeWhile_cons, if_pos (decide_eq_true before), List.cons_append, ← split]
      · have same : first = x := by
          rcases List.mem_cons.mp listed with rfl | later
          · rfl
          · exact String.le_antisymm (least x later) (String.not_lt.mp before)
        subst same
        refine ⟨rest, ?_, least⟩
        rw [List.takeWhile_cons, if_neg (fun below => before (of_decide_eq_true below))]
        rfl

/-- A turn names no other type. -/
theorem mapType?_nameAnonymous_of_ne (other : y ≠ x) :
    (nameAnonymous s x).mapType? y = s.mapType? y := by
  rcases nameAnonymous_cases s x with same | ⟨plain, -, named⟩
  · rw [same]
  · rw [named, MappingSet.mapType?_addType, if_neg fun both => other both.2.symm]

theorem mapType?_foldl_of_not_mem (absent : y ∉ turns) :
    (turns.foldl nameAnonymous s).mapType? y = s.mapType? y := by
  induction turns generalizing s with
  | nil => rfl
  | cons first rest ih =>
      rw [List.mem_cons, not_or] at absent
      rw [List.foldl_cons, ih absent.2, mapType?_nameAnonymous_of_ne absent.1]

/-- A type has no turn before its own. -/
theorem mapType?_namesAt (turns : List String) (s : MappingSet) (x : String) :
    (namesAt turns s x).mapType? x = s.mapType? x := by
  apply mapType?_foldl_of_not_mem
  intro before
  have below := List.all_eq_true.mp List.all_takeWhile x before
  exact String.lt_irrefl x (of_decide_eq_true below)

/-- Both directions agree at every turn. -/
theorem MappingSet.Invertible.namesAt (invertible : s.Invertible) (turns : List String)
    (x : String) : (namesAt turns s x).Invertible := by
  refine List.foldlRecOn (motive := MappingSet.Invertible) _ _ invertible ?_
  intro s invertible y _
  rcases nameAnonymous_cases s y with same | ⟨plain, -, named⟩
  · rw [same]
    exact invertible
  · rw [named]
    exact invertible.addType y plain

/-- **A type that has its turn after the type around it was named is numbered.** -/
theorem mapType?_nameAnonymous (invertible : s.Invertible) (unnamed : s.mapType? x = none)
    (around : TypeName.outer? x = some outer) (named : s.mapType? outer = some plain)
    (numbered : TypeName.anonymousIndex? x = some number) :
    ∃ index, IsFirstFree s.IsBorne plain number index ∧ index ≤ number + s.inverse.size ∧
      (nameAnonymous s x).mapType? x = some (numberedName plain index) := by
  have taken : (· ∈ s.inverse.keys) = s.IsBorne := by
    funext q
    rw [SortedMap.mem_keys, SortedMap.contains_iff]
    exact propext (exists_congr fun y => (invertible y q).symm)
  obtain ⟨index, first, bound, chosen⟩ := freeNumberedName_first plain s.inverse.keys number
  rw [SortedMap.length_keys] at bound
  rw [taken] at first
  have free : s.IsFree x (numberedName plain index) := by
    refine ⟨unnamed, Option.eq_none_iff_forall_ne_some.mpr fun y bearer => ?_⟩
    exact first.free ⟨y, (invertible y _).mpr bearer⟩
  refine ⟨index, first, bound, ?_⟩
  have given : nameAnonymous s x = s.addType x (numberedName plain index) := by
    simp [nameAnonymous, unnamed, around, named, numbered, chosen]
  rw [given, MappingSet.mapType?_addType, if_pos ⟨free, rfl⟩]

/-- **An anonymous type gets the first free number at its turn** if the type around it is named in
the end: by then it has its name, as all that is still to come is not below. -/
theorem mapType?_foldl_nameAnonymous (invertible : s.Invertible)
    (sorted : turns.Pairwise (· ≤ ·)) (listed : x ∈ turns) (unnamed : s.mapType? x = none)
    (around : TypeName.outer? x = some outer)
    (named : (turns.foldl nameAnonymous s).mapType? outer = some plain)
    (numbered : TypeName.anonymousIndex? x = some number) :
    ∃ index, IsFirstFree (namesAt turns s x).IsBorne plain number index ∧
      index ≤ number + (namesAt turns s x).inverse.size ∧
      (turns.foldl nameAnonymous s).mapType? x = some (numberedName plain index) := by
  obtain ⟨rest, split, above⟩ := split_at_turn sorted listed
  have finally_ : turns.foldl nameAnonymous s =
      rest.foldl nameAnonymous (nameAnonymous (namesAt turns s x) x) := by
    conv_lhs => rw [split, List.foldl_append, List.foldl_cons]
    rfl
  have below := TypeName.lt_of_outer? around
  have settled : outer ∉ rest := fun member => above outer member below
  have other : outer ≠ x := by
    rintro rfl
    exact String.lt_irrefl outer below
  rw [finally_, mapType?_foldl_of_not_mem settled, mapType?_nameAnonymous_of_ne other] at named
  obtain ⟨index, first, bound, given⟩ := mapType?_nameAnonymous (invertible.namesAt turns x)
    ((mapType?_namesAt turns s x).trans unnamed) around named numbered
  refine ⟨index, first, bound, ?_⟩
  rw [finally_]
  exact (MappingSet.Extends.foldl extends_nameAnonymous rest _).type given

end

/-! ## The names of the new build -/

theorem MappingSet.Invertible.carriedOver {names : MappingSet} (invertible : names.Invertible)
    (c : Context) (l : Ledger) : (carriedOver c l names).Invertible :=
  MappingSet.KeptByAdding.foldl (fun _ (e : String × String) kept => kept.addType e.1 e.2) _
    invertible

/-- **Anonymous types are numbered after the types around them.** Whatever is confirmed and whatever
names the new build is known to have, where anonymous types are to be named

* the names that are there stay;
* an anonymous type is named in the end if the type around it is;
* a name that is not carried over from a confirmed pair is the final name of the type around with a
  number, which is the first one, from that of the type on, whose name was free at its turn, and is
  found after no more tries than there were names. -/
theorem project_numbers_anonymous (c : Context) (l : Ledger) (names : MappingSet)
    (invertible : names.Invertible) (wanted : c.settings.nameAnonymousClasses = true) :
    let new := c.new.program
    let carried := carriedOver c l names
    let output := project c l names
    (names.Extends carried ∧ carried.Extends output) ∧
    (∀ t, new.HasType t → TypeName.isAnonymous (new.type t).name = true →
      ∀ outer, TypeName.outer? (new.type t).name = some outer →
        (output.mapType? outer).isSome = true → (output.mapType? (new.type t).name).isSome = true) ∧
    ∀ x p, carried.mapType? x = none → output.mapType? x = some p →
      (TypeName.isAnonymous x = true ∧ ∃ t, new.HasType t ∧ (new.type t).name = x) ∧
      ∃ outer plain number index, TypeName.outer? x = some outer ∧
        output.mapType? outer = some plain ∧ TypeName.anonymousIndex? x = some number ∧
        p = numberedName plain index ∧
        IsFirstFree (namesAt new.anonymousNames carried x).IsBorne plain number index ∧
        index ≤ number + (namesAt new.anonymousNames carried x).inverse.size := by
  intro new carried output
  have invertible' : carried.Invertible := invertible.carriedOver c l
  have extends_ : carried.Extends output :=
    (carriedOver_extends_namedTypes c l names).trans (namedTypes_extends_project c l names)
  have inTurn : ∀ x, output.mapType? x =
      (new.anonymousNames.foldl nameAnonymous carried).mapType? x := by
    intro x
    rw [mapType?_project, namedTypes_eq, if_pos wanted]
  refine ⟨⟨extends_carriedOver c l names, extends_⟩, ?complete, ?formed⟩
  case complete =>
    intro t inside anonymous outer around named
    obtain ⟨plain, named⟩ := Option.isSome_iff_exists.mp named
    obtain ⟨number, numbered⟩ := Option.isSome_iff_exists.mp anonymous
    cases before : carried.mapType? (new.type t).name with
    | some p => exact Option.isSome_of_eq_some (extends_.type before)
    | none =>
        have listed := Program.mem_anonymousNames.mpr ⟨anonymous, t, inside, rfl⟩
        rw [inTurn] at named ⊢
        obtain ⟨index, -, -, given⟩ := mapType?_foldl_nameAnonymous invertible'
          new.pairwise_anonymousNames listed before around named numbered
        exact Option.isSome_of_eq_some given
  case formed =>
    intro x p unnamed named
    rw [inTurn] at named
    rcases isNumbered_of_mapType?_foldl named with before | ⟨listed, isNumbered⟩
    · rw [unnamed] at before
      cases before
    · obtain ⟨outer, plain, number, -, around, outerNamed, numbered, -⟩ := isNumbered
      obtain ⟨index, first, bound, given⟩ := mapType?_foldl_nameAnonymous invertible'
        new.pairwise_anonymousNames listed unnamed around outerNamed numbered
      have same : p = numberedName plain index := Option.some.inj (named.symm.trans given)
      refine ⟨Program.mem_anonymousNames.mp listed, outer, plain, number, index, around, ?_,
        numbered, same, first, bound⟩
      rw [inTurn]
      exact outerNamed

/-- An anonymous type inside another one, listed before it. -/
def Program.nested : Program where
  types := ["x$2$1", "x$2", "x"].map fun name =>
    { name, kind := .plain, superclass := none, interfaces := [], signature := none,
      enumConstants := [], methods := [], fields := [] }
  methods := []
  fields := []
  byName := .ofList [("x$2$1", ⟨0⟩), ("x$2", ⟨1⟩), ("x", ⟨2⟩)]

/-- Although its own number is taken, an anonymous type is named, and so is the one inside it. -/
theorem project_numbers_anonymous_of_nested :
    let c := Context.of .empty ∅ .nested .default
    let known := ((∅ : MappingSet).addType "x" "net/Foo").addType "q" "net/Foo$2"
    let output := project c ∅ known
    known.Invertible ∧ c.settings.nameAnonymousClasses = true ∧
      output.mapType? "q" = some "net/Foo$2" ∧ (output.mapType? "x$2").isSome = true ∧
      (output.mapType? "x$2$1").isSome = true := by
  intro c known output
  have invertible : known.Invertible :=
    (MappingSet.Invertible.empty.addType "x" "net/Foo").addType "q" "net/Foo$2"
  obtain ⟨⟨carries, stays⟩, complete, -⟩ :=
    project_numbers_anonymous c ∅ known invertible rfl
  have outermost : output.mapType? "x" = some "net/Foo" :=
    stays.type (carries.type (by decide +kernel))
  have outer := complete ⟨1⟩ (by decide) (by decide +kernel) "x" (by decide +kernel)
    (Option.isSome_of_eq_some outermost)
  have inner := complete ⟨0⟩ (by decide) (by decide +kernel) "x$2" (by decide +kernel) outer
  exact ⟨invertible, rfl, stays.type (carries.type (by decide +kernel)), outer, inner⟩

end Namesake
