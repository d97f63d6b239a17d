import Namesake.Merge.Referrers
import Namesake.Proofs.OverridePartition

/-! # What the indexes of a build hold

The reference index and the override groups are worked out once, by going through a coherent
program. Whatever they list is part of the program: references lead to what it has, referrers are
methods of it, and so are the members of a group and its archetype.
-/

namespace Namesake

variable {p : Program}

/-! ## Referrers -/

namespace ReferenceIndex

/-- All referrers are part of a program. -/
def IsWithin (index : ReferenceIndex) (p : Program) : Prop :=
  ∀ r m, m ∈ index.referrers r → p.HasMethod m

theorem referrers_insert (index : ReferenceIndex) (r r' : Reference) (referrers : List MethodId) :
    ReferenceIndex.referrers ⟨index.entries.insert r referrers⟩ r' =
      if r = r' then referrers else index.referrers r' := by
  rw [ReferenceIndex.referrers, SortedMap.getD, SortedMap.get?_insert]
  split_ifs <;> rfl

variable {m id : MethodId} {r : Reference}

theorem mem_referrers_note (index : ReferenceIndex) (made : Reference) :
    m ∈ (index.note id made).referrers r ↔ m ∈ index.referrers r ∨ m = id ∧ r = made := by
  unfold note
  split_ifs with known
  · rw [or_iff_left_of_imp]
    rintro ⟨rfl, rfl⟩
    exact List.contains_iff_mem.mp known
  · rw [referrers_insert]
    split_ifs with same
    · subst same
      rw [List.mem_append, List.mem_singleton, and_iff_left rfl]
    · rw [or_iff_left]
      exact fun noted => same noted.2.symm

theorem mem_referrers_notes (index : ReferenceIndex) (made : List Reference) :
    m ∈ (made.foldl (·.note id ·) index).referrers r ↔
      m ∈ index.referrers r ∨ m = id ∧ r ∈ made := by
  induction made generalizing index with
  | nil => rw [List.foldl_nil, or_iff_left (fun noted => List.not_mem_nil noted.2)]
  | cons first rest ih =>
      rw [List.foldl_cons, ih, mem_referrers_note, List.mem_cons, and_or_left, or_assoc]

/-- **The index of a program is exact.** The referrers of something are the methods that refer to
it. -/
theorem mem_referrers_build : m ∈ (build p).referrers r ↔ p.HasMethod m ∧ r ∈ p.referencesOf m := by
  have scanned : ∀ (ids : List MethodId) (index : ReferenceIndex),
      m ∈ (ids.foldl (fun index id => (p.referencesOf id).foldl (·.note id ·) index)
        index).referrers r ↔ m ∈ index.referrers r ∨ m ∈ ids ∧ r ∈ p.referencesOf m := by
    intro ids
    induction ids with
    | nil =>
        intro index
        rw [List.foldl_nil, or_iff_left (fun made => List.not_mem_nil made.1)]
    | cons id rest ih =>
        intro index
        rw [List.foldl_cons, ih, mem_referrers_notes, List.mem_cons, or_and_right, or_assoc]
        refine or_congr_right (or_congr_left (and_congr_right ?_))
        rintro rfl
        rfl
  have none_yet : m ∉ ReferenceIndex.referrers ⟨∅⟩ r := List.not_mem_nil
  rw [build, scanned, or_iff_right none_yet, Program.mem_methodIds]

/-- The referrers of the index of a program are its methods. -/
theorem isWithin_build (p : Program) : (build p).IsWithin p :=
  fun _ _ member => (mem_referrers_build.mp member).1

end ReferenceIndex

/-! ## References -/

/-- What a reference leads to is part of a program, unless it leads outside. -/
def Reference.IsWithin (p : Program) : Reference → Prop
  | read f | write f => p.HasField f
  | invoke m => p.HasMethod m
  | create t | createArray t => p.HasType t
  | external _ _ => True

namespace Program.Coherent

variable (coherent : p.Coherent)

include coherent

theorem isWithin_fieldReference (inside : FieldId → Reference) (use : Use) (r : MemberRef)
    (leads : ∀ f, p.HasField f → (inside f).IsWithin p) :
    (p.fieldReference inside use r).IsWithin p := by
  unfold fieldReference
  split
  · next f found =>
    obtain ⟨t, -, found⟩ := Option.bind_eq_some_iff.mp found
    exact leads f (coherent.hasField_of_findField? found)
  · trivial

omit coherent in
theorem isWithin_callReference {r : MemberRef} {found? : Option MethodId}
    (leads : ∀ m, found? = some m → p.HasMethod m) : (callReference r found?).IsWithin p := by
  cases found? with
  | none => trivial
  | some m => exact leads m rfl

theorem isWithin_creation {inside : TypeId → Reference} {use : Use} {name? : Option String}
    {r : Reference} (member : r ∈ p.creation inside use name?)
    (leads : ∀ t, p.HasType t → (inside t).IsWithin p) : r.IsWithin p := by
  unfold creation at member
  split at member
  · cases member
  · split at member
    · next t named =>
      obtain rfl := List.mem_singleton.mp member
      exact leads t (coherent.named named).1
    · obtain rfl := List.mem_singleton.mp member
      trivial

theorem isWithin_statementReferences {statement : Statement} {r : Reference}
    (member : r ∈ p.statementReferences statement) : r.IsWithin p := by
  unfold statementReferences at member
  split at member
  · obtain rfl := List.mem_singleton.mp member
    exact coherent.isWithin_fieldReference .write .write _ fun f written => written
  · obtain rfl := List.mem_singleton.mp member
    exact coherent.isWithin_fieldReference .write .write _ fun f written => written
  · cases member

theorem isWithin_instructionReferences {instruction : Instruction} {r : Reference}
    (member : r ∈ p.instructionReferences instruction) : r.IsWithin p := by
  have fields : ∀ r, (p.fieldReference .read .read r).IsWithin p :=
    fun r => coherent.isWithin_fieldReference .read .read r fun f read => read
  unfold instructionReferences at member
  split at member
  · obtain rfl := List.mem_singleton.mp member
    exact fields _
  · obtain rfl := List.mem_singleton.mp member
    exact fields _
  · obtain rfl := List.mem_singleton.mp member
    apply isWithin_callReference
    intro m found
    obtain ⟨t, -, found⟩ := Option.bind_eq_some_iff.mp found
    exact coherent.hasMethod_of_findMethod? found
  · obtain rfl := List.mem_singleton.mp member
    apply isWithin_callReference
    intro m found
    obtain ⟨t, -, found⟩ := Option.bind_eq_some_iff.mp found
    exact coherent.hasMethod_of_findStaticMethod? found
  · exact coherent.isWithin_creation member fun t created => created
  · exact coherent.isWithin_creation member fun t created => created
  · exact coherent.isWithin_creation member fun t created => created
  · cases member

theorem isWithin_of_mem_referencesOf {id : MethodId} {r : Reference}
    (member : r ∈ p.referencesOf id) : r.IsWithin p := by
  rcases List.mem_append.mp member with written | used
  · obtain ⟨statement, -, member⟩ := List.mem_flatMap.mp written
    exact coherent.isWithin_statementReferences member
  · obtain ⟨instruction, -, member⟩ := List.mem_flatMap.mp used
    exact coherent.isWithin_instructionReferences member

end Program.Coherent

/-- The references the index of a program knows lead to what the program has. -/
theorem ReferenceIndex.isWithin_of_contains_build (coherent : p.Coherent) {r : Reference}
    (known : (build p).entries.contains r = true) : r.IsWithin p := by
  have all : ∀ r, (build p).entries.contains r = true → r.IsWithin p := by
    unfold build
    refine List.foldlRecOn (motive := fun (index : ReferenceIndex) =>
      ∀ r, index.entries.contains r = true → r.IsWithin p) _ _ (fun r known => nomatch known) ?_
    intro index within id _
    refine List.foldlRecOn (motive := fun (index : ReferenceIndex) =>
      ∀ r, index.entries.contains r = true → r.IsWithin p) _ _ within ?_
    intro index within made member r known
    unfold note at known
    split_ifs at known
    · exact within r known
    · rw [SortedMap.contains_insert, Bool.or_eq_true, decide_eq_true_eq] at known
      rcases known with rfl | before
      · exact coherent.isWithin_of_mem_referencesOf member
      · exact within r before
  exact all r known

/-! ## Methods by their owners -/

section

variable {methods : List MethodId}

/-- Each method stands under its owner. -/
theorem mem_of_byOwner {t : TypeId} {group : List MethodId}
    (found : (byOwner p methods).get? t = some group) {m : MethodId} (member : m ∈ group) :
    m ∈ methods := by
  have all : ∀ t group, (byOwner p methods).get? t = some group → ∀ m ∈ group, m ∈ methods := by
    refine List.foldlRecOn
      (motive := fun (map : SortedMap TypeId (List MethodId)) =>
        ∀ t group, map.get? t = some group → ∀ m ∈ group, m ∈ methods) _ _ ?_ ?_
    · exact fun t group found => nomatch found
    · intro map within id listed t group found m member
      dsimp only at found
      rw [SortedMap.get?_insert] at found
      split_ifs at found
      · obtain rfl := Option.some.inj found
        rcases List.mem_append.mp member with before | added
        · rw [SortedMap.getD] at before
          cases present : map.get? (p.method id).owner with
          | none =>
              rw [present] at before
              cases before
          | some former =>
              rw [present] at before
              exact within _ former present m before
        · obtain rfl := List.mem_singleton.mp added
          exact listed
      · exact within t group found m member
  exact all t group found m member

/-- Every owner owns one of the methods. -/
theorem exists_of_mem_keys_byOwner {t : TypeId} (member : t ∈ (byOwner p methods).keys) :
    ∃ m ∈ methods, (p.method m).owner = t := by
  have all : ∀ t, (byOwner p methods).contains t = true →
      ∃ m ∈ methods, (p.method m).owner = t := by
    refine List.foldlRecOn
      (motive := fun (map : SortedMap TypeId (List MethodId)) =>
        ∀ t, map.contains t = true → ∃ m ∈ methods, (p.method m).owner = t) _ _ ?_ ?_
    · exact fun t inside => nomatch inside
    · intro map within id listed t inside
      dsimp only at inside
      rw [SortedMap.contains_insert, Bool.or_eq_true, decide_eq_true_eq] at inside
      rcases inside with owned | before
      · exact ⟨id, listed, owned⟩
      · exact within t before
  exact all t (SortedMap.mem_keys.mp member)

end

/-! ## Override groups -/

namespace OverrideGroups

variable {m : MethodId}

/-- The members of the groups of a program are its own. -/
theorem hasMethod_of_mem_group (coherent : p.Coherent) {id : MethodId} {group : OverrideGroup}
    (found : (build p).group? id = some group) (member : m ∈ group.members) : p.HasMethod m := by
  have together := (inStep_build p).mem_group?_iff found |>.mp member
  exact ((isGrouped_build_iff coherent).mp together.right).1

/-- So are their archetypes. -/
theorem hasMethod_of_mem_archetypes (coherent : p.Coherent) (member : m ∈ (build p).archetypes) :
    p.HasMethod m := by
  have all : ∀ m ∈ (build p).archetypes, p.HasMethod m := by
    refine build_induction (motive := fun g => ∀ m ∈ g.archetypes, p.HasMethod m) ?_ ?_
    · intro g owner id g' known discovery m member
      rw [discovery.gathers.archetypes] at member
      rcases List.mem_append.mp member with before | added
      · exact known m before
      · obtain rfl := List.mem_singleton.mp added
        exact (coherent.mem_instanceMethods_iff.mp discovery.listed).1.1
    · exact fun m member => nomatch member
  exact all m member

/-- The number of a group is that of its archetype. -/
theorem lt_length_archetypes {n : Nat} (found : (build p).groupOf.get? m = some n) :
    n < (build p).archetypes.length := by
  rw [archetypes, List.length_map]
  exact (inStep_build p).lt found

end OverrideGroups

end Namesake
