import Mathlib.Data.List.Nodup
import Namesake.Proofs.OverrideSearch

/-! # Override groups partition the instance methods

Methods are in a group twice over: they know its number, and it has them in its member set. Every
step of a build keeps the two in step (`OverrideGroups.InStep`), though a group that gives up its
members stays behind under its number. A step starts a group with a method that has none, and brings
into it whatever was in a group with one of the overrides (`OverrideGroups.Gathers`). In the end
every instance method is in exactly one group (`OverrideGroups.build_partitions`).
-/

namespace Namesake

/-! ## Member sets -/

namespace OverrideGroup

variable {group : OverrideGroup} {id m : MethodId}

theorem mem_members_single : m ∈ (single id).members ↔ m = id := by
  rw [members, SortedMap.mem_keys, single, SortedMap.contains_insert, SortedMap.contains,
    SortedMap.get?_empty, Option.isSome_none, Bool.or_false, decide_eq_true_eq, eq_comm]

theorem mem_members_extend {ids : List MethodId} :
    m ∈ (group.extend ids).members ↔ m ∈ ids ∨ m ∈ group.members := by
  rw [members, SortedMap.mem_keys, extend, SortedMap.contains, SortedMap.get?_foldl_insert, members,
    SortedMap.mem_keys, SortedMap.contains]
  by_cases added : m ∈ ids
  · simp [added]
  · simp [added]

theorem nodup_members : group.members.Nodup := group.memberSet.keys_nodup

end OverrideGroup

namespace OverrideGroups

variable {p : Program} {g g' : OverrideGroups} {a b c id m root : MethodId} {n group : Nat}
  {ids : List MethodId}

/-! ## Numbers and members -/

/-- Whether a method has a group. -/
def IsGrouped (g : OverrideGroups) (m : MethodId) : Prop := ∃ n, g.groupOf.get? m = some n

/-- Whether two methods are in the same group. -/
def Together (g : OverrideGroups) (a b : MethodId) : Prop :=
  ∃ n, g.groupOf.get? a = some n ∧ g.groupOf.get? b = some n

theorem Together.symm (together : g.Together a b) : g.Together b a := by
  obtain ⟨n, first, second⟩ := together
  exact ⟨n, second, first⟩

theorem Together.trans (together : g.Together a b) (further : g.Together b c) :
    g.Together a c := by
  obtain ⟨n, first, second⟩ := together
  obtain ⟨n', third, fourth⟩ := further
  obtain rfl := Option.some.inj (second.symm.trans third)
  exact ⟨n, first, fourth⟩

theorem IsGrouped.together (grouped : g.IsGrouped m) : g.Together m m := by
  obtain ⟨n, found⟩ := grouped
  exact ⟨n, found, found⟩

theorem Together.left (together : g.Together a b) : g.IsGrouped a := by
  obtain ⟨n, found, -⟩ := together
  exact ⟨n, found⟩

theorem Together.right (together : g.Together a b) : g.IsGrouped b := together.symm.left

theorem not_isGrouped_iff : ¬ g.IsGrouped m ↔ g.groupOf.get? m = none := by
  rw [Option.eq_none_iff_forall_ne_some, IsGrouped, not_exists]

/-- The numbers of the methods and the member sets of the groups say the same, and a group that has
members has its archetype. -/
structure InStep (g : OverrideGroups) : Prop where
  filed : ∀ {m : MethodId} {n : Nat}, g.groupOf.get? m = some n ↔
    ∃ group, g.started[n]? = some group ∧ m ∈ group.members
  archetype : ∀ {n : Nat} {group}, g.started[n]? = some group → group.members ≠ [] →
    group.archetype ∈ group.members

theorem inStep_empty : InStep empty where
  filed := ⟨fun found => (nomatch found), fun ⟨_, found, _⟩ => (nomatch found)⟩
  archetype found := nomatch found

theorem InStep.lt (inStep : g.InStep) (found : g.groupOf.get? m = some n) :
    n < g.started.length := by
  obtain ⟨group, present, -⟩ := inStep.filed.mp found
  exact (List.getElem?_eq_some_iff.mp present).1

/-! ## Steps -/

theorem InStep.start (inStep : g.InStep) (fresh : ¬ g.IsGrouped id) : (g.start id).InStep where
  filed {m n} := by
    simp only [OverrideGroups.start, SortedMap.get?_insert]
    by_cases last : n = g.started.length
    · subst last
      have unfiled : ¬ g.groupOf.get? m = some g.started.length :=
        fun found => Nat.lt_irrefl _ (inStep.lt found)
      by_cases same : id = m
      · simp [same, OverrideGroup.mem_members_single]
      · simp [same, unfiled, OverrideGroup.mem_members_single, eq_comm]
    · have unstarted : (g.started ++ [OverrideGroup.single id])[n]? = g.started[n]? := by
        rcases Nat.lt_or_ge n g.started.length with before | beyond
        · exact List.getElem?_append_left before
        · rw [List.getElem?_eq_none beyond, List.getElem?_eq_none]
          rw [List.length_append, List.length_singleton]
          omega
      rw [unstarted, ← inStep.filed]
      by_cases same : id = m
      · subst same
        rw [if_pos rfl, not_isGrouped_iff.mp fresh]
        simp [eq_comm, last]
      · rw [if_neg same]
  archetype {n group} found _ := by
    rw [OverrideGroups.start, List.getElem?_append] at found
    split_ifs at found
    · exact inStep.archetype found ‹_›
    · obtain rfl := List.mem_singleton.mp (List.mem_of_getElem? found)
      exact OverrideGroup.mem_members_single.mpr rfl

theorem get?_put : (g.put group ids).groupOf.get? m =
    if m ∈ ids then some group else g.groupOf.get? m :=
  SortedMap.get?_foldl_insert ids group g.groupOf m

/-- A change to one group that leaves it its archetype leaves all archetypes. -/
theorem map_archetype_modify (change : OverrideGroup → OverrideGroup)
    (keeps : ∀ group, (change group).archetype = group.archetype) (started : List OverrideGroup)
    (n : Nat) : (started.modify n change).map (·.archetype) = started.map (·.archetype) := by
  apply List.ext_getElem?
  intro n'
  rw [List.getElem?_map, List.getElem?_modify, List.getElem?_map]
  cases started[n']? with
  | none => rfl
  | some group =>
      simp only [Option.map_eq_map, Option.map_some]
      split_ifs
      · rw [keeps]
      · rfl

theorem archetypes_put : (g.put group ids).archetypes = g.archetypes :=
  map_archetype_modify (·.extend ids) (fun _ => rfl) g.started group

/-- Methods that no member set has can be put into a group that has members. -/
theorem inStep_put {home : OverrideGroup}
    (filed : ∀ {m : MethodId} {n : Nat}, m ∉ ids →
      (g.groupOf.get? m = some n ↔ ∃ group, g.started[n]? = some group ∧ m ∈ group.members))
    (archetype : ∀ {n : Nat} {group}, g.started[n]? = some group → group.members ≠ [] →
      group.archetype ∈ group.members)
    (absent : ∀ m ∈ ids, ∀ {n : Nat} {group}, g.started[n]? = some group → m ∉ group.members)
    (present : g.started[group]? = some home) (inhabited : home.members ≠ []) :
    (g.put group ids).InStep where
  filed {m n} := by
    rw [get?_put, put]
    simp only [List.getElem?_modify, Option.map_eq_map, Option.map_eq_some_iff]
    by_cases added : m ∈ ids
    · rw [if_pos added]
      constructor
      · intro same
        obtain rfl := Option.some.inj same
        refine ⟨_, ⟨home, present, if_pos rfl⟩, ?_⟩
        exact OverrideGroup.mem_members_extend.mpr (.inl added)
      · rintro ⟨_, ⟨former, found, rfl⟩, member⟩
        split_ifs at member with here
        · rw [here]
        · exact (absent m added found member).elim
    · rw [if_neg added, filed added]
      constructor
      · rintro ⟨former, found, member⟩
        refine ⟨_, ⟨former, found, rfl⟩, ?_⟩
        split_ifs
        · exact OverrideGroup.mem_members_extend.mpr (.inr member)
        · exact member
      · rintro ⟨_, ⟨former, found, rfl⟩, member⟩
        refine ⟨former, found, ?_⟩
        split_ifs at member
        · exact (OverrideGroup.mem_members_extend.mp member).resolve_left added
        · exact member
  archetype {n entered} found nonempty := by
    rw [put, List.getElem?_modify, Option.map_eq_map, Option.map_eq_some_iff] at found
    obtain ⟨former, found, rfl⟩ := found
    split_ifs at nonempty ⊢ with here
    · subst here
      obtain rfl := Option.some.inj (present.symm.trans found)
      exact OverrideGroup.mem_members_extend.mpr (.inr (archetype found inhabited))
    · exact archetype found nonempty

/-- Once a group gave up its members, the groups that have any are where they were. -/
theorem getElem?_of_emptied {started : List OverrideGroup} {left : Nat} {former : OverrideGroup}
    (found : (started.modify left (·.emptied))[n]? = some former)
    (inhabited : former.members ≠ []) : n ≠ left ∧ started[n]? = some former := by
  rw [List.getElem?_modify, Option.map_eq_map, Option.map_eq_some_iff] at found
  obtain ⟨before, found, rfl⟩ := found
  split_ifs at inhabited ⊢ with here
  · exact (inhabited rfl).elim
  · exact ⟨fun same => here same.symm, found⟩

section

variable (inStep : g.InStep)

include inStep

/-- The members of a group are the methods with its number. -/
theorem InStep.mem_members_getD :
    m ∈ (g.started.getD n default).members ↔ g.groupOf.get? m = some n := by
  rw [inStep.filed, List.getD_eq_getElem?_getD]
  cases g.started[n]? with
  | none => exact ⟨fun member => (nomatch member), fun ⟨_, found, _⟩ => (nomatch found)⟩
  | some group => simp

/-- The members of the group of a method are the methods it is together with. -/
theorem InStep.mem_group?_iff {found : OverrideGroup} (entered : g.group? a = some found) :
    b ∈ found.members ↔ g.Together a b := by
  obtain ⟨n, numbered, rfl⟩ := Option.map_eq_some_iff.mp entered
  rw [inStep.mem_members_getD]
  constructor
  · intro second
    exact ⟨n, numbered, second⟩
  · rintro ⟨n', first, second⟩
    rwa [Option.some.inj (numbered.symm.trans first)]

/-- A method without group is put into a group that has members. -/
theorem InStep.put (home : g.groupOf.get? root = some group) (fresh : ¬ g.IsGrouped id) :
    (g.put group [id]).InStep := by
  obtain ⟨entered, present, rooted⟩ := inStep.filed.mp home
  refine inStep_put (fun _ => inStep.filed) inStep.archetype ?_ present (List.ne_nil_of_mem rooted)
  intro m added n former found member
  obtain rfl := List.mem_singleton.mp added
  exact fresh ⟨n, inStep.filed.mpr ⟨former, found, member⟩⟩

/-- The members of a group move to another that has members. -/
theorem InStep.move {left : Nat} (home : g.groupOf.get? root = some group) (other : left ≠ group) :
    (g.move left group).InStep := by
  obtain ⟨entered, present, rooted⟩ := inStep.filed.mp home
  have moved : ∀ {m}, m ∈ (g.started.getD left default).members ↔ g.groupOf.get? m = some left :=
    inStep.mem_members_getD
  have kept : ∀ {n}, n ≠ left → (g.started.modify left (·.emptied))[n]? = g.started[n]? :=
    fun apart => List.getElem?_modify_ne _ _ (Ne.symm apart)
  refine inStep_put ?filed ?archetype ?absent ((kept (Ne.symm other)).trans present)
    (List.ne_nil_of_mem rooted)
  case filed =>
    intro m n stays
    rw [moved] at stays
    rw [inStep.filed]
    constructor
    · rintro ⟨former, found, member⟩
      have apart : n ≠ left := by
        intro same
        exact stays (inStep.filed.mpr ⟨former, same ▸ found, member⟩)
      exact ⟨former, (kept apart).trans found, member⟩
    · rintro ⟨former, found, member⟩
      obtain ⟨-, found⟩ := getElem?_of_emptied found (List.ne_nil_of_mem member)
      exact ⟨former, found, member⟩
  case archetype =>
    intro n former found inhabited
    exact inStep.archetype (getElem?_of_emptied found inhabited).2 inhabited
  case absent =>
    intro m leaves n former found member
    obtain ⟨apart, found⟩ := getElem?_of_emptied found (List.ne_nil_of_mem member)
    have filed := inStep.filed.mpr ⟨former, found, member⟩
    exact apart (Option.some.inj (filed.symm.trans (moved.mp leaves)))

theorem InStep.join (home : g.groupOf.get? root = some group) (id : MethodId) :
    (g.join group id).InStep := by
  unfold OverrideGroups.join
  split
  · next fresh => exact inStep.put home (not_isGrouped_iff.mpr fresh)
  · split_ifs with same
    · exact inStep
    · exact inStep.move home same

/-- A method that joins a group, and what was in a group with it, get the number of the group. -/
theorem InStep.get?_join_of_touched (touched : m = id ∨ g.Together id m) :
    (g.join group id).groupOf.get? m = some group := by
  unfold OverrideGroups.join
  split
  · next fresh =>
    have same : m = id := touched.resolve_right fun together =>
      not_isGrouped_iff.mpr fresh together.left
    rw [get?_put, if_pos (List.mem_singleton.mpr same)]
  · next current found =>
    have filed : g.groupOf.get? m = some current := by
      rcases touched with rfl | ⟨n, first, second⟩
      · exact found
      · rw [second, ← first, found]
    split_ifs with same
    · rw [filed, same]
    · rw [OverrideGroups.move, get?_put, if_pos (inStep.mem_members_getD.mpr filed)]

/-- All other methods keep their numbers. -/
theorem InStep.get?_join_of_untouched (apart : m ≠ id) (untouched : ¬ g.Together id m) :
    (g.join group id).groupOf.get? m = g.groupOf.get? m := by
  unfold OverrideGroups.join
  split
  · rw [get?_put, if_neg (mt List.mem_singleton.mp apart)]
  · next current found =>
    split_ifs
    · rfl
    · rw [OverrideGroups.move, get?_put, if_neg]
      intro moved
      exact untouched ⟨current, found, inStep.mem_members_getD.mp moved⟩

end

theorem archetypes_join (group : Nat) (id : MethodId) :
    (g.join group id).archetypes = g.archetypes := by
  unfold OverrideGroups.join
  split
  · exact archetypes_put
  · split_ifs
    · rfl
    · exact archetypes_put.trans (map_archetype_modify (·.emptied) (fun _ => rfl) g.started _)

/-! ## Discoveries -/

/-- Whether a method is one of a list, or is in a group with one of them. -/
def Meets (g : OverrideGroups) (ids : List MethodId) (m : MethodId) : Prop :=
  ∃ id ∈ ids, m = id ∨ g.Together id m

theorem Meets.of_together (meets : g.Meets ids a) (together : g.Together a b) : g.Meets ids b := by
  obtain ⟨id, member, rfl | before⟩ := meets
  · exact ⟨a, member, .inr together⟩
  · exact ⟨id, member, .inr (before.trans together)⟩

/-- Methods, and what was in a group with one of them, are gathered in a new group. -/
structure Gathers (g : OverrideGroups) (root : MethodId) (ids : List MethodId)
    (g' : OverrideGroups) : Prop where
  inStep : g'.InStep
  archetypes : g'.archetypes = g.archetypes ++ [root]
  gathered : ∀ {m}, g.Meets (root :: ids) m → g'.groupOf.get? m = some g.started.length
  others : ∀ {m}, ¬ g.Meets (root :: ids) m → g'.groupOf.get? m = g.groupOf.get? m

theorem InStep.gathers_start (inStep : g.InStep) (fresh : ¬ g.IsGrouped root) :
    g.Gathers root [] (g.start root) := by
  have alone : ∀ {m}, g.Meets [root] m ↔ m = root := by
    intro m
    constructor
    · rintro ⟨id, member, meets⟩
      obtain rfl := List.mem_singleton.mp member
      exact meets.resolve_right fun together => fresh together.left
    · rintro rfl
      exact ⟨m, List.mem_singleton_self m, .inl rfl⟩
  refine ⟨inStep.start fresh, ?_, ?_, ?_⟩
  · rw [OverrideGroups.archetypes, OverrideGroups.start, List.map_append]
    rfl
  · intro m meets
    rw [OverrideGroups.start, alone.mp meets, SortedMap.get?_insert_self]
  · intro m apart
    rw [OverrideGroups.start, SortedMap.get?_insert_of_ne]
    exact fun same => apart (alone.mpr same.symm)

/-- One more method is gathered. -/
theorem Gathers.join (gathers : g.Gathers root ids g') (inStep : g.InStep) (id : MethodId) :
    g.Gathers root (ids ++ [id]) (g'.join g.started.length id) := by
  have further : ∀ {m}, g.Meets (root :: (ids ++ [id])) m ↔
      g.Meets (root :: ids) m ∨ m = id ∨ g.Together id m := by
    intro m
    simp [Meets, or_and_right, exists_or, or_assoc]
  have home : g'.groupOf.get? root = some g.started.length :=
    gathers.gathered ⟨root, List.mem_cons_self, .inl rfl⟩
  refine ⟨gathers.inStep.join home id, (archetypes_join _ _).trans gathers.archetypes, ?_, ?_⟩
  · intro m meets
    by_cases before : g.Meets (root :: ids) m
    · have numbered := gathers.gathered before
      by_cases touched : m = id ∨ g'.Together id m
      · exact gathers.inStep.get?_join_of_touched touched
      · rw [not_or] at touched
        rw [gathers.inStep.get?_join_of_untouched touched.1 touched.2, numbered]
    · apply gathers.inStep.get?_join_of_touched
      refine ((further.mp meets).resolve_left before).imp_right ?_
      rintro together
      have apart : ¬ g.Meets (root :: ids) id := fun met => before (met.of_together together)
      obtain ⟨n, first, second⟩ := together
      exact ⟨n, (gathers.others apart).trans first, (gathers.others before).trans second⟩
  · intro m apart
    rw [further, not_or, not_or] at apart
    obtain ⟨before, other, untouched⟩ := apart
    have numbered := gathers.others before
    rw [gathers.inStep.get?_join_of_untouched other ?_, numbered]
    rintro ⟨n, first, second⟩
    rw [numbered] at second
    by_cases met : g.Meets (root :: ids) id
    · -- the number of the new group was not given before
      obtain rfl := Option.some.inj ((gathers.gathered met).symm.trans first)
      exact Nat.lt_irrefl _ (inStep.lt second)
    · exact untouched ⟨n, (gathers.others met).symm.trans first, second⟩

/-- **A discovery gathers a method and its overrides.** -/
theorem InStep.gathers_discover (inStep : g.InStep) (subtypes : SortedMap TypeId (List TypeId))
    (owner : TypeId) (fresh : ¬ g.IsGrouped id) :
    g.Gathers id (p.overrides subtypes owner id) (g.discover p subtypes owner id) := by
  have all : ∀ {done g'}, g.Gathers id done g' → ∀ ids : List MethodId,
      g.Gathers id (done ++ ids) (ids.foldl (·.join g.started.length) g') := by
    intro done g' gathers ids
    induction ids generalizing done g' with
    | nil =>
        rw [List.append_nil]
        exact gathers
    | cons first rest ih =>
        have joined := ih (gathers.join inStep first)
        rw [List.append_assoc, List.singleton_append] at joined
        exact joined
  have ungrouped : ¬ g.groupOf.contains id = true := by
    rw [SortedMap.contains_iff]
    exact fresh
  rw [OverrideGroups.discover, if_neg ungrouped]
  exact all (inStep.gathers_start fresh) _

section

variable (gathers : g.Gathers root ids g')

include gathers

theorem Gathers.isGrouped_iff : g'.IsGrouped m ↔ g.IsGrouped m ∨ m = root ∨ m ∈ ids := by
  by_cases meets : g.Meets (root :: ids) m
  · have grouped : g'.IsGrouped m := ⟨_, gathers.gathered meets⟩
    obtain ⟨id, member, rfl | together⟩ := meets
    · exact ⟨fun _ => .inr (List.mem_cons.mp member), fun _ => grouped⟩
    · exact ⟨fun _ => .inl together.right, fun _ => grouped⟩
  · have apart : ¬ (m = root ∨ m ∈ ids) := fun member =>
      meets ⟨m, List.mem_cons.mpr member, .inl rfl⟩
    rw [IsGrouped, gathers.others meets, ← IsGrouped, or_iff_left apart]

/-- Two methods are in one group if they were before, or if both have been gathered. -/
theorem Gathers.together_iff (inStep : g.InStep) : g'.Together a b ↔
    g.Together a b ∨ g.Meets (root :: ids) a ∧ g.Meets (root :: ids) b := by
  constructor
  · rintro ⟨n, first, second⟩
    -- where only one of them was gathered, the other would have had the number of the new group
    by_cases meets : g.Meets (root :: ids) a <;> by_cases meets' : g.Meets (root :: ids) b
    · exact .inr ⟨meets, meets'⟩
    · rw [gathers.gathered meets] at first
      rw [gathers.others meets', ← first] at second
      exact absurd (inStep.lt second) (Nat.lt_irrefl _)
    · rw [gathers.gathered meets'] at second
      rw [gathers.others meets, ← second] at first
      exact absurd (inStep.lt first) (Nat.lt_irrefl _)
    · exact .inl ⟨n, (gathers.others meets).symm.trans first,
        (gathers.others meets').symm.trans second⟩
  · rintro (⟨n, first, second⟩ | ⟨meets, meets'⟩)
    · by_cases meets : g.Meets (root :: ids) a
      · have meets' := meets.of_together ⟨n, first, second⟩
        exact ⟨_, gathers.gathered meets, gathers.gathered meets'⟩
      · have apart : ¬ g.Meets (root :: ids) b := fun met =>
          meets (met.of_together (Together.symm ⟨n, first, second⟩))
        exact ⟨n, (gathers.others meets).trans first, (gathers.others apart).trans second⟩
    · exact ⟨_, gathers.gathered meets, gathers.gathered meets'⟩

/-- What is gathered ends up in one group. -/
theorem Gathers.together (first : a = root ∨ a ∈ ids) (second : b = root ∨ b ∈ ids) :
    g'.Together a b :=
  ⟨_, gathers.gathered ⟨a, List.mem_cons.mpr first, .inl rfl⟩,
    gathers.gathered ⟨b, List.mem_cons.mpr second, .inl rfl⟩⟩

/-- An equivalence that holds inside the groups, and between the root and whatever is gathered,
still holds inside the groups. -/
theorem Gathers.respects (inStep : g.InStep) {rel : MethodId → MethodId → Prop}
    (equivalence : Equivalence rel) (before : ∀ a b, g.Together a b → rel a b)
    (close : ∀ m ∈ ids, rel root m) (a b : MethodId) (together : g'.Together a b) : rel a b := by
  have rooted : ∀ {m}, g.Meets (root :: ids) m → rel root m := by
    rintro m ⟨id, member, met⟩
    have reached : rel root id := by
      rcases List.mem_cons.mp member with rfl | gathered
      · exact equivalence.refl id
      · exact close id gathered
    rcases met with rfl | together
    · exact reached
    · exact equivalence.trans reached (before id m together)
  rcases (gathers.together_iff inStep).mp together with former | ⟨first, second⟩
  · exact before a b former
  · exact equivalence.trans (equivalence.symm (rooted first)) (rooted second)

end

/-! ## Builds -/

/-- A step of a build: the first method of a type that has no group is gathered with its
overrides. -/
structure Discovery (p : Program) (g : OverrideGroups) (owner : TypeId) (id : MethodId)
    (g' : OverrideGroups) : Prop where
  inStep : g.InStep
  inside : p.HasType owner
  fresh : ¬ g.IsGrouped id
  /-- What the type lists before the method has a group. -/
  next : ∃ before after, p.instanceMethods owner = before ++ id :: after ∧
    ∀ m ∈ before, g.IsGrouped m
  gathers : g.Gathers id (p.overrides p.subtypes owner id) g'

theorem Discovery.listed {owner : TypeId} (discovery : Discovery p g owner id g') :
    id ∈ p.instanceMethods owner := by
  obtain ⟨before, after, list, -⟩ := discovery.next
  rw [list]
  exact List.mem_append_right before List.mem_cons_self

section

variable {motive : OverrideGroups → Prop}
  (step : ∀ {g owner id g'}, motive g → Discovery p g owner id g' → motive g')

include step

/-- What every discovery keeps is kept while the methods of a type are gone through, and each of
them gets a group. -/
private theorem discoverAll {owner : TypeId} (inside : p.HasType owner)
    {before rest : List MethodId} (list : p.instanceMethods owner = before ++ rest)
    (inStep : g.InStep) (known : motive g) (grouped : ∀ m ∈ before, g.IsGrouped m) :
    let g' := rest.foldl (discover p p.subtypes owner) g
    g'.InStep ∧ motive g' ∧ (∀ m, g.IsGrouped m → g'.IsGrouped m) ∧ ∀ m ∈ rest, g'.IsGrouped m := by
  induction rest generalizing g before with
  | nil => exact ⟨inStep, known, fun m kept => kept, fun m member => (nomatch member)⟩
  | cons first rest ih =>
      have shifted : p.instanceMethods owner = (before ++ [first]) ++ rest := by
        rw [list, List.append_assoc, List.singleton_append]
      by_cases present : g.IsGrouped first
      · have skipped : g.discover p p.subtypes owner first = g := by
          rw [discover, if_pos (SortedMap.contains_iff.mpr present)]
        rw [List.foldl_cons, skipped]
        have grouped' : ∀ m ∈ before ++ [first], g.IsGrouped m := by
          intro m member
          rcases List.mem_append.mp member with earlier | here
          · exact grouped m earlier
          · rwa [List.mem_singleton.mp here]
        obtain ⟨inStep', known', kept, all⟩ := ih shifted inStep known grouped'
        exact ⟨inStep', known', kept, List.forall_mem_cons.mpr ⟨kept first present, all⟩⟩
      · have gathers := inStep.gathers_discover (p := p) p.subtypes owner present
        have discovery : Discovery p g owner first (g.discover p p.subtypes owner first) :=
          ⟨inStep, inside, present, ⟨before, rest, list, grouped⟩, gathers⟩
        have grows : ∀ m, g.IsGrouped m ∨ m = first →
            (g.discover p p.subtypes owner first).IsGrouped m := by
          intro m grouped
          exact gathers.isGrouped_iff.mpr (grouped.imp_right .inl)
        have grouped' : ∀ m ∈ before ++ [first],
            (g.discover p p.subtypes owner first).IsGrouped m := by
          intro m member
          rcases List.mem_append.mp member with earlier | here
          · exact grows m (.inl (grouped m earlier))
          · exact grows m (.inr (List.mem_singleton.mp here))
        obtain ⟨inStep', known', kept, all⟩ :=
          ih shifted gathers.inStep (step known discovery) grouped'
        refine ⟨inStep', known', fun m grouped => kept m (grows m (.inl grouped)), ?_⟩
        exact List.forall_mem_cons.mpr ⟨kept first (grows first (.inr rfl)), all⟩

/-- The same for the methods of all types of a list. -/
private theorem discoverTypes {types : List TypeId} (inside : ∀ t ∈ types, p.HasType t)
    (inStep : g.InStep) (known : motive g) :
    let g' := types.foldl (fun g t => (p.instanceMethods t).foldl (discover p p.subtypes t) g) g
    g'.InStep ∧ motive g' ∧ (∀ m, g.IsGrouped m → g'.IsGrouped m) ∧
      ∀ t ∈ types, ∀ m ∈ p.instanceMethods t, g'.IsGrouped m := by
  induction types generalizing g with
  | nil => exact ⟨inStep, known, fun m kept => kept, fun t member => (nomatch member)⟩
  | cons first rest ih =>
      obtain ⟨here, later⟩ := List.forall_mem_cons.mp inside
      have list : p.instanceMethods first = [] ++ p.instanceMethods first := rfl
      obtain ⟨inStep', known', kept, all⟩ :=
        discoverAll step here list inStep known fun m member => nomatch member
      obtain ⟨inStep'', known'', kept', all'⟩ := ih later inStep' known'
      refine ⟨inStep'', known'', fun m grouped => kept' m (kept m grouped), ?_⟩
      exact List.forall_mem_cons.mpr ⟨fun m member => kept' m (all m member), all'⟩

private theorem build_all (known : motive empty) : (build p).InStep ∧ motive (build p) ∧
    ∀ t, p.HasType t → ∀ m ∈ p.instanceMethods t, (build p).IsGrouped m := by
  have inside : ∀ t ∈ p.supertypesFirst, p.HasType t := by
    intro t listed
    rcases mem_of_mem_postorder listed with member | waiting
    · exact Program.mem_typeIds.mp member
    · obtain ⟨t, -, impossible⟩ := List.mem_map.mp waiting
      cases impossible
  obtain ⟨inStep, known', -, all⟩ := discoverTypes step inside inStep_empty known
  refine ⟨inStep, known', ?_⟩
  intro t inside
  have member := Program.mem_typeIds.mpr inside
  exact all t (mem_postorder_of_stack.2 (List.mem_map_of_mem member) member List.not_mem_nil)

/-- **What every discovery keeps holds of the groups of a program.** -/
theorem build_induction (known : motive empty) : motive (build p) := (build_all step known).2.1

end

/-- The groups of a program are in step. -/
theorem inStep_build (p : Program) : (build p).InStep :=
  (build_all (p := p) (motive := fun _ => True) (fun _ _ => trivial) trivial).1

/-- **Exactly the instance methods have groups.** -/
theorem isGrouped_build_iff (coherent : p.Coherent) :
    (build p).IsGrouped m ↔ p.IsInstanceMethod m := by
  constructor
  · have all : ∀ m, (build p).IsGrouped m → p.IsInstanceMethod m := by
      refine build_induction (motive := fun g => ∀ m, g.IsGrouped m → p.IsInstanceMethod m) ?_ ?_
      · intro g owner id g' known discovery m grouped
        rcases discovery.gathers.isGrouped_iff.mp grouped with before | rfl | found
        · exact known m before
        · exact (coherent.mem_instanceMethods_iff.mp discovery.listed).1
        · exact (coherent.of_mem_overrides found).1
      · rintro m ⟨n, found⟩
        cases found
    exact all m
  · intro inside
    have listed := coherent.mem_instanceMethods_iff.mpr ⟨inside, rfl⟩
    have owned := coherent.hasType_methodOwner inside.1
    exact (build_all (motive := fun _ => True) (fun _ _ => trivial) trivial).2.2 _ owned m listed

/-- An equivalence between methods and their overrides holds inside the groups. -/
theorem respects_build {rel : MethodId → MethodId → Prop} (equivalence : Equivalence rel)
    (close : ∀ t, p.HasType t → ∀ m ∈ p.instanceMethods t, ∀ o ∈ p.overrides p.subtypes t m,
      rel m o) (together : (build p).Together a b) : rel a b := by
  have all : ∀ a b, (build p).Together a b → rel a b := by
    refine build_induction (motive := fun g => ∀ a b, g.Together a b → rel a b) ?_ ?_
    · intro g owner id g' known discovery
      exact discovery.gathers.respects discovery.inStep equivalence known
        (close owner discovery.inside id discovery.listed)
    · rintro a b ⟨n, found, -⟩
      cases found
  exact all a b together

/-! ## The partition -/

theorem isSome_group?_iff : (g.group? m).isSome = true ↔ g.IsGrouped m := by
  rw [group?, Option.isSome_map, Option.isSome_iff_exists, IsGrouped]

theorem mem_groups {entered : OverrideGroup} :
    entered ∈ g.groups ↔ entered ∈ g.started ∧ entered.members ≠ [] := by
  rw [groups, List.mem_filter, Bool.not_eq_true', List.isEmpty_eq_false_iff]

section

variable (inStep : g.InStep)

include inStep

/-- The group of a method is the one that has it as a member. -/
theorem InStep.group?_eq_some_iff {entered : OverrideGroup} :
    g.group? m = some entered ↔ entered ∈ g.groups ∧ m ∈ entered.members := by
  rw [mem_groups]
  constructor
  · intro found
    have member : m ∈ entered.members := by
      have grouped := isSome_group?_iff.mp (Option.isSome_of_eq_some found)
      exact (inStep.mem_group?_iff found).mpr grouped.together
    obtain ⟨n, numbered, rfl⟩ := Option.map_eq_some_iff.mp found
    refine ⟨⟨?_, List.ne_nil_of_mem member⟩, member⟩
    rw [List.getD_eq_getElem?_getD, List.getElem?_eq_getElem (inStep.lt numbered), Option.getD_some]
    exact List.getElem_mem _
  · rintro ⟨⟨listed, -⟩, member⟩
    obtain ⟨n, found⟩ := List.mem_iff_getElem?.mp listed
    rw [group?, inStep.filed.mpr ⟨entered, found, member⟩, Option.map_some,
      List.getD_eq_getElem?_getD, found, Option.getD_some]

/-- Methods that have a group have the same group if they are in one together. -/
theorem InStep.group?_eq_iff (grouped : g.IsGrouped a) :
    g.group? a = g.group? b ↔ g.Together a b := by
  constructor
  · intro same
    obtain ⟨group, found⟩ := Option.isSome_iff_exists.mp (isSome_group?_iff.mpr grouped)
    exact (inStep.mem_group?_iff found).mp (inStep.group?_eq_some_iff.mp (same ▸ found)).2
  · rintro ⟨n, first, second⟩
    rw [group?, first, group?, second]

/-- No method is in two groups. -/
theorem InStep.disjoint_groups : g.groups.Pairwise fun a b => ∀ m ∈ a.members, m ∉ b.members := by
  apply List.Pairwise.filter
  rw [List.pairwise_iff_getElem]
  intro i j insideI insideJ before m first second
  have atI := inStep.filed.mpr ⟨_, List.getElem?_eq_getElem insideI, first⟩
  have atJ := inStep.filed.mpr ⟨_, List.getElem?_eq_getElem insideJ, second⟩
  exact Nat.ne_of_lt before (Option.some.inj (atI.symm.trans atJ))

theorem InStep.archetype_mem {entered : OverrideGroup} (listed : entered ∈ g.groups) :
    entered.archetype ∈ entered.members := by
  obtain ⟨started, inhabited⟩ := mem_groups.mp listed
  obtain ⟨n, found⟩ := List.mem_iff_getElem?.mp started
  exact inStep.archetype found inhabited

/-- Different groups have different archetypes. -/
theorem InStep.nodup_archetypes : (g.groups.map (·.archetype)).Nodup := by
  rw [List.nodup_iff_pairwise_ne, List.pairwise_map]
  apply inStep.disjoint_groups.imp_of_mem
  intro a b listed listed' disjoint same
  apply disjoint _ (inStep.archetype_mem listed)
  rw [same]
  exact inStep.archetype_mem listed'

end

/-- Having the same name is an equivalence, also where initializers are only like themselves. -/
theorem equivalence_dispatched (p : Program) : Equivalence fun a b =>
    a = b ∨ (p.method a).name = (p.method b).name ∧ ¬ p.IsInitializer a where
  refl a := .inl rfl
  symm := by
    rintro a b (rfl | ⟨same, dispatched⟩)
    · exact .inl rfl
    · rw [Program.IsInitializer, same] at dispatched
      exact .inr ⟨same.symm, dispatched⟩
  trans := by
    rintro a b c (rfl | ⟨same, dispatched⟩) further
    · exact further
    · rcases further with rfl | ⟨same', -⟩
      · exact .inr ⟨same, dispatched⟩
      · exact .inr ⟨same.trans same', dispatched⟩

/-- Methods in one group have the same name, and an initializer is in no group with another
method. -/
theorem eq_or_same_name_of_together (coherent : p.Coherent) (together : (build p).Together a b) :
    a = b ∨ (p.method a).name = (p.method b).name ∧ ¬ p.IsInitializer a := by
  refine respects_build (equivalence_dispatched p) ?_ together
  intro t inside m listed o found
  obtain ⟨-, same, dispatched⟩ := coherent.of_mem_overrides found
  exact .inr ⟨same.symm, dispatched⟩

/-- The groups divide the instance methods of a program among them. -/
structure Partitions (g : OverrideGroups) (p : Program) : Prop where
  grouped : ∀ m, (g.group? m).isSome = true ↔ p.IsInstanceMethod m
  disjoint : g.groups.Pairwise fun a b => ∀ m ∈ a.members, m ∉ b.members
  covers : ∀ m, p.IsInstanceMethod m ↔ ∃ group ∈ g.groups, m ∈ group.members
  /-- The group of a method is the one it is a member of. -/
  own : ∀ m group, g.group? m = some group ↔ group ∈ g.groups ∧ m ∈ group.members
  archetype : ∀ group ∈ g.groups, group.archetype ∈ group.members
  archetypes : (g.groups.map (·.archetype)).Nodup
  named : ∀ group ∈ g.groups, ∀ a ∈ group.members, ∀ b ∈ group.members,
    (p.method a).name = (p.method b).name
  /-- Constructors and static initializers are by themselves. -/
  alone : ∀ m, p.IsInstanceMethod m → p.IsInitializer m →
    ∃ group, g.group? m = some group ∧ group.members = [m]

/-- **The override groups of a valid program partition its instance methods**, whatever cycles its
hierarchy has. -/
theorem build_partitions (valid : p.validate = .ok ()) : (build p).Partitions p := by
  have coherent := Program.coherent_of_validate valid
  have inStep := inStep_build p
  have grouped : ∀ m, ((build p).group? m).isSome = true ↔ p.IsInstanceMethod m :=
    fun m => isSome_group?_iff.trans (isGrouped_build_iff coherent)
  have own : ∀ m group, (build p).group? m = some group ↔
      group ∈ (build p).groups ∧ m ∈ group.members := fun m group => inStep.group?_eq_some_iff
  refine ⟨grouped, inStep.disjoint_groups, ?covers, own, fun group => inStep.archetype_mem,
    inStep.nodup_archetypes, ?named, ?alone⟩
  case covers =>
    intro m
    rw [← grouped, Option.isSome_iff_exists]
    exact exists_congr fun group => own m group
  case named =>
    intro group listed a member b member'
    have together := (inStep.mem_group?_iff ((own a group).mpr ⟨listed, member⟩)).mp member'
    rcases eq_or_same_name_of_together coherent together with rfl | ⟨same, -⟩
    · rfl
    · exact same
  case alone =>
    intro m inside initial
    obtain ⟨group, found⟩ := Option.isSome_iff_exists.mp ((grouped m).mpr inside)
    refine ⟨group, found, List.perm_singleton.mp ?_⟩
    rw [List.perm_ext_iff_of_nodup OverrideGroup.nodup_members (List.nodup_singleton m)]
    intro m'
    rw [inStep.mem_group?_iff found, List.mem_singleton]
    constructor
    · intro together
      rcases eq_or_same_name_of_together coherent together with same | ⟨-, dispatched⟩
      · exact same.symm
      · exact (dispatched initial).elim
    · rintro rfl
      exact ((isGrouped_build_iff coherent).mpr inside).together

/-- Two classes that extend each other have their methods partitioned. -/
theorem build_partitions_of_ring : Program.ring.validate = .ok () ∧
    (build Program.ring).Partitions Program.ring :=
  ⟨Program.validate_ring, build_partitions Program.validate_ring⟩

end OverrideGroups

end Namesake
