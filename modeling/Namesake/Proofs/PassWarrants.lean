import Namesake.Merge.Pass
import Namesake.Proofs.BuiltIndexes
import Namesake.Proofs.ComparisonBallots
import Namesake.Proofs.SoleCandidates
import Namesake.Proofs.Trails

/-! # Why the actions of passes are warranted

Apart from the collector, a pass decides what to do from the ledger it finds. In coherent programs
and a lawful ledger every action it decides on is warranted (`Pass.warranted_of_plan?`): its ballots
name things that lookups found, and it confirms members only where that is allowed, namely for
placeholders, or for two initializers or lone methods of a confirmed pair of types.
-/

namespace Namesake

variable {c : Context} (pool : Pool c.old.program c.new.program) (coherent : c.Coherent)
  {l : Ledger}

/-! ## Confirmations -/

/-- A pair of old and new methods of a confirmed pair of types is allowed if both are static or
neither is. -/
theorem Action.warranted_confirmMethod (coherent : c.Coherent) {o n : TypeId} {m m' : MethodId}
    (confirmed : l.types.target? (.real o) = some n) (old : m ∈ (c.old.program.type o).methods)
    (new : m' ∈ (c.new.program.type n).methods)
    (alike : (c.old.program.method m).isStatic = (c.new.program.method m').isStatic) :
    (Action.confirmMethod (.real m) m').Warranted c pool l := by
  obtain ⟨inside, owner⟩ := coherent.old.methodListed old
  obtain ⟨inside', owner'⟩ := coherent.new.methodListed new
  refine ⟨?_, pool.has_method inside', ?_⟩
  · rintro o' ⟨rfl⟩
    exact inside
  · rintro o' ⟨rfl⟩
    refine .inr ⟨alike, ?_⟩
    have owners : l.types.target? (.real (c.old.program.method m).owner) =
        some (c.new.program.method m').owner := by
      rw [owner, owner', confirmed]
    exact owners

theorem warranted_matchLiterals {a : Action} (member : a ∈ matchLiterals c) :
    a.Warranted c pool l := by
  obtain ⟨⟨o, n⟩, entry, rfl⟩ := List.mem_map.mp member
  have pair := SortedMap.mem_toList.mp entry
  unfold literalPairs at pair
  rw [SortedMap.get?_filter, Option.filter_eq_some_iff] at pair
  obtain ⟨⟨text, o'⟩, entry', shared⟩ := List.mem_filterMap.mp (mem_of_soleOwners pair.1)
  obtain ⟨n', partner, same⟩ := Option.map_eq_some_iff.mp shared
  obtain ⟨rfl, rfl⟩ := Prod.mk.inj same
  exact Action.warranted_confirmType
    (Program.hasType_of_typeLiterals (SortedMap.mem_toList.mp entry'))
    (Program.hasType_of_typeLiterals partner)

include coherent

theorem warranted_matchBridges {a : Action} (member : a ∈ matchBridges c) :
    a.Warranted c pool l := by
  obtain ⟨t, -, member⟩ := List.mem_flatMap.mp member
  rcases List.mem_append.mp member with constants | bridges
  · obtain ⟨f, found, rfl⟩ := List.mem_map.mp constants
    have inside := coherent.new.hasField_of_constantsField? (Option.mem_toList.mp found)
    exact Action.warranted_confirmField_synthetic _ (pool.has_field inside)
  · obtain ⟨bridge, -, target⟩ := List.mem_filterMap.mp bridges
    obtain ⟨m, found, rfl⟩ := Option.map_eq_some_iff.mp target
    have inside := coherent.new.hasMethod_of_bridgeTarget? found
    exact Action.warranted_confirmMethod_synthetic _ (pool.has_method inside)

theorem warranted_linkInitializers (sound : l.types.Sound) {a : Action}
    (member : a ∈ linkInitializers c l) : a.Warranted c pool l := by
  obtain ⟨⟨o, n⟩, pair, linked⟩ := List.mem_filterMap.mp member
  simp only [Option.bind_eq_bind, Option.bind_eq_some_iff, Option.pure_def,
    Option.some.injEq] at linked
  obtain ⟨m, old, m', new, rfl⟩ := linked
  obtain ⟨listed, static⟩ := Program.mem_of_staticInitializer? old
  obtain ⟨listed', static'⟩ := Program.mem_of_staticInitializer? new
  exact Action.warranted_confirmMethod pool coherent (sound.mem_pairs.mp pair) listed listed'
    (static.trans static'.symm)

/-! ## Elimination -/

omit coherent in
/-- Pairs found by elimination come from the two lists, and have one key. -/
theorem mem_of_discretePairs {ι : Type} {key key' : ι → String} {olds news : List ι} {o n : ι}
    (member : (o, n) ∈ discretePairs (olds.map fun o => (key o, o))
      (news.map fun n => (key' n, n))) : o ∈ olds ∧ n ∈ news ∧ key o = key' n := by
  rw [discretePairs_eq, SortedMap.mem_values] at member
  obtain ⟨shared, joined⟩ := member
  obtain ⟨once, once'⟩ := get?_joinedItems_eq_some_iff.mp joined
  obtain ⟨o, listed, old⟩ := List.mem_map.mp once.listed
  obtain ⟨n, listed', new⟩ := List.mem_map.mp once'.listed
  obtain ⟨rfl, rfl⟩ := Prod.mk.inj old
  obtain ⟨keys, rfl⟩ := Prod.mk.inj new
  exact ⟨listed, listed', keys.symm⟩

omit coherent in
theorem formed_eliminateMethods {olds news : List MethodId}
    (inOld : ∀ m ∈ olds, c.old.program.HasMethod m)
    (inNew : ∀ m ∈ news, c.new.program.HasMethod m) {b : Ballot}
    (member : b ∈ eliminateMethods c l olds news) : b.IsWellFormed c pool := by
  obtain ⟨⟨m, m'⟩, pair, rfl⟩ := List.mem_map.mp member
  obtain ⟨listed, listed', -⟩ := mem_of_discretePairs pair
  exact ⟨inOld m (List.mem_filter.mp listed).1,
    pool.has_method (inNew m' (List.mem_filter.mp listed').1)⟩

omit coherent in
theorem formed_eliminateFields {olds news : List FieldId}
    (inOld : ∀ f ∈ olds, c.old.program.HasField f)
    (inNew : ∀ f ∈ news, c.new.program.HasField f) {b : Ballot}
    (member : b ∈ eliminateFields c l olds news) : b.IsWellFormed c pool := by
  obtain ⟨⟨f, f'⟩, pair, rfl⟩ := List.mem_map.mp member
  obtain ⟨listed, listed', -⟩ := mem_of_discretePairs pair
  exact ⟨inOld f (List.mem_filter.mp listed).1,
    pool.has_field (inNew f' (List.mem_filter.mp listed').1)⟩

theorem formed_matchDiscreteFields {b : Ballot} (member : b ∈ matchDiscreteFields c l) :
    b.IsWellFormed c pool := by
  obtain ⟨⟨o, n⟩, -, member⟩ := List.mem_flatMap.mp member
  rcases List.mem_append.mp member with instances | statics
  · refine formed_eliminateFields pool ?_ ?_ instances
    · exact fun f listed => (coherent.old.fieldListed (List.mem_filter.mp listed).1).1
    · exact fun f listed => (coherent.new.fieldListed (List.mem_filter.mp listed).1).1
  · refine formed_eliminateFields pool ?_ ?_ statics
    · exact fun f listed => (coherent.old.fieldListed (List.mem_filter.mp listed).1).1
    · exact fun f listed => (coherent.new.fieldListed (List.mem_filter.mp listed).1).1

theorem formed_matchDiscreteMethods {b : Ballot} (member : b ∈ matchDiscreteMethods c l) :
    b.IsWellFormed c pool := by
  obtain ⟨⟨o, n⟩, -, member⟩ := List.mem_flatMap.mp member
  rcases List.mem_append.mp member with instances | statics
  · refine formed_eliminateMethods pool ?_ ?_ instances
    · exact fun m listed => (coherent.old.methodListed (List.mem_filter.mp listed).1).1
    · exact fun m listed => (coherent.new.methodListed (List.mem_filter.mp listed).1).1
  · refine formed_eliminateMethods pool ?_ ?_ statics
    · exact fun m listed => (coherent.old.methodListed (List.mem_filter.mp listed).1).1
    · exact fun m listed => (coherent.new.methodListed (List.mem_filter.mp listed).1).1

/-! ## References -/

/-- What refers to two things speaks for owners and methods of the two programs. -/
theorem formed_compareReferrers {olds news : List MethodId}
    (inOld : ∀ m ∈ olds, c.old.program.HasMethod m)
    (inNew : ∀ m ∈ news, c.new.program.HasMethod m) {b : Ballot}
    (member : b ∈ compareReferrers c l olds news) : b.IsWellFormed c pool := by
  unfold compareReferrers at member
  dsimp only at member
  rcases List.mem_append.mp member with owners | eliminated
  · split at owners
    · next o n alone alone' =>
      obtain rfl := List.mem_singleton.mp owners
      obtain ⟨m, listed, rfl⟩ := exists_of_mem_keys_byOwner (alone ▸ List.mem_singleton_self o)
      obtain ⟨m', listed', rfl⟩ := exists_of_mem_keys_byOwner (alone' ▸ List.mem_singleton_self n)
      exact Ballot.formed_type pool (coherent.old.hasType_methodOwner (inOld m listed))
        (coherent.new.hasType_methodOwner (inNew m' listed'))
    · cases owners
  · obtain ⟨⟨t, methods⟩, entry, member⟩ := List.mem_flatMap.mp eliminated
    dsimp only at member
    split at member
    · cases member
    · split at member
      · cases member
      · next methods' found =>
        refine formed_eliminateMethods pool ?_ ?_ member
        · exact fun m listed => inOld m (mem_of_byOwner (SortedMap.mem_toList.mp entry) listed)
        · exact fun m listed => inNew m (mem_of_byOwner found listed)

theorem formed_matchReferences {b : Ballot} (member : b ∈ matchReferences c l) :
    b.IsWellFormed c pool := by
  have compared : ∀ {r r' : Reference}, b ∈ compareReferrers c l (c.old.references.referrers r)
      (c.new.references.referrers r') → b.IsWellFormed c pool := by
    intro r r' member
    refine formed_compareReferrers pool coherent ?_ ?_ member
    · rw [c.old.references_eq]
      exact ReferenceIndex.isWithin_build c.old.program r
    · rw [c.new.references_eq]
      exact ReferenceIndex.isWithin_build c.new.program r'
  unfold matchReferences at member
  dsimp only at member
  rcases List.mem_append.mp member with external | internal
  · obtain ⟨⟨r, referrers⟩, -, here⟩ := List.mem_flatMap.mp external
    exact compared here
  obtain ⟨⟨o, n⟩, -, member⟩ := List.mem_flatMap.mp internal
  rcases List.mem_append.mp member with member | methods
  · rcases List.mem_append.mp member with created | fields
    · rcases List.mem_append.mp created with member | member
      · exact compared member
      · exact compared member
    · obtain ⟨f, -, member⟩ := List.mem_flatMap.mp fields
      split at member
      · cases member
      · rcases List.mem_append.mp member with member | member
        · exact compared member
        · exact compared member
  · obtain ⟨m, -, member⟩ := List.mem_flatMap.mp methods
    split at member
    · cases member
    · rcases List.mem_append.mp member with sites | member
      · split at sites
        · next a b' found found' =>
          obtain rfl := List.mem_singleton.mp sites
          exact Ballot.formed_type pool (coherent.old.hasType_of_soleAnonymousSite? found)
            (coherent.new.hasType_of_soleAnonymousSite? found')
        · cases sites
      · exact compared member

/-! ## Types -/

omit coherent in
theorem formed_matchEnums {b : Ballot} (member : b ∈ matchEnums c) : b.IsWellFormed c pool := by
  obtain ⟨n, named, member⟩ := List.mem_flatMap.mp member
  obtain ⟨o, named', voted⟩ := List.mem_filterMap.mp member
  dsimp only at voted
  split_ifs at voted
  obtain rfl := Option.some.inj voted
  exact Ballot.formed_type pool (Program.mem_of_namedEnums named')
    (Program.mem_of_namedEnums named)

omit coherent in
/-- Both sides of a nested pair are among the nested types. -/
theorem mem_of_pairNested {olds news : List TypeId} {o n : TypeId}
    (member : (o, n) ∈ pairNested c l olds news) : o ∈ olds ∧ n ∈ news := by
  have filtered {ts : List TypeId} {test : TypeId → Bool} {t : TypeId}
      (only : ts.filter test = [t]) : t ∈ ts :=
    (List.mem_filter.mp (only ▸ List.mem_singleton_self t)).1
  rcases mem_pairNested_iff.mp member with
    ⟨alone, alone'⟩ | ⟨alone, alone'⟩ | ⟨-, named, -, -, best⟩
  · exact ⟨filtered alone, filtered alone'⟩
  · exact ⟨filtered alone, filtered alone'⟩
  · exact ⟨(List.mem_filter.mp named).1, (List.mem_filter.mp best.alone.mem).1⟩

theorem formed_matchNested {b : Ballot} (member : b ∈ matchNested c l) :
    b.IsWellFormed c pool := by
  obtain ⟨⟨o, n⟩, -, member⟩ := List.mem_flatMap.mp member
  obtain ⟨⟨o', n'⟩, pair, rfl⟩ := List.mem_map.mp member
  rcases List.mem_append.mp pair with around | nested
  · split at around
    · next oo nn outer outer' =>
      split_ifs at around
      · obtain ⟨rfl, rfl⟩ := Prod.mk.inj (List.mem_singleton.mp around)
        exact Ballot.formed_type pool (coherent.old.hasType_of_outerType? outer)
          (coherent.new.hasType_of_outerType? outer')
      · cases around
    · cases around
  · obtain ⟨inside, inside'⟩ := mem_of_pairNested nested
    exact Ballot.formed_type pool (Program.hasType_of_mem_nestedIn inside)
      (Program.hasType_of_mem_nestedIn inside')

/-! ## Overrides -/

omit coherent in
/-- What is voted for a group: for a method of it that is not confirmed, whose type has a
counterpart, what the group of the new method has on the counterpart. -/
theorem mem_overrideBallots {new : MethodId} {group : OverrideGroup} {b : Ballot} :
    b ∈ overrideBallots c l group new ↔ ∃ group' sibling owner candidate,
      c.new.groups.group? new = some group' ∧ sibling ∈ group.members ∧
      l.methods.isConfirmed (.real sibling) = false ∧
      l.types.target? (.real (c.old.program.method sibling).owner) = some owner ∧
      group'.overrideOn? c.new.program owner = some candidate ∧ b = .method sibling candidate := by
  rw [overrideBallots]
  cases c.new.groups.group? new with
  | none => simp
  | some group' =>
      simp only [List.mem_filterMap, Option.bind_eq_bind, Option.pure_def, Option.some.injEq,
        Option.ite_none_left_eq_some, Option.bind_eq_some_iff, Bool.not_eq_true]
      constructor
      · rintro ⟨sibling, listed, fresh, owner, target, candidate, overrides, rfl⟩
        exact ⟨group', sibling, owner, candidate, rfl, listed, fresh, target, overrides, rfl⟩
      · rintro ⟨_, sibling, owner, candidate, rfl, listed, fresh, target, overrides, rfl⟩
        exact ⟨sibling, listed, fresh, owner, target, candidate, overrides, rfl⟩

theorem formed_overrideBallots {old id : MethodId} {group : OverrideGroup}
    (found : c.old.groups.group? old = some group) {b : Ballot}
    (member : b ∈ overrideBallots c l group id) : b.IsWellFormed c pool := by
  obtain ⟨group', sibling, owner, candidate, found', listed, -, -, override, rfl⟩ :=
    mem_overrideBallots.mp member
  rw [c.old.groups_eq] at found
  rw [c.new.groups_eq] at found'
  exact ⟨OverrideGroups.hasMethod_of_mem_group coherent.old found listed,
    pool.has_method (OverrideGroups.hasMethod_of_mem_group coherent.new found'
      (List.mem_of_find?_eq_some override))⟩

theorem formed_overridesFrom {met : List MethodId} {pairs : List (MethodId × MethodId)} {b : Ballot}
    (member : b ∈ overridesFrom c l met pairs) : b.IsWellFormed c pool := by
  induction pairs generalizing met with
  | nil => cases member
  | cons pair rest ih =>
      obtain ⟨o, n⟩ := pair
      unfold overridesFrom at member
      split at member
      · exact ih member
      · next group found =>
        split_ifs at member
        · exact ih member
        · rcases List.mem_append.mp member with here | later
          · exact formed_overrideBallots pool coherent found here
          · exact ih later

/-! ## Following up on confirmed pairs -/

theorem formed_pairInterfaces {o n : TypeId} {b : Ballot}
    (member : b ∈ pairInterfaces c l o n) : b.IsWellFormed c pool := by
  obtain ⟨i, j, rfl, listed, -, sole⟩ := mem_pairInterfaces_iff.mp member
  exact Ballot.formed_type pool (coherent.old.hasType_of_mem_interfaces listed)
    (coherent.new.hasType_of_mem_interfaces (List.mem_filter.mp sole.2.mem).1)

theorem warranted_expandTypes {o n : TypeId} (confirmed : l.types.target? (.real o) = some n)
    {a : Action} (member : a ∈ expandTypes c l o n) : a.Warranted c pool l := by
  unfold expandTypes at member
  dsimp only at member
  rcases List.mem_append.mp member with member | speaking
  · rcases List.mem_append.mp member with types | lone
    · obtain ⟨b, ballot, rfl⟩ := List.mem_map.mp types
      rcases List.mem_append.mp ballot with superclasses | interfaces
      · split at superclasses
        · next os ns found found' =>
          obtain rfl := List.mem_singleton.mp superclasses
          exact Ballot.formed_type pool (coherent.old.hasType_of_superclass? found)
            (coherent.new.hasType_of_superclass? found')
        · cases superclasses
      · exact formed_pairInterfaces pool coherent interfaces
    · split at lone
      · next om nm old new =>
        obtain rfl := List.mem_singleton.mp lone
        obtain ⟨listed, kind⟩ := Program.mem_of_loneMethod? old
        obtain ⟨listed', kind'⟩ := Program.mem_of_loneMethod? new
        exact Action.warranted_confirmMethod pool coherent confirmed listed listed'
          (kind.trans kind'.symm)
      · cases lone
  · obtain ⟨b, ballot, rfl⟩ := List.mem_map.mp speaking
    obtain ⟨⟨text, om⟩, old, voted⟩ := List.mem_filterMap.mp ballot
    obtain ⟨nm, new, rfl⟩ := Option.map_eq_some_iff.mp voted
    have listed := Program.mem_of_methodLiterals (SortedMap.mem_toList.mp old)
    have listed' := Program.mem_of_methodLiterals new
    exact ⟨(coherent.old.methodListed listed).1,
      pool.has_method (coherent.new.methodListed listed').1⟩

theorem warranted_mergeTypes (sound : l.types.Sound) {a : Action} (member : a ∈ mergeTypes c l) :
    a.Warranted c pool l := by
  obtain ⟨⟨o, n⟩, pair, member⟩ := List.mem_flatMap.mp member
  have confirmed := (sound.mem_unmergedPairs.mp pair).1
  rcases List.mem_cons.mp member with rfl | expansion
  · trivial
  · exact warranted_expandTypes pool coherent confirmed expansion

omit coherent in
/-- The ballots of a comparison that is formed are. -/
theorem formed_triedBallots {checks : Comparison} (formed : checks.IsFormed c pool) {b : Ballot}
    (member : b ∈ triedBallots c l checks) : b.IsWellFormed c pool :=
  formed b (Comparison.mem_of_mem_verdict member)

theorem warranted_mergeMethods {a : Action} (member : a ∈ mergeMethods c l) :
    a.Warranted c pool l := by
  obtain ⟨⟨o, n⟩, -, member⟩ := List.mem_flatMap.mp member
  rcases List.mem_cons.mp member with rfl | tried
  · trivial
  · obtain ⟨b, ballot, rfl⟩ := List.mem_map.mp tried
    exact formed_triedBallots pool (Comparison.isFormed_methods pool coherent _ _) ballot

theorem warranted_mergeFields {a : Action} (member : a ∈ mergeFields c l) :
    a.Warranted c pool l := by
  obtain ⟨⟨o, n⟩, -, member⟩ := List.mem_flatMap.mp member
  rcases List.mem_cons.mp member with rfl | tried
  · trivial
  · obtain ⟨b, ballot, rfl⟩ := List.mem_map.mp tried
    exact formed_triedBallots pool (Comparison.isFormed_fields pool coherent _ _) ballot

/-! ## Registrations -/

theorem formed_registrationBallots {old new : List Statement} {b : Ballot}
    (member : b ∈ registrationBallots c old new) : b.IsWellFormed c pool := by
  unfold registrationBallots at member
  dsimp only at member
  obtain ⟨r, registered, member⟩ := List.mem_flatMap.mp member
  obtain ⟨field', factory'⟩ := coherent.new.hasField_of_mem_registrations registered
  rcases List.mem_append.mp member with factories | keys
  · split at factories
    · next o n last made =>
      obtain rfl := List.mem_singleton.mp factories
      obtain ⟨r', registered', made'⟩ := List.mem_filterMap.mp (List.mem_of_getLast? last)
      exact ⟨(coherent.old.hasField_of_mem_registrations registered').2 o made',
        pool.has_method (factory' n made)⟩
    · cases factories
  · split at keys
    · next f found =>
      obtain rfl := List.mem_singleton.mp keys
      obtain ⟨key, -, keyed⟩ := Option.bind_eq_some_iff.mp found
      obtain ⟨r', registered', entry⟩ := List.mem_filterMap.mp (SortedMap.mem_of_ofList keyed)
      obtain ⟨key', -, same⟩ := Option.map_eq_some_iff.mp entry
      obtain ⟨-, rfl⟩ := Prod.mk.inj same
      exact ⟨(coherent.old.hasField_of_mem_registrations registered').1, pool.has_field field'⟩
    · cases keys

theorem formed_keyedTableBallots {old new : List Statement} {b : Ballot}
    (member : b ∈ keyedTableBallots c l old new) : b.IsWellFormed c pool := by
  unfold keyedTableBallots at member
  dsimp only at member
  obtain ⟨⟨key, f, call⟩, entry, member⟩ := List.mem_flatMap.mp member
  have inside := coherent.new.hasField_of_keyedConstructors (SortedMap.mem_toList.mp entry)
  dsimp only at member
  split at member
  · cases member
  · next f' call' found =>
    rcases List.mem_cons.mp member with rfl | tried
    · exact ⟨coherent.old.hasField_of_keyedConstructors found, pool.has_field inside⟩
    · exact formed_triedBallots pool ((Comparison.isFormed_values pool coherent).1 _ _) tried

theorem warranted_mergeRegistrations {a : Action} (member : a ∈ mergeRegistrations c l) :
    a.Warranted c pool l := by
  obtain ⟨⟨o, n⟩, -, member⟩ := List.mem_flatMap.mp member
  dsimp only at member
  split at member
  · cases member
  next handler _ =>
  rcases List.mem_cons.mp member with rfl | handled
  · trivial
  obtain ⟨b, ballot, rfl⟩ := List.mem_map.mp handled
  unfold RegistrationHandler.ballots at ballot
  split at ballot
  · cases handler with
    | registryInitializer => exact formed_registrationBallots pool coherent ballot
    | keyedConstructorTable => exact formed_keyedTableBallots pool coherent ballot
    | skip => cases ballot
  · cases ballot

/-! ## All passes -/

/-- **What passes decide on is warranted.** -/
theorem Pass.warranted_of_plan? (lawful : l.Lawful c pool) {pass : Pass} {actions : List Action}
    (planned : pass.plan? c l = some actions) : ∀ a ∈ actions, a.Warranted c pool l := by
  have voted : ∀ {ballots : List Ballot}, (∀ b ∈ ballots, b.IsWellFormed c pool) →
      ∀ a ∈ ballots.map Action.vote, a.Warranted c pool l := by
    intro ballots formed a member
    obtain ⟨b, ballot, rfl⟩ := List.mem_map.mp member
    exact formed b ballot
  cases pass with
  | collector => cases planned
  | literals =>
      obtain rfl := Option.some.inj planned
      exact fun a => warranted_matchLiterals pool
  | bridges =>
      obtain rfl := Option.some.inj planned
      exact fun a => warranted_matchBridges pool coherent
  | enums =>
      obtain rfl := Option.some.inj planned
      exact voted fun b => formed_matchEnums pool
  | initializers =>
      obtain rfl := Option.some.inj planned
      exact fun a => warranted_linkInitializers pool coherent lawful.types.sound
  | references =>
      obtain rfl := Option.some.inj planned
      exact voted fun b => formed_matchReferences pool coherent
  | discreteFields =>
      obtain rfl := Option.some.inj planned
      exact voted fun b => formed_matchDiscreteFields pool coherent
  | overrides =>
      obtain rfl := Option.some.inj planned
      exact voted fun b => formed_overridesFrom pool coherent
  | discreteMethods =>
      obtain rfl := Option.some.inj planned
      exact voted fun b => formed_matchDiscreteMethods pool coherent
  | nestedTypes =>
      obtain rfl := Option.some.inj planned
      exact voted fun b => formed_matchNested pool coherent
  | confirmedTypes =>
      obtain rfl := Option.some.inj planned
      exact fun a => warranted_mergeTypes pool coherent lawful.types.sound
  | registrations =>
      obtain rfl := Option.some.inj planned
      exact fun a => warranted_mergeRegistrations pool coherent
  | confirmedMethods =>
      obtain rfl := Option.some.inj planned
      exact fun a => warranted_mergeMethods pool coherent
  | confirmedFields =>
      obtain rfl := Option.some.inj planned
      exact fun a => warranted_mergeFields pool coherent

end Namesake
