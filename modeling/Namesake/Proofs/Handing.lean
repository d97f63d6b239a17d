import Namesake.Proofs.PassTrails

/-! # Handing over confirmed pairs

Two passes compare the bodies of confirmed methods. Registration methods are handed to handlers of
their own, and the others to the comparison of bodies (`Pass.handed`); what a pass does is to
compare the pairs it hands over (`Pass.compares_of_takes`). Either pass marks what it hands over,
and neither hands over what is marked. So the pairs handed over so far are at any time those that
are marked, each of them once (`Partition.HandedOver`), and no pair that a pass had to follow up on
is left unmarked by it (`Pass.FollowedUp`).
-/

namespace Namesake

namespace Partition

variable {ι : Type} [KeyOrder ι]

/-- A list of pairs handed over so far. It has the confirmed pairs that are marked, once each. -/
structure HandedOver (p : Partition ι) (given : List (ι × ι)) : Prop where
  once : (given.map Prod.fst).Nodup
  mem_iff : ∀ {o n}, (o, n) ∈ given ↔ p.target? (.real o) = some n ∧ p.IsMerged (.real o)

theorem empty_handedOver : (∅ : Partition ι).HandedOver [] where
  once := .nil
  mem_iff := ⟨nofun, nofun⟩

variable [DecidableEq ι] {p p' : Partition ι} {count : Nat} {marks : List (Handle ι)}

/-- **Unmarked pairs are handed over and marked.** Then what was handed over before and now is again
what is marked. -/
theorem HandedOver.course {given pairs : List (ι × ι)} (handed : p.HandedOver given)
    (sound : p.Sound) (course : p.Course count marks p')
    (unmarked : pairs.Sublist p.unmergedPairs)
    (marked : ∀ o, .real o ∈ marks ↔ ∃ n, (o, n) ∈ pairs) : p'.HandedOver (given ++ pairs) where
  once := by
    rw [List.map_append, List.nodup_append]
    refine ⟨handed.once, sound.nodup_unmergedPairs.sublist (unmarked.map Prod.fst), ?_⟩
    intro o former o' latter same
    obtain ⟨pair, earlier, rfl⟩ := List.mem_map.mp former
    obtain ⟨pair', now, rfl⟩ := List.mem_map.mp latter
    have before := (handed.mem_iff.mp earlier).2
    have fresh := (sound.mem_unmergedPairs.mp (unmarked.subset now)).2
    rw [same] at before
    exact fresh before
  mem_iff := by
    intro o n
    rw [List.mem_append]
    constructor
    · intro listed
      rcases listed with earlier | now
      · obtain ⟨target, merged⟩ := handed.mem_iff.mp earlier
        exact ⟨course.extends_ _ _ target, course.isMerged merged⟩
      · obtain ⟨target, -⟩ := sound.mem_unmergedPairs.mp (unmarked.subset now)
        have confirmed := isConfirmed_of_target? target
        exact ⟨course.extends_ _ _ target,
          course.isMerged_of_mem ((marked o).mpr ⟨n, now⟩) confirmed⟩
    · intro pair
      obtain ⟨target, merged⟩ := pair
      rcases course.mem_of_isMerged merged with before | mark
      · obtain ⟨n', former⟩ := sound.target?_of_isConfirmed (isConfirmed_of_isMerged before)
        have same := course.extends_ _ _ former
        rw [target] at same
        rw [← Option.some.inj same] at former
        exact .inl (handed.mem_iff.mpr ⟨former, before⟩)
      · obtain ⟨n', now⟩ := (marked o).mp mark
        have former := (sound.mem_unmergedPairs.mp (unmarked.subset now)).1
        have same := course.extends_ _ _ former
        rw [target] at same
        rw [← Option.some.inj same] at now
        exact .inr now

/-- A confirmed pair is marked after a course that marks it if it has no mark yet. -/
theorem Course.isMerged_of_target? (course : p.Course count marks p') (sound : p.Sound) {o n : ι}
    (target : p.target? (.real o) = some n)
    (marked : (o, n) ∈ p.unmergedPairs → .real o ∈ marks) : p'.IsMerged (.real o) := by
  by_cases before : p.IsMerged (.real o)
  · exact course.isMerged before
  · have unmarked := sound.mem_unmergedPairs.mpr ⟨target, before⟩
    exact course.isMerged_of_mem (marked unmarked) (isConfirmed_of_target? target)

end Partition

/-! ## What passes hand over -/

/-- An action that is among those that mark methods. -/
theorem Action.real_mem_markedMethods {actions : List Action} {o : MethodId} :
    .real o ∈ actions.filterMap markedMethod? ↔ .mergedMethod o ∈ actions := by
  rw [List.mem_filterMap]
  constructor
  · intro found
    obtain ⟨a, member, marks⟩ := found
    cases a with
    | mergedMethod o' =>
        obtain rfl := Handle.real.inj (Option.some.inj marks)
        exact member
    | vote | confirmType | confirmMethod | confirmField | mergedType | mergedField =>
        cases marks
  · exact fun member => ⟨.mergedMethod o, member, rfl⟩

namespace Pass

/-- The confirmed pairs of methods a pass compares, be it by a handler or body by body. -/
def handed (c : Context) (l : Ledger) : Pass → List (MethodId × MethodId)
  | registrations =>
    l.methods.unmergedPairs.filter fun (o, _) => (registry.get? (oldMethodKey c o)).isSome
  | confirmedMethods => l.methods.unmergedPairs
  | _ => []

/-- Registration methods are marked when they are handed to their handlers. -/
theorem mergeRegistrations_eq (c : Context) (l : Ledger) :
    mergeRegistrations c l = (registrations.handed c l).flatMap fun (o, n) => .mergedMethod o ::
      ((registry.get? (oldMethodKey c o)).elim [] fun handler => handler.ballots c l o n).map
        .vote := by
  unfold mergeRegistrations handed
  generalize registry = table
  induction l.methods.unmergedPairs with
  | nil => rfl
  | cons pair rest ih =>
      rw [List.flatMap_cons, ih, List.filter_cons]
      cases handler : table.get? (oldMethodKey c pair.1) with
      | none => simp [handler]
      | some found => simp [handler]

/-- Methods are marked when they are handed to the comparison of bodies. -/
theorem mergeMethods_eq (c : Context) (l : Ledger) :
    mergeMethods c l = (confirmedMethods.handed c l).flatMap fun (o, n) => .mergedMethod o ::
      (triedBallots c l (.methods c.old.program c.new.program (c.old.program.method o)
        (c.new.program.method n))).map .vote := rfl

theorem handed_sublist (c : Context) (l : Ledger) (pass : Pass) :
    (pass.handed c l).Sublist l.methods.unmergedPairs := by
  cases pass with
  | registrations => exact List.filter_sublist
  | confirmedMethods => exact List.Sublist.refl _
  | literals | bridges | enums | initializers | references | discreteFields | overrides
  | discreteMethods | nestedTypes | confirmedTypes | confirmedFields | collector =>
      exact List.nil_sublist _

/-- Following up on pairs marks them and casts ballots. -/
private theorem mergedMethod_mem_flatMap {pairs : List (MethodId × MethodId)}
    {ballots : MethodId × MethodId → List Ballot} {o : MethodId} :
    .mergedMethod o ∈ pairs.flatMap
        (fun pair => .mergedMethod pair.1 :: (ballots pair).map Action.vote) ↔
      ∃ n, (o, n) ∈ pairs := by
  rw [List.mem_flatMap]
  constructor
  · intro found
    obtain ⟨⟨o', n⟩, member, marks⟩ := found
    rcases List.mem_cons.mp marks with mark | vote
    · cases mark
      exact ⟨n, member⟩
    · obtain ⟨b, -, cast⟩ := List.mem_map.mp vote
      cases cast
  · intro listed
    obtain ⟨n, member⟩ := listed
    exact ⟨(o, n), member, List.mem_cons_self ..⟩

private theorem mergedMethod_not_mem_expandTypes {c : Context} {l : Ledger} {o n : TypeId}
    {m : MethodId} : .mergedMethod m ∉ expandTypes c l o n := by
  intro member
  simp only [expandTypes, List.mem_append, List.mem_map, reduceCtorEq, and_false, exists_false,
    false_or, or_false] at member
  split at member
  · exact nomatch List.mem_singleton.mp member
  · cases member

/-- The methods a pass marks are those it hands over. -/
theorem mergedMethod_mem_iff {c : Context} {l : Ledger} {pass : Pass} {actions : List Action}
    (takes : pass.Takes c l actions) (o : MethodId) :
    .mergedMethod o ∈ actions ↔ ∃ n, (o, n) ∈ pass.handed c l := by
  have idle (none_ : pass.handed c l = []) (absent : .mergedMethod o ∉ actions) :
      .mergedMethod o ∈ actions ↔ ∃ n, (o, n) ∈ pass.handed c l := by
    rw [none_]
    exact ⟨fun member => absurd member absent, nofun⟩
  unfold Takes at takes
  cases pass with
  | registrations =>
      obtain rfl : actions = mergeRegistrations c l := takes
      rw [mergeRegistrations_eq]
      exact mergedMethod_mem_flatMap
  | confirmedMethods =>
      obtain rfl : actions = mergeMethods c l := takes
      rw [mergeMethods_eq]
      exact mergedMethod_mem_flatMap
  | literals =>
      obtain rfl : actions = matchLiterals c := takes
      exact idle rfl (by simp [matchLiterals])
  | bridges =>
      obtain rfl : actions = matchBridges c := takes
      exact idle rfl (by simp [matchBridges])
  | initializers =>
      obtain rfl : actions = linkInitializers c l := takes
      apply idle rfl
      intro member
      obtain ⟨pair, -, linked⟩ := List.mem_filterMap.mp member
      simp only [Option.bind_eq_bind, Option.bind_eq_some_iff, Option.pure_def, Option.some.injEq,
        reduceCtorEq, and_false, exists_false] at linked
  | confirmedTypes =>
      obtain rfl : actions = mergeTypes c l := takes
      apply idle rfl
      intro member
      obtain ⟨pair, -, follow⟩ := List.mem_flatMap.mp member
      rcases List.mem_cons.mp follow with mark | expansion
      · cases mark
      · exact mergedMethod_not_mem_expandTypes expansion
  | confirmedFields =>
      obtain rfl : actions = mergeFields c l := takes
      exact idle rfl (by simp [mergeFields])
  | collector => exact idle rfl fun member => nomatch takes _ member
  | enums | references | discreteFields | overrides | discreteMethods | nestedTypes =>
      apply idle rfl
      intro member
      rw [show actions = _ from takes] at member
      obtain ⟨b, -, cast⟩ := List.mem_map.mp member
      cases cast

/-- The ballots for what a pair that is handed over contains: those of its handler, or those of the
comparison of bodies. -/
def ballotsFor (c : Context) (l : Ledger) : Pass → MethodId × MethodId → List Ballot
  | registrations, (o, n) =>
    (registry.get? (oldMethodKey c o)).elim [] fun handler => handler.ballots c l o n
  | confirmedMethods, (o, n) =>
    triedBallots c l (.methods c.old.program c.new.program (c.old.program.method o)
      (c.new.program.method n))
  | _, _ => []

/-- What a pass does compares the pairs of methods it hands over, one after the other: each is
marked, and the ballots for what it contains are cast. No other method is marked. -/
structure Compares (c : Context) (l : Ledger) (pass : Pass) (actions : List Action) : Prop where
  pairs : pass.handed c l ≠ [] → actions = (pass.handed c l).flatMap fun pair =>
    .mergedMethod pair.1 :: (pass.ballotsFor c l pair).map .vote
  marks : ∀ o, .mergedMethod o ∈ actions ↔ ∃ n, (o, n) ∈ pass.handed c l

/-- **What is handed over is compared.** -/
theorem compares_of_takes {c : Context} {l : Ledger} {pass : Pass} {actions : List Action}
    (takes : pass.Takes c l actions) : pass.Compares c l actions where
  pairs some_ := by
    cases pass with
    | registrations =>
        obtain rfl : actions = mergeRegistrations c l := takes
        exact mergeRegistrations_eq c l
    | confirmedMethods =>
        obtain rfl : actions = mergeMethods c l := takes
        exact mergeMethods_eq c l
    | literals | bridges | enums | initializers | references | discreteFields | overrides
    | discreteMethods | nestedTypes | confirmedTypes | confirmedFields | collector =>
        exact absurd rfl some_
  marks := mergedMethod_mem_iff takes

/-! ## Following up -/

/-- What a pass makes sure of: the pairs it is about that were confirmed before it have a mark after
it. -/
def FollowedUp (c : Context) (before after : Ledger) : Pass → Prop
  | confirmedTypes => ∀ o n, before.types.target? (.real o) = some n →
    after.types.IsMerged (.real o)
  | registrations => ∀ o n, before.methods.target? (.real o) = some n →
    (registry.get? (oldMethodKey c o)).isSome = true → after.methods.IsMerged (.real o)
  | confirmedMethods => ∀ o n, before.methods.target? (.real o) = some n →
    after.methods.IsMerged (.real o)
  | confirmedFields => ∀ o n, before.fields.target? (.real o) = some n →
    after.fields.IsMerged (.real o)
  | _ => True

end Pass

/-- Each partition of a ledger keeps what is confirmed and what is marked. -/
structure Ledger.Grows (l l' : Ledger) : Prop where
  types : l.types.Extends l'.types
  methods : l.methods.Extends l'.methods
  fields : l.fields.Extends l'.fields
  mergedTypes : ∀ {k}, l.types.IsMerged k → l'.types.IsMerged k
  mergedMethods : ∀ {k}, l.methods.IsMerged k → l'.methods.IsMerged k
  mergedFields : ∀ {k}, l.fields.IsMerged k → l'.fields.IsMerged k

theorem Ledger.Grows.refl (l : Ledger) : l.Grows l :=
  ⟨.refl _, .refl _, .refl _, id, id, id⟩

variable {c : Context} {pool : Pool c.old.program c.new.program} {s s' : State}
  {actions : List Action}

theorem Trail.grows (coherent : c.old.program.Coherent) (trail : Trail c pool s actions s')
    (lawful : s.ledger.Lawful c pool) : s.ledger.Grows s'.ledger := by
  obtain ⟨t, m, f, types, methods, fields, -⟩ := trail.courses coherent lawful
  exact ⟨types.extends_, methods.extends_, fields.extends_, types.isMerged, methods.isMerged,
    fields.isMerged⟩

/-- **Nothing is handed over twice.** A trail that hands over unmarked pairs and marks them has
handed over at its end what is marked. -/
theorem Trail.handedOver (coherent : c.old.program.Coherent) (trail : Trail c pool s actions s')
    (lawful : s.ledger.Lawful c pool) {given pairs : List (MethodId × MethodId)}
    (unmarked : pairs.Sublist s.ledger.methods.unmergedPairs)
    (marked : ∀ o, .mergedMethod o ∈ actions ↔ ∃ n, (o, n) ∈ pairs)
    (handed : s.ledger.methods.HandedOver given) :
    s'.ledger.methods.HandedOver (given ++ pairs) := by
  obtain ⟨t, m, f, -, methods, -⟩ := trail.courses coherent lawful
  apply handed.course lawful.methods.sound methods unmarked
  intro o
  rw [Action.real_mem_markedMethods]
  exact marked o

namespace Pass

/-- A pass makes sure of the same things about fewer pairs and a later ledger. -/
theorem FollowedUp.mono {before before' after after' : Ledger} {pass : Pass}
    (followed : pass.FollowedUp c before after) (fewer : before'.Grows before)
    (later : after.Grows after') : pass.FollowedUp c before' after' := by
  cases pass with
  | confirmedTypes =>
      intro o n target
      exact later.mergedTypes (followed o n (fewer.types _ _ target))
  | registrations =>
      intro o n target handler
      exact later.mergedMethods (followed o n (fewer.methods _ _ target) handler)
  | confirmedMethods =>
      intro o n target
      exact later.mergedMethods (followed o n (fewer.methods _ _ target))
  | confirmedFields =>
      intro o n target
      exact later.mergedFields (followed o n (fewer.fields _ _ target))
  | literals | bridges | enums | initializers | references | discreteFields | overrides
  | discreteMethods | nestedTypes | collector => trivial

variable {pass : Pass}

/-- **No pair is left behind.** What a pass is about and was confirmed before it has a mark after
it. -/
theorem followedUp (coherent : c.old.program.Coherent) (lawful : s.ledger.Lawful c pool)
    (trail : Trail c pool s actions s') (takes : pass.Takes c s.ledger actions) :
    pass.FollowedUp c s.ledger s'.ledger := by
  obtain ⟨t, m, f, types, methods, fields, -⟩ := trail.courses coherent lawful
  cases pass with
  | confirmedTypes =>
      intro o n target
      apply types.isMerged_of_target? lawful.types.sound target
      intro unmarked
      obtain rfl : actions = mergeTypes c s.ledger := takes
      have marks : .mergedType o ∈ mergeTypes c s.ledger :=
        List.mem_flatMap.mpr ⟨(o, n), unmarked, List.mem_cons_self ..⟩
      exact List.mem_filterMap.mpr ⟨_, marks, rfl⟩
  | registrations =>
      intro o n target handler
      apply methods.isMerged_of_target? lawful.methods.sound target
      intro unmarked
      have handed : (o, n) ∈ registrations.handed c s.ledger :=
        List.mem_filter.mpr ⟨unmarked, handler⟩
      exact Action.real_mem_markedMethods.mpr ((mergedMethod_mem_iff takes o).mpr ⟨n, handed⟩)
  | confirmedMethods =>
      intro o n target
      apply methods.isMerged_of_target? lawful.methods.sound target
      intro unmarked
      exact Action.real_mem_markedMethods.mpr ((mergedMethod_mem_iff takes o).mpr ⟨n, unmarked⟩)
  | confirmedFields =>
      intro o n target
      apply fields.isMerged_of_target? lawful.fields.sound target
      intro unmarked
      obtain rfl : actions = mergeFields c s.ledger := takes
      have marks : .mergedField o ∈ mergeFields c s.ledger :=
        List.mem_flatMap.mpr ⟨(o, n), unmarked, List.mem_cons_self ..⟩
      exact List.mem_filterMap.mpr ⟨_, marks, rfl⟩
  | literals | bridges | enums | initializers | references | discreteFields | overrides
  | discreteMethods | nestedTypes | collector => trivial

/-- Remembering which methods were offered to handlers before changes nothing if those that have one
are marked. -/
theorem handed_registrations_skipping {l : Ledger} (sound : l.methods.Sound)
    {offered : List MethodId} (marked : ∀ o ∈ offered,
      (registry.get? (oldMethodKey c o)).isSome = true → l.methods.IsMerged (.real o)) :
    (registrations.handed c l).filter (fun (o, _) => o ∉ offered) = registrations.handed c l := by
  apply List.filter_eq_self.mpr
  intro pair listed
  obtain ⟨unmarked, handler⟩ := List.mem_filter.mp listed
  have fresh := (sound.mem_unmergedPairs.mp unmarked).2
  apply decide_eq_true
  intro former
  exact fresh (marked pair.1 former handler)

end Pass

end Namesake
