import Mathlib.Data.List.Permutation
import Namesake.Proofs.OverridePartition
import Namesake.Proofs.Reachable
import Namesake.Proofs.Tallies

/-! # Overrides that are propagated

Confirmed pairs of methods are gone through in the order of the old ones
(`Partition.Sound.pairs_sorted`), and each group of overrides once, for the first confirmed pair in
it (`Ledger.Leads`). So the overrides of a group are voted onto the group of the target of this
pair: what that group has on the counterpart of the type of an override gets a vote, if it is
accepted (`State.Reachable.overrides_propagated`). Where a later pair leads to another group,
nothing is voted there (`State.later_pair_not_propagated`).
-/

namespace Namesake

/-! ## The order of confirmed pairs -/

/-- Confirmed pairs are listed in the order of their old things. -/
theorem Partition.Sound.pairs_sorted {ι : Type} [KeyOrder ι] {p : Partition ι} (sound : p.Sound) :
    p.pairs.Pairwise fun a b => KeyOrder.before a.1 b.1 = true := by
  rw [pairs, SortedMap.values, List.filterMap_map, List.pairwise_filterMap]
  apply p.confirmed.sorted.imp_of_mem
  rintro ⟨k, e⟩ ⟨k', e'⟩ listed listed' sorted ⟨o, n⟩ pair ⟨o', n'⟩ pair'
  obtain ⟨old, -⟩ := pair_eq_some_iff.mp pair
  obtain ⟨old', -⟩ := pair_eq_some_iff.mp pair'
  have key : k = .real o := (sound.confirmedKey (SortedMap.mem_toList.mp listed)).symm.trans old
  have key' : k' = .real o' :=
    (sound.confirmedKey (SortedMap.mem_toList.mp listed')).symm.trans old'
  rw [key, key'] at sorted
  exact sorted

namespace Ledger

/-- A confirmed pair leads a group of overrides if no earlier method of the group is confirmed. -/
structure Leads (l : Ledger) (group : OverrideGroup) (o n : MethodId) : Prop where
  member : o ∈ group.members
  confirmed : l.methods.target? (.real o) = some n
  first : ∀ o' ∈ group.members, l.methods.isConfirmed (.real o') = true → o.index ≤ o'.index

/-- A group with a confirmed method is led by a pair, which is met before all others of the
group. -/
theorem exists_leads {l : Ledger} (sound : l.methods.Sound) {group : OverrideGroup}
    {m n : MethodId} (member : m ∈ group.members)
    (confirmed : l.methods.target? (.real m) = some n) :
    ∃ o n before after, l.Leads group o n ∧ l.methods.pairs = before ++ (o, n) :: after ∧
      ∀ pair ∈ before, pair.1 ∉ group.members := by
  have present : (l.methods.pairs.find? fun pair => pair.1 ∈ group.members).isSome = true :=
    List.find?_isSome.mpr ⟨(m, n), sound.mem_pairs.mpr confirmed, decide_eq_true member⟩
  obtain ⟨⟨o, n⟩, found⟩ := Option.isSome_iff_exists.mp present
  obtain ⟨inside, before, after, list, apart⟩ := List.find?_eq_some_iff_append.mp found
  have listed : (o, n) ∈ l.methods.pairs := List.mem_of_find?_eq_some found
  have apart' : ∀ pair ∈ before, pair.1 ∉ group.members := by
    intro pair earlier
    simpa using apart pair earlier
  refine ⟨o, n, before, after, ⟨of_decide_eq_true inside, sound.mem_pairs.mp listed, ?_⟩, list,
    apart'⟩
  intro o' member' confirmed'
  obtain ⟨n', target⟩ := sound.target?_of_isConfirmed confirmed'
  have listed' := sound.mem_pairs.mpr target
  have sorted := sound.pairs_sorted
  rw [list] at listed' sorted
  rcases List.mem_append.mp listed' with earlier | later
  · exact (apart' _ earlier member').elim
  · rcases List.mem_cons.mp later with same | later
    · rw [(Prod.mk.inj same).1]
    · have ordered := (List.pairwise_cons.mp (List.pairwise_append.mp sorted).2.1).1 _ later
      exact Nat.le_of_lt (of_decide_eq_true ordered)

/-- A ballot that counts has its vote after it was cast among others. -/
theorem tallyOf_lt_castAll {c : Context} {l : Ledger} {ballots : List Ballot} {b : Ballot}
    (member : b ∈ ballots) (counted : b.counts c l = true) :
    l.tallyOf b < (l.castAll c ballots).tallyOf b := by
  have cast : 0 < (ballots.filter fun b => b.counts c l).count b :=
    List.count_pos_iff.mpr (List.mem_filter.mpr ⟨member, counted⟩)
  rw [(l.castAll_gains c ballots).tally b]
  exact Nat.lt_add_of_pos_right cast

/-- Only what was cast gains votes. -/
theorem mem_of_tallyOf_lt_castAll {c : Context} {l : Ledger} {ballots : List Ballot} {b : Ballot}
    (gained : l.tallyOf b < (l.castAll c ballots).tallyOf b) : b ∈ ballots := by
  rw [(l.castAll_gains c ballots).tally b] at gained
  have cast : 0 < (ballots.filter fun b => b.counts c l).count b :=
    Nat.pos_of_lt_add_right gained
  exact (List.mem_filter.mp (List.count_pos_iff.mp cast)).1

end Ledger

/-- A ballot for a method that is not confirmed counts if it is accepted. -/
theorem Ballot.counts_of_accepted {c : Context} {l : Ledger} {m n : MethodId}
    (fresh : l.methods.isConfirmed (.real m) = false)
    (accepted : (Ballot.method m n).accepted c l = true) :
    (Ballot.method m n).counts c l = true := by
  unfold Ballot.accepted at accepted
  dsimp only at accepted
  rw [Partition.accepts_eq, fresh] at accepted
  exact accepted

/-! ## Ballots for overrides -/

/-- Groups with the same archetype are the same. -/
theorem OverrideGroups.InStep.eq_of_archetype {g : OverrideGroups} (inStep : g.InStep)
    {group group' : OverrideGroup} (listed : group ∈ g.groups) (listed' : group' ∈ g.groups)
    (same : group.archetype = group'.archetype) : group = group' :=
  List.inj_on_of_nodup_map inStep.nodup_archetypes listed listed' same

theorem Build.inStep_groups (b : Build) : b.groups.InStep := by
  rw [b.groups_eq]
  exact OverrideGroups.inStep_build b.program

/-- The overrides of a group are voted for when the first pair of the group is met. -/
theorem mem_overridesFrom {c : Context} {l : Ledger} {group : OverrideGroup} {o n : MethodId}
    {met : List MethodId} {before after : List (MethodId × MethodId)} {b : Ballot}
    (found : c.old.groups.group? o = some group) (several : 1 < group.members.length)
    (unmet : group.archetype ∉ met) (apart : ∀ pair ∈ before, pair.1 ∉ group.members)
    (member : b ∈ overrideBallots c l group n) :
    b ∈ overridesFrom c l met (before ++ (o, n) :: after) := by
  have inStep := c.old.inStep_groups
  induction before generalizing met with
  | nil =>
      have taken : ¬ (decide (group.members.length ≤ 1) ||
          met.contains group.archetype) = true := by
        rw [Bool.or_eq_true, not_or, decide_eq_true_eq, Nat.not_le, List.contains_iff_mem]
        exact ⟨several, unmet⟩
      rw [List.nil_append, overridesFrom, found]
      dsimp only
      rw [if_neg taken]
      exact List.mem_append_left _ member
  | cons pair rest ih =>
      obtain ⟨o', n'⟩ := pair
      obtain ⟨here, later⟩ := List.forall_mem_cons.mp apart
      rw [List.cons_append, overridesFrom]
      split
      · exact ih unmet later
      next group₁ found₁ =>
      split_ifs
      · exact ih unmet later
      · have other : group.archetype ≠ group₁.archetype := by
          intro same
          obtain ⟨listed, -⟩ := inStep.group?_eq_some_iff.mp found
          obtain ⟨listed₁, inside⟩ := inStep.group?_eq_some_iff.mp found₁
          obtain rfl := inStep.eq_of_archetype listed listed₁ same
          exact here inside
        apply List.mem_append_right
        apply ih _ later
        rw [List.mem_cons, not_or]
        exact ⟨other, unmet⟩

/-! ## The pass -/

/-- Votes are cast one after the other. -/
theorem State.foldl_after_votes (c : Context) (ballots : List Ballot) (s : State) :
    (ballots.map Action.vote).foldl (State.after c) s =
      { s with ledger := s.ledger.castAll c ballots } := by
  induction ballots generalizing s with
  | nil => rfl
  | cons b rest ih => exact ih (s.after c (.vote b))

theorem Action.performAll_votes (c : Context) (ballots : List Ballot) (s : State) :
    Action.performAll c (ballots.map .vote) s =
      .ok () { s with ledger := s.ledger.castAll c ballots } := by
  rw [Action.performAll_eq, State.foldl_after_votes]

/-- A pass that only votes casts the ballots of its plan. -/
theorem Pass.run_votes {pass : Pass} {c : Context} {s : State} {ballots : List Ballot}
    (plan : pass.plan? c s.ledger = some (ballots.map .vote)) :
    pass.run c s = .ok () { s with ledger := s.ledger.castAll c ballots } := by
  rw [Pass.run_of_plan? plan, State.foldl_after_votes]

theorem Pass.run_overrides (c : Context) (s : State) : Pass.overrides.run c s =
    .ok () { s with ledger := s.ledger.castAll c (matchOverrides c s.ledger) } :=
  Pass.run_votes rfl

/-- **A run of the pass propagates each group of overrides for its leading pair.** Every confirmed
pair of a group with several methods finds the group led by a pair; if that leads to the same new
group, every override that is not confirmed, and whose type has a counterpart, gets a vote for what
the new group has on the counterpart, if the vote is accepted. -/
theorem State.Reachable.overrides_propagated {c : Context} {s : State} (reachable : s.Reachable c) :
    ∃ s', Pass.overrides.run c s = .ok () s' ∧
      ∀ om nm group group', s.ledger.methods.target? (.real om) = some nm →
        c.old.groups.group? om = some group → 1 < group.members.length →
        c.new.groups.group? nm = some group' →
        ∃ o n, s.ledger.Leads group o n ∧ (c.new.groups.group? n = some group' →
          ∀ sibling ∈ group.members, s.ledger.methods.isConfirmed (.real sibling) = false →
            ∀ t candidate,
              s.ledger.types.target? (.real (c.old.program.method sibling).owner) = some t →
              group'.overrideOn? c.new.program t = some candidate →
              (Ballot.method sibling candidate).accepted c s.ledger = true →
              s.ledger.methods.tally (.real sibling) candidate <
                s'.ledger.methods.tally (.real sibling) candidate) := by
  refine ⟨_, Pass.run_overrides c s, ?_⟩
  intro om nm group group' confirmed found several _
  have inStep := c.old.inStep_groups
  have sound : s.ledger.methods.Sound := (reachable.each Partition.invariant_sound).methods
  have inside := (inStep.group?_eq_some_iff.mp found).2
  obtain ⟨o, n, before, after, leads, list, apart⟩ := Ledger.exists_leads sound inside confirmed
  refine ⟨o, n, leads, ?_⟩
  intro entered sibling member fresh t candidate owner overrides accepted
  have found' : c.old.groups.group? o = some group :=
    inStep.group?_eq_some_iff.mpr ⟨(inStep.group?_eq_some_iff.mp found).1, leads.member⟩
  have planned : Ballot.method sibling candidate ∈ matchOverrides c s.ledger := by
    rw [matchOverrides, list]
    exact mem_overridesFrom found' several List.not_mem_nil apart
      (mem_overrideBallots.mpr ⟨group', sibling, t, candidate, entered, member, fresh, owner,
        overrides, rfl⟩)
  exact Ledger.tallyOf_lt_castAll planned (Ballot.counts_of_accepted fresh accepted)

/-! ### A group that parts -/

/-- Three classes that declare a method each. The second and the third may extend another. -/
def Program.kin (first second third : String) (above above' : Option String) : Program where
  types := [{ name := first, kind := .plain, superclass := none, interfaces := [],
              signature := none, enumConstants := [], methods := [⟨0⟩], fields := [] },
            { name := second, kind := .plain, superclass := above, interfaces := [],
              signature := none, enumConstants := [], methods := [⟨1⟩], fields := [] },
            { name := third, kind := .plain, superclass := above', interfaces := [],
              signature := none, enumConstants := [], methods := [⟨2⟩], fields := [] }]
  methods := [⟨0⟩, ⟨1⟩, ⟨2⟩].map fun owner =>
    { name := "run", descriptor := "()V", isStatic := false, isSynthetic := false,
      signature := ⟨[], .primitive 'V'⟩, body := none, owner }
  fields := []
  byName := .ofList [(first, ⟨0⟩), (second, ⟨1⟩), (third, ⟨2⟩)]

/-- In the old build two classes override a method of their superclass `a`. In the new build, `z`
extends `y`, and `x` has nothing to do with them. -/
def Context.parting : Context :=
  .of (.kin "a" "b" "c" (some "a") (some "a")) ∅ (.kin "x" "y" "z" none (some "y")) .default

namespace State

/-- All types are confirmed in order, and some methods onto those of the same number. -/
def parted (methods : List MethodId) : State :=
  ([⟨0⟩, ⟨1⟩, ⟨2⟩].map (fun t => Action.confirmType (.real t) t) ++
    methods.map fun m => Action.confirmMethod (.real m) m).foldl (after .parting) .initial

theorem reachable_parted (methods : List MethodId) : (parted methods).Reachable .parting :=
  Reachable.initial.foldl_after _

/-- The group of the old methods. -/
def oldRuns : OverrideGroup := (OverrideGroup.single ⟨0⟩).extend [⟨1⟩, ⟨2⟩]

/-- The group of the last two new methods. -/
def newRuns : OverrideGroup := (OverrideGroup.single ⟨1⟩).extend [⟨2⟩]

theorem group?_parting : Context.parting.old.groups.group? ⟨1⟩ = some oldRuns ∧
    Context.parting.new.groups.group? ⟨1⟩ = some newRuns :=
  ⟨by cbv, by cbv⟩

/-- **A pair that comes later in its group is not propagated.** The first method of the group is
confirmed onto a method that has no overrides, and so the override of the second goes without a
vote. -/
theorem later_pair_not_propagated :
    let c := Context.parting
    let s := parted [⟨0⟩, ⟨1⟩]
    c.old.program.validate = .ok () ∧ c.new.program.validate = .ok () ∧ s.Reachable c ∧
      s.ledger.methods.target? (.real ⟨1⟩) = some ⟨1⟩ ∧
      c.old.groups.group? ⟨1⟩ = some oldRuns ∧ 1 < oldRuns.members.length ∧
      c.new.groups.group? ⟨1⟩ = some newRuns ∧
      ⟨2⟩ ∈ oldRuns.members ∧ s.ledger.methods.isConfirmed (.real ⟨2⟩) = false ∧
      s.ledger.types.target? (.real (c.old.program.method ⟨2⟩).owner) = some ⟨2⟩ ∧
      newRuns.overrideOn? c.new.program ⟨2⟩ = some ⟨2⟩ ∧
      (Ballot.method ⟨2⟩ ⟨2⟩).accepted c s.ledger = true ∧
      Pass.overrides.run c s = .ok () s := by
  intro c s
  have confirmed : s.ledger.methods.target? (.real ⟨1⟩) = some ⟨1⟩ := by decide +kernel
  have fresh : s.ledger.methods.isConfirmed (.real ⟨2⟩) = false := by decide +kernel
  have owner : s.ledger.types.target? (.real ⟨2⟩) = some ⟨2⟩ := by decide +kernel
  have accepted : (Ballot.method ⟨2⟩ ⟨2⟩).accepted c s.ledger = true := by decide +kernel
  have none : matchOverrides c s.ledger = [] := by cbv
  have idle : Pass.overrides.run c s = .ok () s := by
    rw [Pass.run_overrides, none]
    rfl
  exact ⟨rfl, rfl, reachable_parted _, confirmed, group?_parting.1, by decide, group?_parting.2,
    by decide, fresh, owner, by decide, accepted, idle⟩

/-- Where the second method alone is confirmed, it leads the group, and its override gets a vote. -/
theorem overrides_propagated_of_parted :
    let c := Context.parting
    let s := parted [⟨1⟩]
    s.Reachable c ∧ s.ledger.Leads oldRuns ⟨1⟩ ⟨1⟩ ∧
      (Ballot.method ⟨2⟩ ⟨2⟩).accepted c s.ledger = true ∧
      ∃ s', Pass.overrides.run c s = .ok () s' ∧
        0 < s'.ledger.methods.tally (.real ⟨2⟩) ⟨2⟩ := by
  intro c s
  have confirmed : s.ledger.methods.target? (.real ⟨1⟩) = some ⟨1⟩ := by decide +kernel
  have alone : ∀ m ∈ oldRuns.members, s.ledger.methods.isConfirmed (.real m) = true → m = ⟨1⟩ := by
    decide +kernel
  have fresh : s.ledger.methods.isConfirmed (.real ⟨2⟩) = false := by decide +kernel
  have owner : s.ledger.types.target? (.real ⟨2⟩) = some ⟨2⟩ := by decide +kernel
  have accepted : (Ballot.method ⟨2⟩ ⟨2⟩).accepted c s.ledger = true := by decide +kernel
  obtain ⟨s', done, propagated⟩ := (reachable_parted [⟨1⟩]).overrides_propagated
  obtain ⟨o, n, leads, voted⟩ := propagated ⟨1⟩ ⟨1⟩ oldRuns newRuns confirmed group?_parting.1
    (by decide) group?_parting.2
  obtain rfl := alone o leads.member (Partition.isConfirmed_of_target? leads.confirmed)
  obtain rfl := Option.some.inj (confirmed.symm.trans leads.confirmed)
  have gained := voted group?_parting.2 ⟨2⟩ (by decide) fresh ⟨2⟩ ⟨2⟩ owner (by decide) accepted
  exact ⟨reachable_parted _, leads, accepted, s', done, Nat.zero_lt_of_lt gained⟩

end State

end Namesake
