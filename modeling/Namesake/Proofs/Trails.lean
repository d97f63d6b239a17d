import Namesake.Proofs.LedgerRules
import Namesake.Proofs.PartitionInvariants

/-! # Trails of warranted actions

Whatever is done during a merge is a trail of warranted actions (`Trail`). To one partition, an
action does one of three things (`Partition.Move`): it changes pending entries, it settles a pair
that was free, or it marks a confirmed pair as compared. What a partition goes through on a trail is
thus a course of such moves (`Partition.Course`), which keeps every confirmed pair and every mark,
claims one new thing for each pair it settles, and marks only what it says it marks. The count of
changes goes up by the number of pairs settled in the three partitions (`Trail.courses`).
-/

namespace Namesake

namespace Partition

variable {ι : Type} [KeyOrder ι]

/-- An old thing is confirmed, and the pair is marked as compared. -/
def IsMerged (p : Partition ι) (k : Handle ι) : Prop :=
  ∃ e, p.confirmed.get? k = some e ∧ e.merged = true

theorem isConfirmed_of_isMerged {p : Partition ι} {k : Handle ι} (merged : p.IsMerged k) :
    p.isConfirmed k = true := by
  obtain ⟨e, found, -⟩ := merged
  exact SortedMap.contains_of_get? found

/-- What an entry contributes to the unmerged pairs. -/
private theorem unmergedPair_eq_some_iff {e : MatchEntry ι} {o n : ι} :
    (do guard !e.merged; return (← e.old.real?, ← e.target) : Option (ι × ι)) = some (o, n) ↔
      e.merged = false ∧ e.old = .real o ∧ e.target = some n := by
  cases e.merged with
  | true => exact ⟨nofun, nofun⟩
  | false =>
      change (do return (← e.old.real?, ← e.target) : Option (ι × ι)) = some (o, n) ↔ _
      rw [pair_eq_some_iff]
      simp

/-- The unmerged pairs are those confirmed of the old program that are not marked. -/
theorem Sound.mem_unmergedPairs {p : Partition ι} (sound : p.Sound) {o n : ι} :
    (o, n) ∈ p.unmergedPairs ↔ p.target? (.real o) = some n ∧ ¬ p.IsMerged (.real o) := by
  rw [unmergedPairs, List.mem_filterMap, target?_eq_some_iff]
  constructor
  · intro listed
    obtain ⟨e, member, pair⟩ := listed
    obtain ⟨unmarked, old, target⟩ := unmergedPair_eq_some_iff.mp pair
    obtain ⟨k, found⟩ := SortedMap.mem_values.mp member
    have key : k = .real o := (sound.confirmedKey found).symm.trans old
    rw [key] at found
    refine ⟨⟨e, found, target⟩, ?_⟩
    intro merged
    obtain ⟨e', found', marked⟩ := merged
    rw [found] at found'
    rw [← Option.some.inj found', unmarked] at marked
    cases marked
  · intro confirmed
    obtain ⟨⟨e, found, target⟩, unmerged⟩ := confirmed
    have unmarked : e.merged = false := by
      rw [← Bool.not_eq_true]
      exact fun merged => unmerged ⟨e, found, merged⟩
    exact ⟨e, SortedMap.mem_values.mpr ⟨.real o, found⟩,
      unmergedPair_eq_some_iff.mpr ⟨unmarked, sound.confirmedKey found, target⟩⟩

/-- No old thing stands in two unmerged pairs. -/
theorem Sound.nodup_unmergedPairs {p : Partition ι} (sound : p.Sound) :
    (p.unmergedPairs.map Prod.fst).Nodup := by
  have differ : p.confirmed.values.Pairwise fun e e' => e.old ≠ e'.old := by
    rw [SortedMap.values, List.pairwise_map]
    refine p.confirmed.sorted.imp_of_mem ?_
    intro a b first second ordered
    rw [sound.confirmedKey (SortedMap.mem_toList.mp first),
      sound.confirmedKey (SortedMap.mem_toList.mp second)]
    exact KeyOrder.ne_of_before ordered
  rw [List.Nodup, List.pairwise_map, unmergedPairs, List.pairwise_filterMap]
  refine differ.imp ?_
  intro e e' apart pair first pair' second same
  obtain ⟨-, old, -⟩ := unmergedPair_eq_some_iff.mp first
  obtain ⟨-, old', -⟩ := unmergedPair_eq_some_iff.mp second
  exact apart (by rw [old, old', same])

variable [DecidableEq ι]

/-- What an action can do to a partition, with the number of pairs it confirms and the pair it
marks as compared. -/
inductive Move (p : Partition ι) : Nat → Option (Handle ι) → Partition ι → Prop
  /-- Pending entries change. -/
  | evidence {p' : Partition ι} (confirmed : p'.confirmed = p.confirmed)
      (inverse : p'.inverse = p.inverse) : Move p 0 none p'
  /-- A pair is confirmed of which neither side was taken. -/
  | settled {old : Handle ι} {new : ι} (free : p.isTaken old new = false)
      (unmarked : (p.entryFor old new).merged = false) :
      Move p 1 none (p.settle old (p.entryFor old new) new)
  /-- A pair is marked, if it is confirmed. -/
  | marked (old : Handle ι) : Move p 0 (some old) (p.marked old)

namespace Move

variable {p p' : Partition ι} {n : Nat} {mark : Option (Handle ι)}

theorem refl (p : Partition ι) : p.Move 0 none p := .evidence rfl rfl

theorem extends_ (move : p.Move n mark p') : p.Extends p' := by
  intro k t confirmed
  cases move with
  | evidence same => rw [target?, same]; exact confirmed
  | settled free => exact extends_settle _ _ (isTaken_eq_false_iff.mp free).1 k t confirmed
  | marked old => rw [target?_marked]; exact confirmed

/-- A move claims as many new things as it confirms pairs. -/
theorem size_inverse (move : p.Move n mark p') : p'.inverse.size = p.inverse.size + n := by
  cases move with
  | evidence _ same => rw [same, Nat.add_zero]
  | settled free =>
      exact SortedMap.size_insert_of_not_contains _ (isTaken_eq_false_iff.mp free).2
  | marked old => rw [inverse_marked, Nat.add_zero]

theorem target?_eq (move : p.Move n mark p') (none_ : n = 0) (k : Handle ι) :
    p'.target? k = p.target? k := by
  cases move with
  | evidence same => rw [target?, same, target?]
  | settled => exact absurd none_ Nat.one_ne_zero
  | marked old => exact target?_marked p old k

theorem isConfirmed (move : p.Move n mark p') {k : Handle ι} (confirmed : p.isConfirmed k = true) :
    p'.isConfirmed k = true := by
  cases move with
  | evidence same => rw [Partition.isConfirmed, same]; exact confirmed
  | settled =>
      rw [Partition.isConfirmed, settle, SortedMap.contains_insert, Bool.or_eq_true]
      exact .inr confirmed
  | marked old => rw [isConfirmed_marked]; exact confirmed

/-- A move marks the pair it says, if that is confirmed, and no other. -/
theorem isMerged_iff (move : p.Move n mark p') {k : Handle ι} :
    p'.IsMerged k ↔ p.IsMerged k ∨ mark = some k ∧ p.isConfirmed k = true := by
  cases move with
  | evidence same =>
      rw [IsMerged, same, IsMerged]
      exact ⟨.inl, (·.resolve_right nofun)⟩
  | @settled old new free unmarked =>
      obtain ⟨fresh, -⟩ := isTaken_eq_false_iff.mp free
      rw [IsMerged, get?_confirmed_settle, IsMerged]
      by_cases same : old = k
      · subst same
        rw [if_pos rfl, isConfirmed_eq_false_iff.mp fresh]
        constructor
        · rintro ⟨e, found, merged⟩
          obtain rfl := Option.some.inj found
          have former : (p.entryFor old new).merged = true := merged
          rw [unmarked] at former
          cases former
        · rintro (⟨e, found, -⟩ | ⟨impossible, -⟩)
          · cases found
          · cases impossible
      · rw [if_neg same]
        exact ⟨.inl, (·.resolve_right nofun)⟩
  | marked old =>
      rw [IsMerged, get?_confirmed_marked, IsMerged]
      by_cases same : old = k
      · subst same
        rw [if_pos rfl]
        constructor
        · rintro ⟨e, found, -⟩
          obtain ⟨e', present, -⟩ := Option.map_eq_some_iff.mp found
          exact .inr ⟨rfl, SortedMap.contains_of_get? present⟩
        · intro either
          have present : ∃ e, p.confirmed.get? old = some e := by
            rcases either with ⟨e, found, -⟩ | ⟨-, confirmed⟩
            · exact ⟨e, found⟩
            · exact SortedMap.contains_iff.mp confirmed
          obtain ⟨e, found⟩ := present
          exact ⟨{ e with merged := true }, by rw [found]; rfl, rfl⟩
      · rw [if_neg same]
        constructor
        · exact .inl
        · rintro (merged | ⟨mark, -⟩)
          · exact merged
          · exact absurd (Option.some.inj mark) same

end Move

/-- Moves one after the other, with the number of pairs they confirm and the pairs they mark. -/
inductive Course : Partition ι → Nat → List (Handle ι) → Partition ι → Prop
  | refl (p : Partition ι) : Course p 0 [] p
  | cons {p p' p'' : Partition ι} {n m : Nat} {mark : Option (Handle ι)} {marks : List (Handle ι)}
      (move : p.Move n mark p') (later : Course p' m marks p'') :
      Course p (n + m) (mark.toList ++ marks) p''

namespace Course

variable {p p' : Partition ι} {n : Nat} {marks : List (Handle ι)}

theorem extends_ (course : p.Course n marks p') : p.Extends p' := by
  induction course with
  | refl p => exact .refl p
  | cons move later ih => exact move.extends_.trans ih

theorem size_inverse (course : p.Course n marks p') : p'.inverse.size = p.inverse.size + n := by
  induction course with
  | refl p => rfl
  | cons move later ih => rw [ih, move.size_inverse, Nat.add_assoc]

/-- A course that confirms no pair leaves the confirmed ones as they were. -/
theorem target?_eq (course : p.Course n marks p') (none_ : n = 0) (k : Handle ι) :
    p'.target? k = p.target? k := by
  induction course with
  | refl p => rfl
  | cons move later ih =>
      obtain ⟨first, rest⟩ := Nat.add_eq_zero_iff.mp none_
      rw [ih rest, move.target?_eq first]

theorem isMerged (course : p.Course n marks p') {k : Handle ι} (merged : p.IsMerged k) :
    p'.IsMerged k := by
  induction course with
  | refl p => exact merged
  | cons move later ih => exact ih (move.isMerged_iff.mpr (.inl merged))

/-- What a course marks is marked at its end, if it was confirmed before. -/
theorem isMerged_of_mem (course : p.Course n marks p') {k : Handle ι} (member : k ∈ marks)
    (confirmed : p.isConfirmed k = true) : p'.IsMerged k := by
  induction course with
  | refl p => cases member
  | cons move later ih =>
      rcases List.mem_append.mp member with first | rest
      · have mark := Option.mem_toList.mp first
        exact later.isMerged (move.isMerged_iff.mpr (.inr ⟨mark, confirmed⟩))
      · exact ih rest (move.isConfirmed confirmed)

/-- What is marked at the end of a course was marked before or on it. -/
theorem mem_of_isMerged (course : p.Course n marks p') {k : Handle ι} (merged : p'.IsMerged k) :
    p.IsMerged k ∨ k ∈ marks := by
  induction course with
  | refl p => exact .inl merged
  | cons move later ih =>
      rcases ih merged with before | rest
      · rcases move.isMerged_iff.mp before with before | ⟨mark, -⟩
        · exact .inl before
        · exact .inr (List.mem_append_left _ (Option.mem_toList.mpr mark))
      · exact .inr (List.mem_append_right _ rest)

end Course

end Partition

/-! ## Trails -/

/-- Actions one after the other, each warranted when its turn comes. -/
inductive Trail (c : Context) (pool : Pool c.old.program c.new.program) :
    State → List Action → State → Prop
  | done (s : State) : Trail c pool s [] s
  | act {s s' : State} {a : Action} {actions : List Action}
      (warranted : a.Warranted c pool s.ledger) (rest : Trail c pool (s.after c a) actions s') :
      Trail c pool s (a :: actions) s'

namespace Action

/-- The old type whose pair an action marks. -/
def markedType? : Action → Option (Handle TypeId)
  | mergedType old => some (.real old)
  | _ => none

/-- The old method whose pair an action marks. -/
def markedMethod? : Action → Option (Handle MethodId)
  | mergedMethod old => some (.real old)
  | _ => none

/-- The old field whose pair an action marks. -/
def markedField? : Action → Option (Handle FieldId)
  | mergedField old => some (.real old)
  | _ => none

/-- Whether an action confirms something. -/
def isConfirmation : Action → Bool
  | confirmType .. | confirmMethod .. | confirmField .. => true
  | _ => false

end Action

theorem Ledger.Lawful.sound {c : Context} {pool : Pool c.old.program c.new.program} {l : Ledger}
    (lawful : l.Lawful c pool) : l.Each Partition.Sound :=
  ⟨lawful.types.sound, lawful.methods.sound, lawful.fields.sound⟩

/-- What an action does to the three partitions and to the count of changes. -/
theorem State.after_moves {c : Context} {s : State} (sound : s.ledger.Each Partition.Sound)
    (a : Action) :
    ∃ t m f, s.ledger.types.Move t a.markedType? (s.after c a).ledger.types ∧
      s.ledger.methods.Move m a.markedMethod? (s.after c a).ledger.methods ∧
      s.ledger.fields.Move f a.markedField? (s.after c a).ledger.fields ∧
      (s.after c a).changes = s.changes + (t + m + f) := by
  cases a with
  | vote b =>
      refine ⟨0, 0, 0, ?_, ?_, ?_, rfl⟩
      all_goals
        simp only [after, Ballot.cast]
        split_ifs
        · cases b
          all_goals first
            | exact .evidence (Partition.confirmed_vote _ _ _) (Partition.inverse_vote _ _ _)
            | exact .refl _
        · exact .refl _
  | confirmType old new =>
      simp only [after, confirmType]
      split_ifs with taken
      · exact ⟨0, 0, 0, .refl _, .refl _, .refl _, rfl⟩
      · refine ⟨1, 0, 0, ?_, ?_, ?_, rfl⟩
        · rw [Ledger.types_settleType]
          exact .settled (Bool.not_eq_true _ ▸ taken) (sound.types.merged_entryFor old new)
        · exact .evidence (Ledger.confirmed_methods_settleType c _ old new)
            (Ledger.inverse_methods_settleType c _ old new)
        · exact .evidence (Ledger.confirmed_fields_settleType c _ old new)
            (Ledger.inverse_fields_settleType c _ old new)
  | confirmMethod old new =>
      simp only [after, confirmMethod]
      split_ifs with taken
      · exact ⟨0, 0, 0, .refl _, .refl _, .refl _, rfl⟩
      · exact ⟨0, 1, 0, .refl _,
          .settled (Bool.not_eq_true _ ▸ taken) (sound.methods.merged_entryFor old new),
          .refl _, rfl⟩
  | confirmField old new =>
      simp only [after, confirmField]
      split_ifs with taken
      · exact ⟨0, 0, 0, .refl _, .refl _, .refl _, rfl⟩
      · exact ⟨0, 0, 1, .refl _, .refl _,
          .settled (Bool.not_eq_true _ ▸ taken) (sound.fields.merged_entryFor old new), rfl⟩
  | mergedType old => exact ⟨0, 0, 0, .marked _, .refl _, .refl _, rfl⟩
  | mergedMethod old => exact ⟨0, 0, 0, .refl _, .marked _, .refl _, rfl⟩
  | mergedField old => exact ⟨0, 0, 0, .refl _, .refl _, .marked _, rfl⟩

namespace Trail

variable {c : Context} {pool : Pool c.old.program c.new.program} {s s' s'' : State}
  {actions later : List Action}

theorem append (first : Trail c pool s actions s') (second : Trail c pool s' later s'') :
    Trail c pool s (actions ++ later) s'' := by
  induction first with
  | done s => exact second
  | act warranted rest ih => exact .act warranted (ih second)

theorem single {a : Action} (warranted : a.Warranted c pool s.ledger) :
    Trail c pool s [a] (s.after c a) :=
  .act warranted (.done _)

/-- A trail leads from a lawful ledger to a lawful one. -/
theorem lawful (coherent : c.old.program.Coherent) (trail : Trail c pool s actions s')
    (before : s.ledger.Lawful c pool) : s'.ledger.Lawful c pool := by
  induction trail with
  | done s => exact before
  | act warranted rest ih => exact ih (before.after coherent warranted)

/-- **What a trail does to the partitions.** Each goes through a course of its own, which marks the
pairs the actions say, and the count of changes grows by the pairs that are confirmed on the three
courses together. -/
theorem courses (coherent : c.old.program.Coherent) (trail : Trail c pool s actions s')
    (before : s.ledger.Lawful c pool) :
    ∃ t m f, s.ledger.types.Course t (actions.filterMap Action.markedType?) s'.ledger.types ∧
      s.ledger.methods.Course m (actions.filterMap Action.markedMethod?) s'.ledger.methods ∧
      s.ledger.fields.Course f (actions.filterMap Action.markedField?) s'.ledger.fields ∧
      s'.changes = s.changes + (t + m + f) := by
  induction trail with
  | done s => exact ⟨0, 0, 0, .refl _, .refl _, .refl _, rfl⟩
  | @act s s' a actions warranted rest ih =>
      obtain ⟨t, m, f, types, methods, fields, changes⟩ := State.after_moves before.sound a
      obtain ⟨t', m', f', types', methods', fields', changes'⟩ :=
        ih (before.after coherent warranted)
      have marks {κ : Type} (marked? : Action → Option κ) :
          (a :: actions).filterMap marked? = (marked? a).toList ++ actions.filterMap marked? := by
        cases first : marked? a <;> simp [first]
      rw [marks, marks, marks]
      refine ⟨t + t', m + m', f + f', .cons types types', .cons methods methods',
        .cons fields fields', ?_⟩
      rw [changes', changes]
      omega

theorem extends_types (coherent : c.old.program.Coherent) (trail : Trail c pool s actions s')
    (before : s.ledger.Lawful c pool) : s.ledger.types.Extends s'.ledger.types := by
  obtain ⟨t, m, f, types, -⟩ := trail.courses coherent before
  exact types.extends_

/-- Actions that are all warranted at the start make a trail. -/
theorem of_warranted (coherent : c.old.program.Coherent) (before : s.ledger.Lawful c pool)
    (warranted : ∀ a ∈ actions, a.Warranted c pool s.ledger) :
    Trail c pool s actions (actions.foldl (State.after c) s) := by
  induction actions generalizing s with
  | nil => exact .done s
  | cons a rest ih =>
      rw [List.forall_mem_cons] at warranted
      obtain ⟨first, others⟩ := warranted
      have extends_ := (single first).extends_types coherent before
      exact .act first (ih (before.after coherent first) fun b member =>
        (others b member).mono extends_)

end Trail

end Namesake
