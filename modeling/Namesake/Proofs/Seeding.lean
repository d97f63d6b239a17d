import Namesake.Proofs.Chronicle
import Namesake.Proofs.Projection

/-! # Names the new build is known to have

Seeding confirms every new type whose plain name is known, for the old type of that name or for a
placeholder (`Context.seedHandle`). No two known names lead to the same old side, as plain names
are not shared in either build, so each of these confirmations finds both sides free
(`target?_of_mem_seedPairs`). What is confirmed stays so, and known names stay too.
-/

namespace Namesake

/-- What a new type of a known plain name is confirmed for: the old type of that name, or a
placeholder if there is none. -/
def Context.seedHandle (c : Context) (plain : String) : Handle TypeId :=
  match c.names.inverseType? plain >>= c.old.program.typeNamed? with
  | some old => .real old
  | none => .synthetic ⟨none, plain, none⟩

/-- The pairs that seeding confirms. -/
def seedPairs (c : Context) (known : MappingSet) : List (Handle TypeId × TypeId) :=
  known.typeList.filterMap fun e =>
    (c.new.program.typeNamed? e.1).map fun n => (c.seedHandle e.2, n)

theorem Session.seedActions_eq (c : Context) (known : MappingSet) :
    seedActions c known = (seedPairs c known).map fun e => .confirmType e.1 e.2 := by
  rw [seedActions, seedPairs, List.map_filterMap]
  congr
  funext ⟨name, plain⟩
  dsimp only
  cases c.new.program.typeNamed? name <;> rfl

variable {c : Context} {known : MappingSet}

theorem mem_seedPairs {x p : String} {n : TypeId} (entry : known.mapType? x = some p)
    (named : c.new.program.typeNamed? x = some n) : (c.seedHandle p, n) ∈ seedPairs c known := by
  apply List.mem_filterMap.mpr
  refine ⟨(x, p), SortedMap.mem_toList.mpr entry, ?_⟩
  rw [named]
  rfl

/-- Different plain names lead to different old sides: the old type of a name has no other. -/
theorem Context.seedHandle_injective (coherent : c.old.program.Coherent)
    (invertible : c.names.Invertible) {p q : String} (same : c.seedHandle p = c.seedHandle q) :
    p = q := by
  have borne : ∀ {plain o}, c.names.inverseType? plain >>= c.old.program.typeNamed? = some o →
      c.names.mapType? (c.old.program.type o).name = some plain := by
    intro plain o found
    obtain ⟨name, bearer, named⟩ := Option.bind_eq_some_iff.mp found
    rw [(coherent.named named).2, invertible]
    exact bearer
  unfold seedHandle at same
  split at same <;> split at same
  · next _ o found _ o' found' =>
    obtain rfl := Handle.real.inj same
    exact Option.some.inj ((borne found).symm.trans (borne found'))
  · cases same
  · cases same
  · exact (Synthetic.mk.inj (Handle.synthetic.inj same)).2.1

/-- No two pairs of seeding share a side. -/
theorem pairwise_seedPairs (coherent : c.Coherent) (invertible : c.names.Invertible)
    (knownInvertible : known.Invertible) :
    (seedPairs c known).Pairwise fun a b => a.1 ≠ b.1 ∧ a.2 ≠ b.2 := by
  rw [seedPairs, List.pairwise_filterMap]
  apply known.types.sorted.imp_of_mem
  intro first second member member' ordered a found b found'
  obtain ⟨n, named, rfl⟩ := Option.map_eq_some_iff.mp found
  obtain ⟨n', named', rfl⟩ := Option.map_eq_some_iff.mp found'
  have other : first.1 ≠ second.1 := KeyOrder.ne_of_before ordered
  constructor
  · intro same
    have plains := c.seedHandle_injective coherent.old invertible same
    have entry : known.mapType? first.1 = some first.2 := SortedMap.mem_toList.mp member
    have entry' : known.mapType? second.1 = some second.2 := SortedMap.mem_toList.mp member'
    rw [← plains] at entry'
    exact other (knownInvertible.eq_of_mapType? entry entry')
  · rintro rfl
    exact other ((coherent.new.named named).2.symm.trans (coherent.new.named named').2)

/-! ## Pairs that do not compete -/

theorem Partition.isTaken_settle {ι : Type} [KeyOrder ι] [DecidableEq ι] {p : Partition ι}
    {old : Handle ι} {entry : MatchEntry ι} {target : ι} {k : Handle ι} {n : ι}
    (free : p.isTaken k n = false) (otherOld : old ≠ k) (otherNew : target ≠ n) :
    (p.settle old entry target).isTaken k n = false := by
  obtain ⟨fresh, unclaimed⟩ := isTaken_eq_false_iff.mp free
  rw [isTaken_eq_false_iff, isConfirmed_settle, isClaimed_settle, fresh, unclaimed,
    decide_eq_false otherOld, decide_eq_false otherNew]
  exact ⟨rfl, rfl⟩

theorem State.extends_confirmType (c : Context) (s : State) (old : Handle TypeId) (new : TypeId) :
    s.ledger.types.Extends (s.confirmType c old new).ledger.types := by
  unfold confirmType
  split_ifs with taken
  · exact .refl _
  · rw [Ledger.types_settleType]
    exact Partition.extends_settle _ _
      (Partition.isTaken_eq_false_iff.mp (Bool.not_eq_true _ ▸ taken)).1

/-- Types stay confirmed while others are. -/
theorem State.extends_foldl_confirmType (c : Context) (pairs : List (Handle TypeId × TypeId))
    (s : State) : s.ledger.types.Extends
      ((pairs.map fun e => Action.confirmType e.1 e.2).foldl (State.after c) s).ledger.types := by
  induction pairs generalizing s with
  | nil => exact .refl _
  | cons first rest ih => exact (s.extends_confirmType c first.1 first.2).trans (ih _)

/-- Pairs that are free and do not share a side are all confirmed. -/
theorem target?_of_mem_pairs {pairs : List (Handle TypeId × TypeId)}
    (apart : pairs.Pairwise fun a b => a.1 ≠ b.1 ∧ a.2 ≠ b.2) {s : State}
    (free : ∀ e ∈ pairs, s.ledger.types.isTaken e.1 e.2 = false) :
    ∀ e ∈ pairs, ((pairs.map fun e => Action.confirmType e.1 e.2).foldl (State.after c)
      s).ledger.types.target? e.1 = some e.2 := by
  induction pairs generalizing s with
  | nil => exact nofun
  | cons first rest ih =>
      obtain ⟨differ, apart⟩ := List.pairwise_cons.mp apart
      obtain ⟨freeFirst, freeRest⟩ := List.forall_mem_cons.mp free
      have settled : (s.after c (.confirmType first.1 first.2)).ledger.types =
          s.ledger.types.settle first.1 (s.ledger.types.entryFor first.1 first.2) first.2 := by
        rw [State.after, State.confirmType, freeFirst, if_neg Bool.false_ne_true,
          Ledger.types_settleType]
      intro e member
      rw [List.map_cons, List.foldl_cons]
      rcases List.mem_cons.mp member with rfl | later
      · apply State.extends_foldl_confirmType
        rw [settled, Partition.target?_settle, if_pos rfl]
        rfl
      · apply ih apart _ e later
        intro e' member'
        rw [settled]
        exact Partition.isTaken_settle (freeRest e' member') (differ e' member').1
          (differ e' member').2

/-- Nothing is confirmed but the pairs and what was confirmed before. -/
theorem mem_pairs_of_target? {pairs : List (Handle TypeId × TypeId)} {s : State}
    {k : Handle TypeId} {n : TypeId}
    (confirmed : ((pairs.map fun e => Action.confirmType e.1 e.2).foldl (State.after c)
      s).ledger.types.target? k = some n) :
    s.ledger.types.target? k = some n ∨ (k, n) ∈ pairs := by
  induction pairs generalizing s with
  | nil => exact .inl confirmed
  | cons first rest ih =>
      rcases ih confirmed with before | later
      · rw [State.after, State.confirmType] at before
        split_ifs at before
        · exact .inl before
        · rw [Ledger.types_settleType, Partition.target?_settle] at before
          split_ifs at before with same
          · obtain rfl := Option.some.inj before
            exact .inr (List.mem_cons.mpr (.inl (Prod.ext same.symm rfl)))
          · exact .inl before
      · exact .inr (List.mem_cons_of_mem first later)

/-- Seeding an empty ledger confirms all its pairs. -/
theorem target?_of_mem_seedPairs (coherent : c.Coherent) (invertible : c.names.Invertible)
    (knownInvertible : known.Invertible) {s : State} (empty : s.ledger = ∅) :
    ∀ e ∈ seedPairs c known, ((Session.seedActions c known).foldl (State.after c)
      s).ledger.types.target? e.1 = some e.2 := by
  rw [Session.seedActions_eq]
  apply target?_of_mem_pairs (pairwise_seedPairs coherent invertible knownInvertible)
  intro e member
  rw [empty]
  rfl

namespace Partition

/-- A new thing is confirmed for one old thing, and for no other. -/
def IsHeldBy {ι : Type} [KeyOrder ι] (p : Partition ι) (n : ι) (k : Handle ι) : Prop :=
  p.holder? n = some k ∧ ∀ k', p.target? k' = some n ↔ k' = k

theorem Sound.isHeldBy {ι : Type} [KeyOrder ι] {p : Partition ι} (sound : p.Sound) {n : ι}
    {k : Handle ι} (confirmed : p.target? k = some n) : p.IsHeldBy n k := by
  refine ⟨sound.holder_iff.mpr confirmed, ?_⟩
  intro k'
  constructor
  · intro confirmed'
    exact sound.target?_injective confirmed' confirmed
  · rintro rfl
    exact confirmed

end Partition

namespace Session

/-- **Known names win.** In a new session about valid programs seeding counts no change, and a merge
with the usual pipeline succeeds. All along, from the end of seeding on, every new type whose plain
name is known is confirmed for what has that name in the old build, or for a placeholder, and for
nothing else; and in the end it still has that name. -/
theorem merge_keeps_known_names (old : Program) (names : MappingSet) (new : Program)
    (known : MappingSet) (settings : MergeSettings) (validOld : old.validate = .ok ())
    (validNew : new.validate = .ok ()) (namesInvertible : names.Invertible)
    (knownInvertible : known.Invertible) :
    let c := Context.of old names new settings
    let s := (start old names new known settings).withDefaultSteps
    let begun := (s.afterCall .seed).state
    let holds (l : Ledger) : Prop := ∀ x p n, known.mapType? x = some p →
      new.typeNamed? x = some n → l.types.IsHeldBy n (c.seedHandle p)
    begun.changes = 0 ∧ ∃ log s', s.merge = .ok log s' ∧ AllAlong c begun.ledger log holds ∧
      holds s'.state.ledger ∧ ∀ x p, known.mapType? x = some p → s'.output.mapType? x = some p := by
  intro c s begun holds
  have coherent : c.Coherent := coherent_of_validate validOld validNew names settings
  have lawful : s.state.ledger.Lawful c (.inside coherent.new) :=
    start_lawful old names new known settings (.inside coherent.new)
  have invertible : c.names.Invertible :=
    namesInvertible.excludingPackages settings.excludedPackages
  have seeded : begun = { s.seedState with changes := 0 } := by
    simp only [begun, afterCall, Call.make, seed_eq]
    rfl
  have confirmed : ∀ e ∈ seedPairs c known, begun.ledger.types.target? e.1 = some e.2 := by
    rw [seeded]
    exact target?_of_mem_seedPairs coherent invertible knownInvertible rfl
  have kept : ∀ l : Ledger, l.Lawful c (.inside coherent.new) →
      begun.ledger.types.Extends l.types → holds l := by
    intro l lawful' extends_ x p n entry named
    apply lawful'.types.sound.isHeldBy
    exact extends_ _ _ (confirmed _ (mem_seedPairs entry named))
  obtain ⟨log, s', merged, lawful', chronicle, latest, output⟩ :=
    merge_chronicle coherent rfl (rfl : s.steps = defaultSteps) lawful
  refine ⟨by rw [seeded], log, s', merged, chronicle.allAlong coherent.old lawful' kept, ?_, ?_⟩
  · rw [latest]
    exact kept _ (chronicle.lawful coherent.old lawful')
      (chronicle.extends_types coherent.old lawful')
  · intro x p entry
    rw [output]
    apply (extends_project c s'.state.ledger _).type
    simp only [afterCall, Call.make, seed_eq]
    exact entry

/-- A class whose plain name is known in both builds is confirmed for its namesake. -/
theorem merge_keeps_known_names_of_single :
    let old := Program.single "a" "b"
    let new := Program.single "x" "y"
    let names := (∅ : MappingSet).addType "a" "Known"
    let known := (∅ : MappingSet).addType "x" "Known"
    let s := (start old names new known .default).withDefaultSteps
    old.validate = .ok () ∧ new.validate = .ok () ∧ names.Invertible ∧ known.Invertible ∧
      known.mapType? "x" = some "Known" ∧ new.typeNamed? "x" = some ⟨0⟩ ∧
      ∃ log s', s.merge = .ok log s' ∧ s'.state.ledger.types.IsHeldBy ⟨0⟩ (.real ⟨0⟩) ∧
        s'.output.mapType? "x" = some "Known" := by
  intro old new names known s
  have validOld := Program.validate_single "a" "b"
  have validNew := Program.validate_single "x" "y"
  have namesInvertible : names.Invertible := MappingSet.Invertible.empty.addType "a" "Known"
  have knownInvertible : known.Invertible := MappingSet.Invertible.empty.addType "x" "Known"
  have entry : known.mapType? "x" = some "Known" := by decide
  have named : new.typeNamed? "x" = some ⟨0⟩ := by decide
  have namesake : (Context.of old names new .default).seedHandle "Known" = .real ⟨0⟩ := by decide
  obtain ⟨-, log, s', merged, -, held, kept⟩ := merge_keeps_known_names old names new known .default
    validOld validNew namesInvertible knownInvertible
  refine ⟨validOld, validNew, namesInvertible, knownInvertible, entry, named, log, s', merged, ?_,
    kept "x" "Known" entry⟩
  rw [← namesake]
  exact held "x" "Known" ⟨0⟩ entry named

end Session

end Namesake
