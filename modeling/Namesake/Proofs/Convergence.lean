import Namesake.Proofs.Cycles

/-! # Convergence

A merge runs another cycle only after something was confirmed, and whatever is confirmed takes up a
new thing that nothing else will be confirmed onto. So there are at most as many cycles as there are
things in the new program, and with that many allowed a merge ends when a cycle confirms nothing.
-/

namespace Namesake

theorem Partition.Sound.size_inverse_le {ι : Type} [KeyOrder ι] {p : Partition ι} (sound : p.Sound)
    {things : List ι} (inside : ∀ k n, p.target? k = some n → n ∈ things) :
    p.inverse.size ≤ things.length := by
  apply SortedMap.size_le_of_keys_subset
  intro n claimed
  obtain ⟨k, target⟩ := sound.isClaimed_iff.mp claimed
  exact inside k n target

namespace Program

/-- The number of types, methods and fields. -/
def size (p : Program) : Nat := p.types.length + p.methods.length + p.fields.length

end Program

/-- No more new things are confirmed than there are. -/
theorem Ledger.Lawful.claims_le {c : Context} {l : Ledger} {coherent : c.new.program.Coherent}
    (lawful : l.Lawful c (.inside coherent)) : l.claims ≤ c.new.program.size := by
  have types : l.types.inverse.size ≤ c.new.program.typeIds.length := by
    apply lawful.types.sound.size_inverse_le
    intro k t target
    exact Program.mem_typeIds.mpr (lawful.types.follows.pair target)
  have methods : l.methods.inverse.size ≤ c.new.program.methodIds.length := by
    apply lawful.methods.sound.size_inverse_le
    intro k m target
    exact Program.mem_methodIds.mpr (lawful.methods.follows.pair target).1
  have fields : l.fields.inverse.size ≤ c.new.program.fieldIds.length := by
    apply lawful.fields.sound.size_inverse_le
    intro k f target
    exact Program.mem_fieldIds.mpr (lawful.fields.follows.pair target).1
  simp only [Program.typeIds, Program.methodIds, Program.fieldIds, List.length_map,
    List.length_range] at types methods fields
  unfold Ledger.claims Program.size
  omega

namespace Session

/-- In a new session nothing counts as a change after seeding, and no jump was taken. -/
theorem afterCall_seed_start (old : Program) (names : MappingSet) (new : Program)
    (known : MappingSet) (settings : MergeSettings) :
    let begun := (start old names new known settings).withDefaultSteps.afterCall .seed
    begun.cycle + begun.state.changes = 0 := by
  intro begun
  simp only [begun, afterCall, Call.make, seed_eq]
  rfl

/-- **A merge settles.** In a new session about valid programs a merge with the usual pipeline takes
at most as many jumps as the new program has types, methods and fields. If that many are allowed, it
ends because the last look at the count of changes found none, and nothing was confirmed since the
look before, or since seeding if there was none. -/
theorem merge_settles (old : Program) (names : MappingSet) (new : Program) (known : MappingSet)
    (settings : MergeSettings) (validOld : old.validate = .ok ())
    (validNew : new.validate = .ok ()) :
    let s := (start old names new known settings).withDefaultSteps
    ∃ log s', s.merge = .ok log s' ∧ s'.cycle ≤ new.size ∧
      (new.size ≤ settings.maxCycles →
        ∃ latest earlier, log = latest :: earlier ∧ latest.cycle = s'.cycle ∧
          Pass.all[latest.step]? = some .collector ∧ s'.state = latest.state.takeChanges.2 ∧
          (Predicate.changesSinceReset latest.state).1 = false ∧
          (∀ e ∈ log, e.cycle = s'.cycle → e.state.changes = 0) ∧
          let before := cycleStart (s.afterCall .seed).state.ledger log s'.cycle
          (∀ k, s'.state.ledger.types.target? k = before.types.target? k) ∧
          (∀ k, s'.state.ledger.methods.target? k = before.methods.target? k) ∧
          ∀ k, s'.state.ledger.fields.target? k = before.fields.target? k) := by
  intro s
  have coherent := coherent_of_validate validOld validNew names settings
  have lawful := start_lawful old names new known settings (.inside coherent.new)
  obtain ⟨log, s', look, merged, state, underway, limit⟩ :=
    merge_default coherent rfl (rfl : s.steps = defaultSteps) lawful Partition.empty_handedOver
  have begun : (s.afterCall .seed).cycle + (s.afterCall .seed).state.changes = 0 :=
    afterCall_seed_start old names new known settings
  have paid := underway.paid
  have claims : look.ledger.claims ≤ new.size := (underway.lawful coherent).claims_le
  rw [begun] at paid
  refine ⟨log, s', merged, by omega, ?_⟩
  intro allowed
  have none_ : look.changes = 0 := by
    by_contra changed
    have reached : settings.maxCycles ≤ s'.cycle := limit (Nat.pos_of_ne_zero changed)
    omega
  obtain ⟨earlier, ended⟩ := underway.ended
  refine ⟨_, earlier, ended, rfl, rfl, state, ?_, ?_, ?_⟩
  · exact decide_eq_false (Nat.not_lt_of_le (Nat.le_of_eq none_))
  · intro e member same
    have counted := underway.counted e member same
    omega
  · have quiet := underway.quiet coherent none_
    rw [state]
    exact quiet

/-- Two programs of one class each settle within three jumps. -/
theorem merge_settles_of_single :
    let old := Program.single "a" "b"
    let new := Program.single "x" "y"
    let names := (∅ : MappingSet).addType "a" "Known"
    let known := (∅ : MappingSet).addType "x" "Known"
    let s := (start old names new known .default).withDefaultSteps
    old.validate = .ok () ∧ new.validate = .ok () ∧ new.size = 3 ∧
      new.size ≤ MergeSettings.default.maxCycles ∧
      (s.afterCall .seed).state.ledger.types.target? (.real ⟨0⟩) = some ⟨0⟩ ∧
      ∃ log s', s.merge = .ok log s' ∧ s'.cycle ≤ 3 ∧ ∃ latest earlier, log = latest :: earlier ∧
        (Predicate.changesSinceReset latest.state).1 = false := by
  intro old new names known s
  have validOld := Program.validate_single "a" "b"
  have validNew := Program.validate_single "x" "y"
  have allowed : new.size ≤ MergeSettings.default.maxCycles := by decide
  have seeded : (s.afterCall .seed).state.ledger.types.target? (.real ⟨0⟩) = some ⟨0⟩ := by
    decide +kernel
  obtain ⟨log, s', merged, few, settled⟩ :=
    merge_settles old names new known .default validOld validNew
  obtain ⟨latest, earlier, ended, -, -, -, none_, -⟩ := settled allowed
  exact ⟨validOld, validNew, rfl, allowed, seeded, log, s', merged, few, latest, earlier, ended,
    none_⟩

end Session

end Namesake
