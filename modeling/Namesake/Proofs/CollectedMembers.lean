import Namesake.Proofs.MemberTurns

/-! # Members the collector confirms

Whatever was voted for, a method or field the collector confirms follows its owner, which is
confirmed along with it where it was open (`State.Reachable.collected_methods_follow_owners`,
`State.Reachable.collected_fields_follow_owners`). Votes about bridges are not checked against
owners, though, and the collector does not look at an owner that is confirmed already, so a bridge
may be confirmed onto a method of some other type (`Session.bridge_collected_across_owners`).
-/

namespace Namesake

/-! ## Methods and fields -/

variable {c : Context} {s : State}

/-- Look at one pending method. -/
def Context.collectMethod (c : Context) : Handle MethodId → Work Unit :=
  collectOne (·.methods) fun old new =>
    confirmOwned c (c.methodOwners old new) (Work.confirmMethod old new)

/-- Look at one pending field. -/
def Context.collectField (c : Context) : Handle FieldId → Work Unit :=
  collectOne (·.fields) fun old new =>
    confirmOwned c (c.fieldOwners old new) (Work.confirmField old new)

/-- Collecting methods is looking at one after the other. -/
theorem collectMethods_eq_forM (s : State) : collectMethods c s =
    (s.ledger.methods.batch c.settings.collector c.settings.collector.minMethods).forM
      c.collectMethod s := by
  rw [collectMethods_eq_collect, collect, get_bind]
  rfl

/-- Collecting fields is looking at one after the other. -/
theorem collectFields_eq_forM (s : State) : collectFields c s =
    (s.ledger.fields.batch c.settings.collector c.settings.collector.minFields).forM
      c.collectField s := by
  rw [collectFields_eq_collect, collect, get_bind]
  rfl

theorem Partition.nodup_batch {ι : Type} [KeyOrder ι] (p : Partition ι)
    (settings : CollectorSettings) (minimum : Nat) : (p.batch settings minimum).Nodup :=
  p.nodup_rankedPending.sublist (List.take_sublist _ _)

/-- **Methods the collector confirms follow their owners.** In a reachable state about a valid old
program, collecting methods never fails, and

* a method it confirms had a vote for the new one. Its owner is confirmed afterwards, namely onto
  the owner of the new one; only if one of the two is a bridge and the owner was confirmed before,
  it may be confirmed onto another type.
* A pending method stays pending if the owners of all its candidates are separated from its own in
  the end, and there is no such exception among them.
* At its turn, a method stays pending if its owner is confirmed onto another type than the owner of
  its candidate or that one is claimed by another type, again without such an exception.
* What is pending stays so if it is not confirmed. -/
theorem State.Reachable.collected_methods_follow_owners (reachable : s.Reachable c)
    (valid : c.old.program.validate = .ok ()) :
    let l := s.ledger
    let oldOwner m := (c.old.program.method m).owner
    let newOwner n := (c.new.program.method n).owner
    let excepted m n := c.IsBridged m n ∧ (l.types.target? (.real (oldOwner m))).isSome = true
    ∃ s', collectMethods c s = .ok () s' ∧
      (∀ m n, c.old.program.HasMethod m → l.methods.target? (.real m) = none →
        s'.ledger.methods.target? (.real m) = some n → l.methods.HasVote (.real m) n ∧
          ∃ t, s'.ledger.types.target? (.real (oldOwner m)) = some t ∧
            (t = newOwner n ∨
              c.IsBridged m n ∧ l.types.target? (.real (oldOwner m)) = some t)) ∧
      (∀ m, c.old.program.HasMethod m → l.methods.pending.contains (.real m) = true →
        (∀ n, l.methods.HasVote (.real m) n →
          s'.ledger.types.Separates (oldOwner m) (newOwner n) ∧ ¬ excepted m n) →
        s'.ledger.methods.pending.contains (.real m) = true) ∧
      (∀ before m rest, l.methods.batch c.settings.collector c.settings.collector.minMethods =
          before ++ .real m :: rest → c.old.program.HasMethod m →
        ∃ s₁, before.forM c.collectMethod s = .ok () s₁ ∧ ∀ n,
          s₁.ledger.methods.candidate? (.real m) = some n →
          s₁.ledger.types.Separates (oldOwner m) (newOwner n) → ¬ excepted m n →
          s'.ledger.methods.pending.contains (.real m) = true) ∧
      ∀ k, l.methods.pending.contains k = true → s'.ledger.methods.target? k = none →
        s'.ledger.methods.pending.contains k = true := by
  intro l oldOwner newOwner excepted
  have coherent := Program.coherent_of_validate valid
  have sound := reachable.each Partition.invariant_sound
  obtain ⟨s', only, outcome, agrees, turns⟩ := (MemberCollector.methods c excepted).collected
    coherent sound (reachable.heeds coherent).exempting_confirmed
    (l.methods.nodup_batch c.settings.collector c.settings.collector.minMethods)
  have extends_ := only.extends_types sound
  have sound' := only.sound sound
  refine ⟨s', (collectMethods_eq_forM s).trans only.1, ?_, ?_, turns, ?_⟩
  · intro m n inside open_ confirmed
    have pending : l.methods.pending.contains (.real m) = true := by
      by_contra absent
      have outside : .real m ∉ l.methods.batch c.settings.collector
          c.settings.collector.minMethods := by
        intro listed
        exact absent (Partition.mem_rankedPending.mp (List.mem_of_mem_take listed))
      have same := (agrees _ outside).target?
      have moved : s'.ledger.methods.target? (.real m) = none := same.trans open_
      rw [moved] at confirmed
      cases confirmed
    rcases outcome _ pending with still | ⟨n', confirmed', voted, follows⟩
    · have apart := sound'.methods.apart (Partition.isConfirmed_of_target? confirmed)
      have still : s'.ledger.methods.pending.contains (.real m) = true := still
      rw [apart] at still
      cases still
    · obtain rfl : n = n' := Option.some.inj (confirmed.symm.trans confirmed')
      obtain ⟨t, owner, fits⟩ := follows m rfl inside
      refine ⟨voted, t, owner, fits.imp_right ?_⟩
      rintro ⟨bridged, before⟩
      obtain ⟨t', owner'⟩ := Option.isSome_iff_exists.mp before
      obtain rfl : t' = t := Option.some.inj ((extends_ _ _ owner').symm.trans owner)
      exact ⟨bridged, owner'⟩
  · intro m inside pending apart
    rcases outcome _ pending with still | ⟨n, -, voted, follows⟩
    · exact still
    · obtain ⟨t, owner, rfl | exempt⟩ := follows m rfl inside
      · exact absurd owner ((apart n voted).1.target?_ne sound'.types)
      · exact absurd exempt (apart n voted).2
  · intro k pending open_
    rcases outcome k pending with still | ⟨n, confirmed, -⟩
    · exact still
    · have confirmed : s'.ledger.methods.target? k = some n := confirmed
      rw [open_] at confirmed
      cases confirmed

/-- **Fields the collector confirms follow their owners**, without exception: the owner of a field
is confirmed afterwards onto the owner of the new one, and a field whose owner or whose candidate's
owner belongs to another type at its turn stays pending. -/
theorem State.Reachable.collected_fields_follow_owners (reachable : s.Reachable c)
    (valid : c.old.program.validate = .ok ()) :
    let l := s.ledger
    let oldOwner f := (c.old.program.field f).owner
    let newOwner g := (c.new.program.field g).owner
    ∃ s', collectFields c s = .ok () s' ∧
      (∀ f, c.old.program.HasField f → l.fields.pending.contains (.real f) = true →
        s'.ledger.fields.pending.contains (.real f) = true ∨
          ∃ g, s'.ledger.fields.target? (.real f) = some g ∧ l.fields.HasVote (.real f) g ∧
            s'.ledger.types.target? (.real (oldOwner f)) = some (newOwner g)) ∧
      ∀ before f rest, l.fields.batch c.settings.collector c.settings.collector.minFields =
          before ++ .real f :: rest → c.old.program.HasField f →
        ∃ s₁, before.forM c.collectField s = .ok () s₁ ∧ ∀ g,
          s₁.ledger.fields.candidate? (.real f) = some g →
          s₁.ledger.types.Separates (oldOwner f) (newOwner g) →
          s'.ledger.fields.pending.contains (.real f) = true := by
  intro l oldOwner newOwner
  have coherent := Program.coherent_of_validate valid
  have sound := reachable.each Partition.invariant_sound
  obtain ⟨s', only, outcome, -, turns⟩ := (MemberCollector.fields c c.IsBridged).collected
    coherent sound (reachable.heeds coherent)
    (l.fields.nodup_batch c.settings.collector c.settings.collector.minFields)
  refine ⟨s', (collectFields_eq_forM s).trans only.1, ?_, ?_⟩
  · intro f inside pending
    refine (outcome _ pending).imp_right ?_
    rintro ⟨g, confirmed, voted, follows⟩
    obtain ⟨t, owner, rfl | exempt⟩ := follows f rfl inside
    · exact ⟨g, confirmed, voted, owner⟩
    · exact exempt.elim
  · intro before f rest split inside
    obtain ⟨s₁, done, held⟩ := turns before f rest split inside
    exact ⟨s₁, done, fun g leads apart => held g leads apart id⟩

/-! ## A bridge between other types -/

/-- A program of three classes with a method each, the first of which may be a bridge. -/
def Program.getters (first second third : String) (bridge : Bool) : Program where
  types := [{ name := first, kind := .plain, superclass := none, interfaces := [],
              signature := none, enumConstants := [], methods := [⟨0⟩], fields := [] },
            { name := second, kind := .plain, superclass := none, interfaces := [],
              signature := none, enumConstants := [], methods := [⟨1⟩], fields := [] },
            { name := third, kind := .plain, superclass := none, interfaces := [],
              signature := none, enumConstants := [], methods := [⟨2⟩], fields := [] }]
  methods := [{ name := "get", descriptor := "()V", isStatic := false, isSynthetic := bridge,
                signature := ⟨[], .primitive 'V'⟩, body := none, owner := ⟨0⟩ },
              { name := "get", descriptor := "()V", isStatic := false, isSynthetic := false,
                signature := ⟨[], .primitive 'V'⟩, body := none, owner := ⟨1⟩ },
              { name := "get", descriptor := "()V", isStatic := false, isSynthetic := false,
                signature := ⟨[], .primitive 'V'⟩, body := none, owner := ⟨2⟩ }]
  fields := []
  byName := .ofList [(first, ⟨0⟩), (second, ⟨1⟩), (third, ⟨2⟩)]

namespace Session

/-- A session in which the first old class is confirmed onto the second new one. Each old method has
a vote for the new method of the same number: that of the bridge is cast although its owner is
confirmed onto another type, and the owner of the candidate of the second method is taken. -/
def bridging : Session :=
  (start (.getters "a" "b" "c" true) ∅ (.getters "x" "y" "z" false) ∅ .default).afterCalls
    [.confirmType (.real ⟨0⟩) ⟨1⟩, .vote (.method ⟨0⟩ ⟨0⟩), .vote (.method ⟨1⟩ ⟨1⟩),
      .vote (.method ⟨2⟩ ⟨2⟩)]

theorem reachable_bridging : bridging.state.Reachable bridging.context := by
  obtain ⟨context, reachable⟩ := reachable_afterCalls (reachable_start ..) _
  rwa [← context] at reachable

/-- What collecting its methods comes to: the bridge is confirmed, and the third method with its
owner. -/
def bridgingCollected : State :=
  [Action.confirmMethod (.real ⟨0⟩) ⟨0⟩, .confirmType (.real ⟨2⟩) ⟨2⟩,
    .confirmMethod (.real ⟨2⟩) ⟨2⟩].foldl (State.after bridging.context) bridging.state

theorem collectMethods_bridging :
    collectMethods bridging.context bridging.state = .ok () bridgingCollected := by cbv

/-- **A bridge is collected across owners.** It is confirmed onto a method of one type while its
owner is confirmed onto another, and so it stays. -/
theorem bridge_collected_across_owners :
    let c := bridging.context
    let s := bridging.state
    c.old.program.validate = .ok () ∧ c.new.program.validate = .ok () ∧ s.Reachable c ∧
      c.old.program.HasMethod ⟨0⟩ ∧ s.ledger.methods.pending.contains (.real ⟨0⟩) = true ∧
      (c.new.program.method ⟨0⟩).owner = ⟨0⟩ ∧
      ∃ s', collectMethods c s = .ok () s' ∧
        s'.ledger.methods.target? (.real ⟨0⟩) = some ⟨0⟩ ∧
        s'.ledger.types.target? (.real (c.old.program.method ⟨0⟩).owner) = some ⟨1⟩ := by
  have pending : bridging.state.ledger.methods.pending.contains (.real ⟨0⟩) = true := by
    decide +kernel
  have method : bridgingCollected.ledger.methods.target? (.real ⟨0⟩) = some ⟨0⟩ := by
    decide +kernel
  have owner : bridgingCollected.ledger.types.target? (.real ⟨0⟩) = some ⟨1⟩ := by decide +kernel
  exact ⟨rfl, rfl, reachable_bridging, Nat.zero_lt_succ _, pending, rfl, bridgingCollected,
    collectMethods_bridging, method, owner⟩

/-- The owner of the second candidate belongs to another type, so the second method stays pending;
the third follows its owner. -/
theorem collected_methods_follow_owners_of_bridging :
    let c := bridging.context
    let s := bridging.state
    let s' := bridgingCollected
    s.Reachable c ∧ c.old.program.validate = .ok () ∧ collectMethods c s = .ok () s' ∧
      s'.ledger.types.Separates (c.old.program.method ⟨1⟩).owner (c.new.program.method ⟨1⟩).owner ∧
      s'.ledger.methods.pending.contains (.real ⟨1⟩) = true ∧
      s.ledger.types.target? (.real (c.old.program.method ⟨2⟩).owner) = none ∧
      s'.ledger.methods.target? (.real ⟨2⟩) = some ⟨2⟩ ∧
      s'.ledger.types.target? (.real (c.old.program.method ⟨2⟩).owner) =
        some (c.new.program.method ⟨2⟩).owner := by
  have held : bridgingCollected.ledger.types.holder? ⟨1⟩ = some (.real ⟨0⟩) := by decide +kernel
  have entry : bridging.state.ledger.methods.pending.get? (.real ⟨1⟩) =
      some ⟨.real ⟨1⟩, none, .ofList [(⟨1⟩, 1)], some ⟨1⟩, 1, 0, none, false⟩ := by decide +kernel
  have open₁ : bridging.state.ledger.types.target? (.real ⟨1⟩) = none := by decide +kernel
  have open₂ : bridging.state.ledger.types.target? (.real ⟨2⟩) = none := by decide +kernel
  have fresh : bridging.state.ledger.methods.target? (.real ⟨2⟩) = none := by decide +kernel
  have method : bridgingCollected.ledger.methods.target? (.real ⟨2⟩) = some ⟨2⟩ := by
    decide +kernel
  intro c s s'
  obtain ⟨s'', done, follow, held_, -⟩ :=
    reachable_bridging.collected_methods_follow_owners (by rfl)
  rw [collectMethods_bridging] at done
  cases done
  have apart : s'.ledger.types.Separates ⟨1⟩ ⟨1⟩ := .inr ⟨_, held, nofun⟩
  refine ⟨reachable_bridging, rfl, collectMethods_bridging, apart, ?_, open₂, method, ?_⟩
  · apply held_ ⟨1⟩ (by decide +kernel) (SortedMap.contains_of_get? entry)
    rintro n ⟨e, found, voted⟩
    rw [entry] at found
    cases found
    have keys : (SortedMap.ofList [((⟨1⟩ : MethodId), 1)]).keys = [⟨1⟩] := by decide +kernel
    rw [← SortedMap.mem_keys, keys, List.mem_singleton] at voted
    subst voted
    refine ⟨apart, ?_⟩
    rintro ⟨-, before⟩
    have open_ : (none : Option TypeId).isSome = true := open₁ ▸ before
    cases open_
  · obtain ⟨-, t, owner, rfl | ⟨-, before⟩⟩ :=
      follow ⟨2⟩ ⟨2⟩ (by decide +kernel) fresh method
    · exact owner
    · have open_ : (some t : Option TypeId) = none := before.symm.trans open₂
      cases open_

end Session

end Namesake
