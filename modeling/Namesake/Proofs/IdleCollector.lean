import Mathlib
import Namesake.Proofs.Ranking
import Namesake.Proofs.Reachable

/-! # Idle runs of the collector

A run of the collector that confirms nothing changes nothing at all, as each of its steps either
confirms something or does nothing (`Work.OnlyConfirms.advances`). Going through its steps from the
state they all begin with shows why each confirmed nothing: in the batch of each kind, nothing can
be confirmed (`State.Reachable.idle_collector`). Beyond the batches there may be candidates whose
owners are free, since an entry keeps its place in the ranking whether it can be confirmed or not
(`Session.idle_collector_leaves_candidates`).
-/

namespace Namesake

/-! ## More confirmed, or nothing changed -/

namespace Partition

variable {ι : Type} [KeyOrder ι]

/-- Whatever is confirmed in the first partition is confirmed in the second. -/
def ConfirmedIn (p p' : Partition ι) : Prop :=
  ∀ k, p.isConfirmed k = true → p'.isConfirmed k = true

theorem confirmedIn_of_eq {p p' : Partition ι} (same : p'.confirmed = p.confirmed) :
    p.ConfirmedIn p' := by
  intro k confirmed
  rwa [isConfirmed, same]

variable [DecidableEq ι]

theorem confirmedIn_settle (p : Partition ι) (old : Handle ι) (entry : MatchEntry ι) (target : ι) :
    p.ConfirmedIn (p.settle old entry target) := by
  intro k confirmed
  rw [isConfirmed_settle, confirmed, Bool.or_true]

/-- Settling something that is not confirmed confirms something new. -/
theorem not_confirmedIn_of_settle {p : Partition ι} {old : Handle ι} {new : ι}
    (free : p.isTaken old new = false) (entry : MatchEntry ι) :
    ¬ (p.settle old entry new).ConfirmedIn p := by
  intro back
  have confirmed := back old (by rw [isConfirmed_settle, decide_eq_true rfl, Bool.true_or])
  rw [(isTaken_eq_false_iff.mp free).1] at confirmed
  cases confirmed

end Partition

/-- Whatever is confirmed in the first ledger is confirmed in the second. -/
structure Ledger.ConfirmedIn (l l' : Ledger) : Prop where
  types : l.types.ConfirmedIn l'.types
  methods : l.methods.ConfirmedIn l'.methods
  fields : l.fields.ConfirmedIn l'.fields

namespace Ledger.ConfirmedIn

theorem refl (l : Ledger) : l.ConfirmedIn l := ⟨fun _ => id, fun _ => id, fun _ => id⟩

theorem trans {l l' l'' : Ledger} (first : l.ConfirmedIn l') (second : l'.ConfirmedIn l'') :
    l.ConfirmedIn l'' where
  types k confirmed := second.types k (first.types k confirmed)
  methods k confirmed := second.methods k (first.methods k confirmed)
  fields k confirmed := second.fields k (first.fields k confirmed)

end Ledger.ConfirmedIn

/-- One state leads on to another: it keeps what is confirmed, and if it confirms no more it changes
nothing. -/
structure State.Advances (s s' : State) : Prop where
  keeps : s.ledger.ConfirmedIn s'.ledger
  idle : s'.ledger.ConfirmedIn s.ledger → s' = s

namespace State.Advances

variable {s s' s'' : State}

theorem refl (s : State) : s.Advances s := ⟨.refl _, fun _ => rfl⟩

theorem trans (first : s.Advances s') (second : s'.Advances s'') : s.Advances s'' where
  keeps := first.keeps.trans second.keeps
  idle back :=
    (second.idle (back.trans first.keeps)).trans (first.idle (second.keeps.trans back))

theorem antisymm (there : s.Advances s') (back : s'.Advances s) : s' = s := there.idle back.keeps

/-- A confirmation confirms something or does nothing. -/
theorem after (c : Context) (s : State) {a : Action} (confirmation : a.isConfirmation = true) :
    s.Advances (s.after c a) := by
  cases a with
  | vote b => cases confirmation
  | mergedType old => cases confirmation
  | mergedMethod old => cases confirmation
  | mergedField old => cases confirmation
  | confirmType old new =>
      simp only [State.after, confirmType]
      split_ifs with taken
      · exact refl s
      · have free := Bool.not_eq_true _ ▸ taken
        refine ⟨⟨?_, ?_, ?_⟩, fun back => absurd back.types ?_⟩
        · rw [Ledger.types_settleType]
          exact Partition.confirmedIn_settle _ _ _ _
        · exact Partition.confirmedIn_of_eq (Ledger.confirmed_methods_settleType c _ old new)
        · exact Partition.confirmedIn_of_eq (Ledger.confirmed_fields_settleType c _ old new)
        · rw [Ledger.types_settleType]
          exact Partition.not_confirmedIn_of_settle free _
  | confirmMethod old new =>
      simp only [State.after, confirmMethod]
      split_ifs with taken
      · exact refl s
      · have free := Bool.not_eq_true _ ▸ taken
        exact ⟨⟨fun _ => id, Partition.confirmedIn_settle _ _ _ _, fun _ => id⟩,
          fun back => absurd back.methods (Partition.not_confirmedIn_of_settle free _)⟩
  | confirmField old new =>
      simp only [State.after, confirmField]
      split_ifs with taken
      · exact refl s
      · have free := Bool.not_eq_true _ ▸ taken
        exact ⟨⟨fun _ => id, fun _ => id, Partition.confirmedIn_settle _ _ _ _⟩,
          fun back => absurd back.fields (Partition.not_confirmedIn_of_settle free _)⟩

end State.Advances

/-! ## Idle steps -/

namespace Work.OnlyConfirms

variable {c : Context} {α β : Type} {work : Work α} {s s' s'' : State} {a : α} {b : β}

/-- **Work that only confirms confirms something or does nothing.** -/
theorem advances (only : work.OnlyConfirms c s a s') : s.Advances s' := by
  obtain ⟨-, actions, confirmations, rfl⟩ := only
  induction actions generalizing s with
  | nil => exact .refl s
  | cons x rest ih =>
      rw [List.forall_mem_cons] at confirmations
      exact (State.Advances.after c s confirmations.1).trans (ih confirmations.2)

/-- If two pieces of work together change nothing, neither does. -/
theorem idle_of_bind {next : α → Work β} (first : work.OnlyConfirms c s a s')
    (second : ∃ b s'', (next a).OnlyConfirms c s' b s'') (idle : (work >>= next) s = .ok b s) :
    work s = .ok a s ∧ next a s = .ok b s := by
  obtain ⟨b', s'', second⟩ := second
  rw [bind_of_ok first.1, second.1] at idle
  cases idle
  obtain rfl := first.advances.antisymm second.advances
  exact ⟨first.1, second.1⟩

/-- If going through a list changes nothing, no step does. -/
theorem idle_of_forM {κ : Type} {step : κ → Work Unit} {keys : List κ}
    (each : ∀ k s, ∃ s', (step k).OnlyConfirms c s () s')
    (idle : keys.forM step s = .ok () s) : ∀ k ∈ keys, step k s = .ok () s := by
  induction keys with
  | nil => exact nofun
  | cons k rest ih =>
      obtain ⟨s', first⟩ := each k s
      obtain ⟨here, later⟩ := first.idle_of_bind ⟨(), forM each rest s'⟩ idle
      exact List.forall_mem_cons.mpr ⟨here, ih later⟩

end Work.OnlyConfirms

/-! ## Why a collector is idle -/

/-- A pending thing with a candidate is free to be confirmed onto it. -/
theorem Partition.Sound.of_candidate? {ι : Type} [KeyOrder ι] {p : Partition ι} (sound : p.Sound)
    {k : Handle ι} {n : ι} (leads : p.candidate? k = some n) :
    (p.get? k >>= (·.highest)) = some n ∧ p.isTaken k n = false := by
  obtain ⟨e, found, best⟩ := Option.bind_eq_some_iff.mp leads
  have fresh := sound.not_isConfirmed_of_pending found
  constructor
  · rw [get?, isConfirmed_eq_false_iff.mp fresh, found]
    exact best
  · exact isTaken_eq_false_iff.mpr ⟨fresh, sound.unclaimed found (sound.leader found n best)⟩

/-- An old owner is open, but the new one belongs to another type. -/
def Ledger.IsBlocked (l : Ledger) (old new : TypeId) : Prop :=
  l.types.target? (.real old) = none ∧ l.types.isClaimed new = true

variable {c : Context} {s : State}

/-- If the collector changes nothing, neither does confirming something of its batch onto its best
candidate. -/
theorem idle_of_collect {ι : Type} [KeyOrder ι] {kind : Ledger → Partition ι} {minimum : Nat}
    {confirm : Handle ι → ι → Work Unit}
    (confirms : ∀ old new s, ∃ s', (confirm old new).OnlyConfirms c s () s')
    (idle : collect c kind minimum confirm s = .ok () s) {k : Handle ι}
    (listed : k ∈ (kind s.ledger).batch c.settings.collector minimum) {n : ι}
    (leads : ((kind s.ledger).get? k >>= (·.highest)) = some n) : confirm k n s = .ok () s := by
  have still := Work.OnlyConfirms.idle_of_forM (collectOne_onlyConfirms confirms) idle k listed
  rwa [collectOne, get_bind, leads] at still

/-- An owner that cannot be settled is blocked. -/
theorem Ledger.IsBlocked.of_settleOwner (sound : s.ledger.types.Sound) {old new : TypeId}
    (refused : settleOwner c old new s = .ok false s) : s.ledger.IsBlocked old new := by
  rw [settleOwner_eq] at refused
  split_ifs at refused with settled claimed
  · cases refused
  · exact ⟨Option.not_isSome_iff_eq_none.mp settled, claimed⟩
  · -- nothing is in the way, so the confirmation would have been carried out
    have fresh : s.ledger.types.isConfirmed (.real old) = false := by
      rw [← Bool.not_eq_true]
      intro confirmed
      obtain ⟨t, target⟩ := sound.target?_of_isConfirmed confirmed
      exact settled (Option.isSome_of_eq_some target)
    rw [Partition.isTaken_eq_false_iff.mpr ⟨fresh, Bool.not_eq_true _ ▸ claimed⟩] at refused
    cases refused

/-- If a member that is free cannot be confirmed, its owners are blocked. -/
theorem blocked_of_confirmOwned (sound : s.ledger.types.Sound) {confirm : Work Bool}
    (confirms : ∀ s, ∃ done s', confirm.OnlyConfirms c s done s')
    (busy : ∀ done, confirm s ≠ .ok done s) {owners : Option (TypeId × TypeId)}
    (idle : confirmOwned c owners confirm s = .ok () s) :
    ∃ old new, owners = some (old, new) ∧ s.ledger.IsBlocked old new := by
  obtain ⟨settled, s₁, asked⟩ := settleOwners_onlyConfirms (c := c) owners s
  have goes : ∃ u s', Work.OnlyConfirms c
      (if settled then discard confirm else pure ()) s₁ u s' := by
    cases settled with
    | true =>
        obtain ⟨s₂, confirmed⟩ := Work.OnlyConfirms.discard (confirms s₁)
        exact ⟨(), s₂, confirmed⟩
    | false => exact ⟨(), s₁, .pure () s₁⟩
  obtain ⟨asking, going⟩ := asked.idle_of_bind goes idle
  cases settled with
  | true =>
      obtain ⟨answer, s₂, confirmed, -⟩ := confirms s
      have done : (do discard confirm : Work Unit) s = .ok () s := going
      rw [Work.discard_eq confirmed] at done
      cases done
      exact absurd confirmed (busy answer)
  | false =>
      cases owners with
      | none => cases asking
      | some pair => exact ⟨pair.1, pair.2, rfl, .of_settleOwner sound asking⟩

/-- Nothing can be done about a pending thing: where it has a candidate, the owners of the two are
blocked. -/
def Ledger.IsHeld {ι : Type} [KeyOrder ι] (l : Ledger) (p : Partition ι)
    (owners : Handle ι → ι → Option (TypeId × TypeId)) (k : Handle ι) : Prop :=
  ∀ n, p.candidate? k = some n → ∃ old new, owners k n = some (old, new) ∧ l.IsBlocked old new

/-- If the collector of members changes nothing, each member of its batch is held. -/
theorem isHeld_of_idle {ι : Type} [KeyOrder ι] {kind : Ledger → Partition ι} {minimum : Nat}
    {owners : Handle ι → ι → Option (TypeId × TypeId)} {confirm : Handle ι → ι → Work Bool}
    (types : s.ledger.types.Sound) (sound : (kind s.ledger).Sound)
    (confirms : ∀ old new s, ∃ done s', (confirm old new).OnlyConfirms c s done s')
    (busy : ∀ old new, (kind s.ledger).isTaken old new = false →
      ∀ done, confirm old new s ≠ .ok done s)
    (idle : collect c kind minimum (fun old new =>
      confirmOwned c (owners old new) (confirm old new)) s = .ok () s) {k : Handle ι}
    (listed : k ∈ (kind s.ledger).batch c.settings.collector minimum) :
    s.ledger.IsHeld (kind s.ledger) owners k := by
  intro n leads
  obtain ⟨best, free⟩ := sound.of_candidate? leads
  have still := idle_of_collect (fun old new =>
    confirmOwned_onlyConfirms (confirms old new) (owners old new)) idle listed best
  exact blocked_of_confirmOwned types (confirms k n) (busy k n free) still

/-! ## Kind by kind -/

/-- What counts a change changes something. -/
private theorem ne_of_changes {s s' : State} (more : s'.changes = s.changes + 1) : s' ≠ s := by
  rintro rfl
  omega

theorem Work.confirmType_busy {old : Handle TypeId} {new : TypeId}
    (free : s.ledger.types.isTaken old new = false) (done : Bool) :
    Work.confirmType c old new s ≠ .ok done s := by
  rw [Work.confirmType_eq, State.confirmType, free, ne_eq, EStateM.Result.ok.injEq, not_and]
  exact fun _ => ne_of_changes rfl

theorem Work.confirmMethod_busy {old : Handle MethodId} {new : MethodId}
    (free : s.ledger.methods.isTaken old new = false) (done : Bool) :
    Work.confirmMethod old new s ≠ .ok done s := by
  rw [Work.confirmMethod_eq, State.confirmMethod, free, ne_eq, EStateM.Result.ok.injEq, not_and]
  exact fun _ => ne_of_changes rfl

theorem Work.confirmField_busy {old : Handle FieldId} {new : FieldId}
    (free : s.ledger.fields.isTaken old new = false) (done : Bool) :
    Work.confirmField old new s ≠ .ok done s := by
  rw [Work.confirmField_eq, State.confirmField, free, ne_eq, EStateM.Result.ok.injEq, not_and]
  exact fun _ => ne_of_changes rfl

theorem candidate?_eq_none_of_idle (sound : s.ledger.types.Sound)
    (idle : collectTypes c s = .ok () s) {k : Handle TypeId}
    (listed : k ∈ s.ledger.types.batch c.settings.collector c.settings.collector.minTypes) :
    s.ledger.types.candidate? k = none := by
  rw [← Option.not_isSome_iff_eq_none, Option.isSome_iff_exists]
  rintro ⟨n, leads⟩
  obtain ⟨best, free⟩ := sound.of_candidate? leads
  rw [collectTypes_eq_collect] at idle
  have still := idle_of_collect (fun old new s =>
    Work.OnlyConfirms.discard (Work.confirmType_onlyConfirms old new s)) idle listed best
  have confirmed := Work.confirmType_eq c k n s
  rw [Work.discard_eq confirmed, EStateM.Result.ok.injEq] at still
  rw [still.2] at confirmed
  exact Work.confirmType_busy free _ confirmed

theorem isHeld_of_idle_methods (types : s.ledger.types.Sound) (sound : s.ledger.methods.Sound)
    (idle : collectMethods c s = .ok () s) {k : Handle MethodId}
    (listed : k ∈ s.ledger.methods.batch c.settings.collector c.settings.collector.minMethods) :
    s.ledger.IsHeld s.ledger.methods c.methodOwners k := by
  rw [collectMethods_eq_collect] at idle
  exact isHeld_of_idle types sound Work.confirmMethod_onlyConfirms
    (fun _ _ => Work.confirmMethod_busy) idle listed

theorem isHeld_of_idle_fields (types : s.ledger.types.Sound) (sound : s.ledger.fields.Sound)
    (idle : collectFields c s = .ok () s) {k : Handle FieldId}
    (listed : k ∈ s.ledger.fields.batch c.settings.collector c.settings.collector.minFields) :
    s.ledger.IsHeld s.ledger.fields c.fieldOwners k := by
  rw [collectFields_eq_collect] at idle
  exact isHeld_of_idle types sound Work.confirmField_onlyConfirms
    (fun _ _ => Work.confirmField_busy) idle listed

/-! ## Idle runs -/

/-- If the collector changes nothing, it changes nothing about any kind. -/
theorem idle_of_collectVotes (idle : collectVotes c s = .ok () s) :
    collectTypes c s = .ok () s ∧ collectMethods c s = .ok () s ∧ collectFields c s = .ok () s := by
  have members (s : State) : ∃ u s', Work.OnlyConfirms c (do
      collectMethods c
      collectFields c) s u s' := by
    obtain ⟨s₁, methods⟩ := collectMethods_onlyConfirms (c := c) s
    obtain ⟨s₂, fields⟩ := collectFields_onlyConfirms (c := c) s₁
    exact ⟨(), s₂, methods.bind fields⟩
  obtain ⟨s₁, types⟩ := collectTypes_onlyConfirms (c := c) s
  obtain ⟨noType, later⟩ := types.idle_of_bind (members s₁) idle
  obtain ⟨s₂, methods⟩ := collectMethods_onlyConfirms (c := c) s
  obtain ⟨s₃, fields⟩ := collectFields_onlyConfirms (c := c) s₂
  obtain ⟨noMethod, noField⟩ := methods.idle_of_bind ⟨(), s₃, fields⟩ later
  exact ⟨noType, noMethod, noField⟩

/-- **A run of the collector that confirms nothing finds nothing to confirm in its batches.** The
collector never fails. If it leaves nothing confirmed that was not, it changes nothing at all, and

* no type in the batch has a candidate;
* a method or field in the batch has none, or its owner is open while the candidate's owner is
  taken;
* if the minimum of types is not zero, no pending type has a margin.

Where the minimum allows for everything that is pending, the first two go for all of it. -/
theorem State.Reachable.idle_collector (reachable : s.Reachable c) :
    let l := s.ledger
    let settings := c.settings.collector
    ∃ s', collectVotes c s = .ok () s' ∧ (s'.ledger.ConfirmedIn l → s' = s ∧
      (∀ k, k ∈ l.types.batch settings settings.minTypes ∨
        l.types.pending.size ≤ settings.minTypes → l.types.candidate? k = none) ∧
      (∀ k, k ∈ l.methods.batch settings settings.minMethods ∨
        l.methods.pending.size ≤ settings.minMethods → l.IsHeld l.methods c.methodOwners k) ∧
      (∀ k, k ∈ l.fields.batch settings settings.minFields ∨
        l.fields.pending.size ≤ settings.minFields → l.IsHeld l.fields c.fieldOwners k) ∧
      (1 ≤ settings.minTypes → ∀ k e, l.types.pending.get? k = some e → e.margin = 0)) := by
  intro l settings
  obtain ⟨s', only⟩ := collectVotes_onlyConfirms (c := c) s
  refine ⟨s', only.1, ?_⟩
  intro back
  obtain rfl := only.advances.idle back
  obtain ⟨noType, noMethod, noField⟩ := idle_of_collectVotes only.1
  have sound := reachable.each Partition.invariant_sound
  have unled := reachable.each MatchEntry.invariant_unled.pendingAll
  have types : ∀ k ∈ l.types.batch settings settings.minTypes, l.types.candidate? k = none :=
    fun _ => candidate?_eq_none_of_idle sound.types noType
  have methods : ∀ k ∈ l.methods.batch settings settings.minMethods,
      l.IsHeld l.methods c.methodOwners k :=
    fun _ => isHeld_of_idle_methods sound.types sound.methods noMethod
  have fields : ∀ k ∈ l.fields.batch settings settings.minFields,
      l.IsHeld l.fields c.fieldOwners k :=
    fun _ => isHeld_of_idle_fields sound.types sound.fields noField
  refine ⟨rfl, ?_, ?_, ?_, ?_⟩
  · rintro k (listed | few)
    · exact types k listed
    · refine Option.eq_none_iff_forall_ne_some.mpr fun n leads => ?_
      rw [types k (Partition.mem_batch_of_size_le few leads)] at leads
      cases leads
  · rintro k (listed | few) n leads
    · exact methods k listed n leads
    · exact methods k (Partition.mem_batch_of_size_le few leads) n leads
  · rintro k (listed | few) n leads
    · exact fields k listed n leads
    · exact fields k (Partition.mem_batch_of_size_le few leads) n leads
  · intro some_
    exact Partition.margin_eq_zero_of_batch some_ unled.types types

/-! ## A crowded ranking -/

/-- A program of three classes, of which the first two have a method and a field each. -/
def Program.trio (first second third : String) : Program where
  types := [{ name := first, kind := .plain, superclass := none, interfaces := [],
              signature := none, enumConstants := [], methods := [⟨0⟩], fields := [⟨0⟩] },
            { name := second, kind := .plain, superclass := none, interfaces := [],
              signature := none, enumConstants := [], methods := [⟨1⟩], fields := [⟨1⟩] },
            { name := third, kind := .plain, superclass := none, interfaces := [],
              signature := none, enumConstants := [], methods := [], fields := [] }]
  methods := [{ name := "run", descriptor := "()V", isStatic := false, isSynthetic := false,
                signature := ⟨[], .primitive 'V'⟩, body := none, owner := ⟨0⟩ },
              { name := "run", descriptor := "()V", isStatic := false, isSynthetic := false,
                signature := ⟨[], .primitive 'V'⟩, body := none, owner := ⟨1⟩ }]
  fields := [{ name := "size", descriptor := "I", type := .primitive 'I', isStatic := false,
               owner := ⟨0⟩ },
             { name := "size", descriptor := "I", type := .primitive 'I', isStatic := false,
               owner := ⟨1⟩ }]
  byName := .ofList [(first, ⟨0⟩), (second, ⟨1⟩), (third, ⟨2⟩)]

namespace Session

/-- A session whose batches, of one thing each, are taken up by what cannot be confirmed. As the
third old class took the first new one, the vote for the first old class does not count and its
members have to wait. The votes for the second old class are tied, those for its members are
fewer. -/
def crowded : Session :=
  (start (.trio "a" "b" "c") ∅ (.trio "x" "y" "z") ∅
    { MergeSettings.default with collector := ⟨1, 1, 1, 10⟩ }).afterCalls
    [.confirmType (.real ⟨2⟩) ⟨0⟩,
      .vote (.type ⟨0⟩ ⟨0⟩), .vote (.type ⟨1⟩ ⟨1⟩), .vote (.type ⟨1⟩ ⟨2⟩),
      .vote (.method ⟨0⟩ ⟨0⟩), .vote (.method ⟨0⟩ ⟨0⟩), .vote (.method ⟨1⟩ ⟨1⟩),
      .vote (.field ⟨0⟩ ⟨0⟩), .vote (.field ⟨0⟩ ⟨0⟩), .vote (.field ⟨1⟩ ⟨1⟩)]

theorem reachable_crowded : crowded.state.Reachable crowded.context := by
  obtain ⟨context, reachable⟩ := reachable_afterCalls (reachable_start ..) _
  rwa [← context] at reachable

theorem collectVotes_crowded :
    collectVotes crowded.context crowded.state = .ok () crowded.state := by cbv

/-- The first old class is in its batch without a candidate, and its members are in theirs, where
they are held. -/
theorem idle_collector_of_crowded :
    let c := crowded.context
    let s := crowded.state
    let l := s.ledger
    s.Reachable c ∧ collectVotes c s = .ok () s ∧ l.ConfirmedIn l ∧
      l.types.batch c.settings.collector 1 = [.real ⟨0⟩] ∧
      l.types.candidate? (.real ⟨0⟩) = none ∧
      l.methods.batch c.settings.collector 1 = [.real ⟨0⟩] ∧
      l.methods.candidate? (.real ⟨0⟩) = some ⟨0⟩ ∧ l.IsBlocked ⟨0⟩ ⟨0⟩ := by
  have types : crowded.state.ledger.types.batch ⟨1, 1, 1, 10⟩ 1 = [.real ⟨0⟩] := by cbv
  have methods : crowded.state.ledger.methods.batch ⟨1, 1, 1, 10⟩ 1 = [.real ⟨0⟩] := by cbv
  have leads : crowded.state.ledger.methods.candidate? (.real ⟨0⟩) = some ⟨0⟩ := by decide +kernel
  intro c s l
  obtain ⟨s', done, settled⟩ := reachable_crowded.idle_collector
  rw [collectVotes_crowded] at done
  cases done
  obtain ⟨-, unled, held, -⟩ := settled (.refl l)
  have first := unled (.real ⟨0⟩) (.inl (types ▸ List.mem_singleton_self _))
  obtain ⟨_, _, owners, blocked⟩ :=
    held (.real ⟨0⟩) (.inl (methods ▸ List.mem_singleton_self _)) ⟨0⟩ leads
  cases owners
  exact ⟨reachable_crowded, collectVotes_crowded, .refl l, types, first, methods, leads, blocked⟩

/-- **An idle run of the collector leaves candidates.** It confirms nothing, although another type
has a candidate, and so have a method and a field whose owners are free. -/
theorem idle_collector_leaves_candidates :
    let c := crowded.context
    let s := crowded.state
    let l := s.ledger
    c.old.program.validate = .ok () ∧ c.new.program.validate = .ok () ∧ s.Reachable c ∧
      c.settings.collector = ⟨1, 1, 1, 10⟩ ∧ collectVotes c s = .ok () s ∧
      l.types.candidate? (.real ⟨1⟩) = some ⟨1⟩ ∧
      (l.methods.candidate? (.real ⟨1⟩) = some ⟨1⟩ ∧
        l.types.target? (.real (c.old.program.method ⟨1⟩).owner) = none ∧
        l.types.isClaimed (c.new.program.method ⟨1⟩).owner = false) ∧
      l.fields.candidate? (.real ⟨1⟩) = some ⟨1⟩ ∧
      l.types.target? (.real (c.old.program.field ⟨1⟩).owner) = none ∧
      l.types.isClaimed (c.new.program.field ⟨1⟩).owner = false := by
  intro c s l
  refine ⟨rfl, rfl, reachable_crowded, rfl, collectVotes_crowded, ?_⟩
  decide +kernel

end Session

end Namesake
