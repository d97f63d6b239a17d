import Namesake.Proofs.Figures

/-! # Refused and granted confirmations

Confirming an old thing checks first and changes afterwards: it is refused if no target is fixed or
the target is claimed, and leaves the partition as it was then, also where the maps are changed one
after the other (`Partition.confirmInPlace_eq`). If it is granted, one entry moves, and every other
pending one loses its votes for the target (`Partition.Settled`). Matching fixes the target before
it confirms, but only where nothing can be refused any more
(`Partition.Reachable.confirm_or_refuse`).
-/

namespace Namesake

/-! ## Withdrawn votes -/

/-- The second entry is the first one without the votes for a candidate. Its figures are those of
the votes that are left, and nothing changes where there were no votes to take back. -/
structure MatchEntry.Withdrawn {ι : Type} [KeyOrder ι] [DecidableEq ι] (e : MatchEntry ι)
    (candidate : ι) (e' : MatchEntry ι) : Prop extends MatchEntry.SameStanding e e' where
  votes : e'.votes = e.votes.erase candidate
  exact_ : e'.Exact
  unchanged : e.votes.contains candidate = false → e' = e

theorem MatchEntry.Exact.withdrawn {ι : Type} [KeyOrder ι] [DecidableEq ι] {e : MatchEntry ι}
    (exact_ : e.Exact) (candidate : ι) : e.Withdrawn candidate (e.removeVote candidate) where
  toSameStanding := e.retainVotes_standing (· ≠ candidate)
  votes := e.retainVotes_votes (· ≠ candidate)
  exact_ := exact_.retainVotes (· ≠ candidate)
  unchanged absent := by
    have same : e.votes.filter (fun c _ => decide (c ≠ candidate)) = e.votes := by
      apply SortedMap.ext_get?
      intro c
      have erased := SortedMap.get?_erase e.votes candidate c
      rw [SortedMap.erase] at erased
      rw [erased]
      split_ifs with here
      · rw [here, SortedMap.contains_eq_false_iff.mp absent]
      · rfl
    exact if_pos (congrArg SortedMap.size same)

namespace Partition

variable {ι : Type} [KeyOrder ι] [DecidableEq ι]

/-! ## In place -/

/-- Confirm an old thing in place, one map after the other. -/
def confirmInPlace (old : Handle ι) : EStateM (ConfirmError ι) (Partition ι) ι := do
  if let some target := (← get).target? old then return target
  let some entry := (← get).pending.get? old | throw (.unsetTarget old)
  let some target := entry.target | throw (.unsetTarget old)
  if let some holder := (← get).holder? target then throw (.targetClaimed old target holder)
  modify fun p => { p with pending := p.pending.erase old }
  modify fun p => { p with inverse := p.inverse.insert target old }
  modify fun p => { p with confirmed := p.confirmed.insert old entry.withoutVotes }
  modify fun p => { p with pending := p.pending.mapValues fun _ e => e.removeVote target }
  return target

/-- Match an old thing with a new one in place: fix the target, then confirm it. -/
def tryMatchInPlace (old : Handle ι) (new : ι) : EStateM (ConfirmError ι) (Partition ι) Bool := do
  if (← get).isConfirmed old || (← get).isClaimed new then return false
  modify (·.setTarget old new)
  let _ ← confirmInPlace old
  return true

/-- What is left in place of a partition by something that is done completely or not at all. -/
def completing {α : Type} (p : Partition ι) :
    Except (ConfirmError ι) (α × Partition ι) → EStateM.Result (ConfirmError ι) (Partition ι) α
  | .ok (a, p') => .ok a p'
  | .error e => .error e p

/-- Confirming in place is confirming, and a refusal leaves the partition as it was. -/
theorem confirmInPlace_eq (p : Partition ι) (old : Handle ι) :
    confirmInPlace old p = p.completing (p.confirm old) := by
  have look : (get : EStateM (ConfirmError ι) (Partition ι) (Partition ι)) p = .ok p p := rfl
  rw [confirmInPlace, bind_of_ok look, confirm]
  cases confirmed : p.target? old with
  | some target => rfl
  | none =>
      dsimp only
      rw [bind_of_ok look]
      cases found : p.pending.get? old with
      | none => rfl
      | some entry =>
          cases fixed : entry.target with
          | none => simp only [fixed]; rfl
          | some target =>
              simp only [fixed]
              rw [bind_of_ok look]
              cases held : p.holder? target with
              | some holder => rfl
              | none => rfl

/-! ## What is granted -/

/-- One pending entry has moved to the confirmed side, with its target, its hint and its mark but
without its votes, and the target is claimed for it. Every other pending entry has lost its votes
for the target, and that is all. -/
structure Settled (p : Partition ι) (old : Handle ι) (entry : MatchEntry ι) (target : ι)
    (p' : Partition ι) : Prop where
  gone : p'.pending.get? old = none
  moved : ∃ e, p'.confirmed.get? old = some e ∧ entry.SameStanding e ∧ e.Bare
  claimed : ∀ t, p'.holder? t = if target = t then some old else p.holder? t
  confirmed : ∀ k, k ≠ old → p'.confirmed.get? k = p.confirmed.get? k
  pending : ∀ k, k ≠ old →
    Option.Rel (·.Withdrawn target) (p.pending.get? k) (p'.pending.get? k)

/-- Settling an entry moves it and withdraws the votes for its target. -/
theorem settled_settle {p : Partition ι} (exact_ : p.PendingAll MatchEntry.Exact) (old : Handle ι)
    (entry : MatchEntry ι) (target : ι) :
    p.Settled old entry target (p.settle old entry target) where
  gone := by rw [get?_pending_settle, if_pos rfl]
  moved := by
    refine ⟨entry.withoutVotes, ?_, ⟨rfl, rfl, rfl, rfl⟩, entry.withoutVotes_bare⟩
    rw [get?_confirmed_settle, if_pos rfl]
  claimed t := holder?_settle p old entry target t
  confirmed k other := by rw [get?_confirmed_settle, if_neg (Ne.symm other)]
  pending k other := by
    rw [get?_pending_settle, if_neg other]
    cases found : p.pending.get? k with
    | none => exact .none
    | some e => exact .some ((exact_ k e found).withdrawn target)

/-! ## When a confirmation is refused -/

/-- The target that is fixed for a pending thing. -/
def fixedTarget? (p : Partition ι) (old : Handle ι) : Option ι := p.pending.get? old >>= (·.target)

omit [DecidableEq ι] in
theorem fixedTarget?_eq_some_iff {p : Partition ι} {old : Handle ι} {target : ι} :
    p.fixedTarget? old = some target ↔
      ∃ entry, p.pending.get? old = some entry ∧ entry.target = some target :=
  Option.bind_eq_some_iff

omit [DecidableEq ι] in
/-- A thing with a fixed target is confirmed with the entry it has. -/
theorem entryFor_of_fixed {p : Partition ι} {old : Handle ι} {entry : MatchEntry ι} {target : ι}
    (found : p.pending.get? old = some entry) (fixed : entry.target = some target) :
    p.entryFor old target = entry := by
  rw [entryFor, found, Option.getD_some, ← fixed]

/-- What confirming a thing comes to that is not confirmed yet. -/
theorem confirm_of_fresh {p : Partition ι} {old : Handle ι} (fresh : p.isConfirmed old = false) :
    p.confirm old =
      match p.fixedTarget? old with
      | none => .error (.unsetTarget old)
      | some target =>
        match p.holder? target with
        | some holder => .error (.targetClaimed old target holder)
        | none => .ok (target, p.settle old (p.entryFor old target) target) := by
  rw [confirm, target?_of_not_isConfirmed fresh, fixedTarget?]
  cases found : p.pending.get? old with
  | none => rfl
  | some entry =>
      cases fixed : entry.target with
      | none => simp [fixed]
      | some target =>
          have same : p.entryFor old target = entry := entryFor_of_fixed found fixed
          cases held : p.holder? target <;> simp [fixed, same, held]

/-- A refusal names its cause: no target is fixed, or it is claimed. -/
theorem confirm_eq_error_iff {p : Partition ι} {old : Handle ι} (fresh : p.isConfirmed old = false)
    {e : ConfirmError ι} :
    p.confirm old = .error e ↔
      (p.fixedTarget? old = none ∧ e = .unsetTarget old) ∨
      ∃ target holder, p.fixedTarget? old = some target ∧ p.holder? target = some holder ∧
        e = .targetClaimed old target holder := by
  rw [confirm_of_fresh fresh]
  cases fixed : p.fixedTarget? old with
  | none => simp [eq_comm]
  | some target =>
      cases held : p.holder? target with
      | none => simp [held]
      | some holder => simp [held, eq_comm]

/-- A confirmation is granted if a target is fixed and free, and settles the entry that has it. -/
theorem confirm_eq_ok_iff {p p' : Partition ι} {old : Handle ι} (fresh : p.isConfirmed old = false)
    {target : ι} :
    p.confirm old = .ok (target, p') ↔
      p.fixedTarget? old = some target ∧ p.isClaimed target = false ∧
        p' = p.settle old (p.entryFor old target) target := by
  rw [confirm_of_fresh fresh]
  cases fixed : p.fixedTarget? old with
  | none => simp
  | some goal =>
      cases held : p.holder? goal with
      | none =>
          have free : p.isClaimed goal = false := isClaimed_eq_false_iff.mpr held
          simp only [held, Except.ok.injEq, Prod.mk.injEq, Option.some.injEq]
          constructor
          · rintro ⟨rfl, rfl⟩
            exact ⟨rfl, free, rfl⟩
          · rintro ⟨rfl, -, rfl⟩
            exact ⟨rfl, rfl⟩
      | some holder =>
          have taken : p.isClaimed goal = true := SortedMap.contains_of_get? held
          simp only [held, Option.some.injEq, false_iff, reduceCtorEq]
          rintro ⟨rfl, free, -⟩
          rw [taken] at free
          cases free

/-! ## Matching -/

/-- Matching in place is matching. Were it refused halfway, the target would stay fixed. -/
theorem tryMatchInPlace_eq (p : Partition ι) (old : Handle ι) (new : ι) :
    tryMatchInPlace old new p =
      match p.tryMatch old new with
      | .ok (done, p') => .ok done p'
      | .error e => .error e (p.setTarget old new) := by
  have look : (get : EStateM (ConfirmError ι) (Partition ι) (Partition ι)) p = .ok p p := rfl
  have fix_ : (modify (·.setTarget old new) : EStateM (ConfirmError ι) (Partition ι) Unit) p =
      .ok () (p.setTarget old new) := rfl
  have confirming := confirmInPlace_eq (p.setTarget old new) old
  rw [tryMatchInPlace, bind_of_ok look, bind_of_ok look, tryMatch]
  split_ifs
  · rfl
  · rw [bind_of_ok fix_]
    cases confirmed : (p.setTarget old new).confirm old with
    | ok result =>
        rw [confirmed] at confirming
        rw [bind_of_ok confirming]
        rfl
    | error e =>
        rw [confirmed] at confirming
        simp only [bind, EStateM.bind, confirming, completing]

/-- **Confirmations are granted or refused as a whole.** A thing that is confirmed answers with its
target, and nothing changes. Any other is refused exactly if no target is fixed for it or the target
is claimed, which leaves the partition as it was, even where the maps are changed one after the
other; if it is granted, exactly its entry moves, and the other pending ones lose their votes for
the target. Matching is never refused: it succeeds exactly if neither side is taken, and changes
nothing otherwise. -/
theorem Reachable.confirm_or_refuse {p : Partition ι} (reachable : p.Reachable) (old : Handle ι)
    (new : ι) :
    (p.isConfirmed old = true →
      ∃ target, p.target? old = some target ∧ p.confirm old = .ok (target, p)) ∧
    (p.isConfirmed old = false →
      (∀ e, p.confirm old = .error e ↔
        (p.fixedTarget? old = none ∧ e = .unsetTarget old) ∨
        ∃ target holder, p.fixedTarget? old = some target ∧ p.holder? target = some holder ∧
          e = .targetClaimed old target holder) ∧
      ∀ target p', p.confirm old = .ok (target, p') →
        ∃ entry, p.pending.get? old = some entry ∧ entry.target = some target ∧
          p.Settled old entry target p') ∧
    confirmInPlace old p = p.completing (p.confirm old) ∧
    ∃ done p', p.tryMatch old new = .ok (done, p') ∧ tryMatchInPlace old new p = .ok done p' ∧
      (done = true ↔ p.isConfirmed old = false ∧ p.isClaimed new = false) ∧
      (done = false → p' = p) ∧
      (done = true → p.Settled old (p.entryFor old new) new p') := by
  have exact_ : p.PendingAll MatchEntry.Exact := MatchEntry.lasting_exact.of_reachable reachable
  refine ⟨?_, ?_, confirmInPlace_eq p old, ?_⟩
  · intro confirmed
    obtain ⟨target, settled⟩ := reachable.sound.target?_of_isConfirmed confirmed
    refine ⟨target, settled, ?_⟩
    rw [confirm, settled]
  · intro fresh
    refine ⟨fun e => confirm_eq_error_iff fresh, ?_⟩
    intro target p' granted
    obtain ⟨fixed, -, rfl⟩ := (confirm_eq_ok_iff fresh).mp granted
    obtain ⟨entry, found, target_eq⟩ := fixedTarget?_eq_some_iff.mp fixed
    rw [entryFor_of_fixed found target_eq]
    exact ⟨entry, found, target_eq, settled_settle exact_ old entry target⟩
  · have inPlace := tryMatchInPlace_eq p old new
    have taken : p.isTaken old new = false ↔ p.isConfirmed old = false ∧ p.isClaimed new = false :=
      isTaken_eq_false_iff
    rw [tryMatch_eq, ← isTaken] at inPlace ⊢
    cases free : p.isTaken old new with
    | true =>
        rw [free] at inPlace taken
        exact ⟨false, p, rfl, inPlace, by simpa using taken, fun _ => rfl,
          fun granted => Bool.noConfusion granted⟩
    | false =>
        rw [free] at inPlace taken
        exact ⟨true, _, rfl, inPlace, by simpa using taken,
          fun refused => Bool.noConfusion refused, fun _ => settled_settle exact_ old _ new⟩

/-- Two methods with votes for the same new one, which is the target of the first, and a third that
has it as its target, too. The first knows its owner. -/
def rivals : Partition MethodId :=
  (afterAll [.vote (.real ⟨1⟩) ⟨10⟩, .vote (.real ⟨2⟩) ⟨10⟩, .vote (.real ⟨2⟩) ⟨11⟩,
    .setTarget (.real ⟨1⟩) ⟨10⟩, .setTarget (.real ⟨3⟩) ⟨10⟩]).hint (.real ⟨1⟩) ⟨7⟩

/-- The first of the rivals is confirmed, after which the third is refused; the second is refused
from the start, but may be matched with another method. -/
theorem confirm_or_refuse_of_rivals :
    rivals.Reachable ∧
    (∃ entry p', rivals.confirm (.real ⟨1⟩) = .ok (⟨10⟩, p') ∧ entry.ownerHint = some ⟨7⟩ ∧
      rivals.Settled (.real ⟨1⟩) entry ⟨10⟩ p') ∧
    rivals.confirm (.real ⟨2⟩) = .error (.unsetTarget (.real ⟨2⟩)) ∧
    (rivals.perform (.confirm (.real ⟨1⟩))).confirm (.real ⟨3⟩) =
      .error (.targetClaimed (.real ⟨3⟩) ⟨10⟩ (.real ⟨1⟩)) ∧
    ∃ p', rivals.tryMatch (.real ⟨2⟩) ⟨11⟩ = .ok (true, p') ∧
      rivals.Settled (.real ⟨2⟩) (rivals.entryFor (.real ⟨2⟩) ⟨11⟩) ⟨11⟩ p' := by
  have reachable : rivals.Reachable := by
    unfold rivals
    exact (reachable_afterAll _).hinted _ _
  have later := reachable.performed (.confirm (.real ⟨1⟩))
  obtain ⟨-, first, -⟩ := Reachable.confirm_or_refuse reachable (.real ⟨1⟩) ⟨10⟩
  obtain ⟨-, second, -, done, p', matched, -, done_iff, -, settled⟩ :=
    Reachable.confirm_or_refuse reachable (.real ⟨2⟩) ⟨11⟩
  obtain ⟨-, third, -⟩ := Reachable.confirm_or_refuse later (.real ⟨3⟩) ⟨10⟩
  have granted : rivals.confirm (.real ⟨1⟩) =
      .ok (⟨10⟩, rivals.perform (.confirm (.real ⟨1⟩))) := by decide
  obtain ⟨entry, found, -, moved⟩ := (first (by decide)).2 _ _ granted
  have hinted : (rivals.pending.get? (.real ⟨1⟩)).map (·.ownerHint) = some (some ⟨7⟩) := by decide
  rw [found] at hinted
  have done_ : done = true := done_iff.mpr (by decide)
  refine ⟨reachable, ⟨entry, _, granted, Option.some.inj hinted, moved⟩, ?_, ?_, ?_⟩
  · exact ((second (by decide)).1 _).mpr (.inl ⟨by decide, rfl⟩)
  · exact ((third (by decide)).1 _).mpr (.inr ⟨⟨10⟩, .real ⟨1⟩, by decide, by decide, rfl⟩)
  · exact ⟨p', done_ ▸ matched, settled done_⟩

end Partition

end Namesake
