import Namesake.Proofs.Accounts
import Namesake.Proofs.IdleCollector
import Namesake.Proofs.OwnedVotes

/-! # Turns of the collector

The collector goes through the pending members of a kind one after the other. At its turn a member
is passed over, held back, or confirmed, with its owner if that is open (`MemberCollector.Turn`);
other members are left as they are (`MemberCollector.Turn.agreesOn`). So what becomes of a member is
decided at its turn (`MemberCollector.Around`): if it is confirmed it follows its owner
(`MemberCollector.Around.outcome`), and if the owners belong to others it is held back
(`MemberCollector.Around.held`).
-/

namespace Namesake

/-! ## What becomes of a thing -/

namespace Partition

variable {ι : Type} [KeyOrder ι]

/-- What has no target is not confirmed. -/
theorem Sound.not_isConfirmed_of_target? {p : Partition ι} (sound : p.Sound) {k : Handle ι}
    (open_ : p.target? k = none) : p.isConfirmed k = false := by
  rw [← Bool.not_eq_true]
  intro confirmed
  obtain ⟨t, target⟩ := sound.target?_of_isConfirmed confirmed
  rw [open_] at target
  cases target

/-- An old thing is confirmed onto another new one, or the new one is claimed by another old one. -/
def Separates (p : Partition ι) (old new : ι) : Prop :=
  (∃ t, p.target? (.real old) = some t ∧ t ≠ new) ∨ ∃ k, p.holder? new = some k ∧ k ≠ .real old

theorem Separates.target?_ne {p : Partition ι} {old new : ι} (apart : p.Separates old new)
    (sound : p.Sound) : p.target? (.real old) ≠ some new := by
  intro confirmed
  rcases apart with ⟨t, target, other⟩ | ⟨k, held, other⟩
  · exact other (Option.some.inj (target.symm.trans confirmed))
  · rw [sound.holder_iff.mpr confirmed] at held
    exact other (Option.some.inj held).symm

theorem Separates.isTaken {p : Partition ι} {old new : ι} (apart : p.Separates old new) :
    p.isTaken (.real old) new = true := by
  rw [Partition.isTaken, Bool.or_eq_true]
  rcases apart with ⟨t, target, -⟩ | ⟨k, held, -⟩
  · exact .inl (isConfirmed_of_target? target)
  · exact .inr (SortedMap.contains_of_get? held)

/-- In both partitions an old thing is pending or not, and is confirmed onto the same new one or
onto none. -/
structure AgreesOn (p p' : Partition ι) (k : Handle ι) : Prop where
  pending : p'.pending.contains k = p.pending.contains k
  target? : p'.target? k = p.target? k

namespace AgreesOn

variable {p p' p'' : Partition ι} {k : Handle ι}

theorem refl (p : Partition ι) (k : Handle ι) : p.AgreesOn p k := ⟨rfl, rfl⟩

theorem trans (first : p.AgreesOn p' k) (second : p'.AgreesOn p'' k) : p.AgreesOn p'' k :=
  ⟨second.pending.trans first.pending, second.target?.trans first.target?⟩

end AgreesOn

variable [DecidableEq ι]

/-- Cutting down votes decides nothing. -/
theorem agreesOn_restricted (p : Partition ι) (ownerOf : ι → TypeId) (owner : TypeId)
    (members : List ι) (k : Handle ι) : p.AgreesOn (p.restricted ownerOf owner members) k where
  pending := by
    induction members generalizing p with
    | nil => rfl
    | cons m rest ih =>
        have next : p.restricted ownerOf owner (m :: rest) =
            (p.modifyPending (.real m) (Work.restrictEntry ownerOf owner)).restricted ownerOf owner
              rest := rfl
        rw [next, ih, SortedMap.contains, modifyPending, SortedMap.get?_modify]
        split_ifs
        · rw [Option.isSome_map]
          rfl
        · rfl
  target? := by rw [Partition.target?, confirmed_restricted, Partition.target?]

/-- Settling one thing decides nothing about others. -/
theorem agreesOn_settle (p : Partition ι) {old k : Handle ι} (entry : MatchEntry ι) (target : ι)
    (other : k ≠ old) : p.AgreesOn (p.settle old entry target) k where
  pending := by
    rw [SortedMap.contains, get?_pending_settle, if_neg other, Option.isSome_map]
    rfl
  target? := by rw [target?_settle, if_neg other.symm]

end Partition

namespace Work.OnlyConfirms

variable {c : Context} {α : Type} {work : Work α} {s s' : State} {a : α}

/-- What confirmations keep holds after work that does nothing else. -/
theorem keeps (inv : State → Prop)
    (kept : ∀ s x, inv s → x.isConfirmation = true → inv (s.after c x))
    (only : work.OnlyConfirms c s a s') (holds : inv s) : inv s' :=
  Does.keeps kept only holds

theorem sound (only : work.OnlyConfirms c s a s') (sound : s.ledger.Each Partition.Sound) :
    s'.ledger.Each Partition.Sound :=
  only.keeps (fun s => s.ledger.Each Partition.Sound)
    (fun _ x each _ => Partition.invariant_sound.after each c x) sound

theorem heeds {exempt : MethodId → MethodId → Prop} (coherent : c.old.program.Coherent)
    (only : work.OnlyConfirms c s a s') (heeds : s.ledger.Heeds c exempt) :
    s'.ledger.Heeds c exempt :=
  only.keeps (fun s => s.ledger.Heeds c exempt)
    (fun _ _ heeds confirmation => heeds.after coherent (.inl confirmation)) heeds

theorem narrows (only : work.OnlyConfirms c s a s') : s.ledger.Narrows s'.ledger :=
  only.keeps (fun s' => s.ledger.Narrows s'.ledger)
    (fun _ _ fewer confirmation => fewer.trans (Ledger.narrows_after confirmation)) (.refl _)

theorem extends_types (only : work.OnlyConfirms c s a s')
    (sound : s.ledger.Each Partition.Sound) : s.ledger.types.Extends s'.ledger.types := by
  obtain ⟨-, actions, -, rfl⟩ := only
  exact (State.extends_foldl_after sound actions).types

end Work.OnlyConfirms

/-! ## Collectors of members -/

/-- How the members of a kind are collected, where certain pairs of methods need not follow their
owners. -/
structure MemberCollector (c : Context) (exempt : MethodId → MethodId → Prop) (ι : Type)
    [KeyOrder ι] [DecidableEq ι] where
  part : Ledger → Partition ι
  kind : MemberKind ι
  /-- The members of an old type. -/
  members : TypeId → List ι
  work : Handle ι → ι → Work Bool
  /-- What the work does. -/
  act : Handle ι → ι → Action
  sound : ∀ {l : Ledger}, l.Each Partition.Sound → (part l).Sound
  follows : ∀ {l : Ledger}, l.Heeds c exempt → (part l).Follows (kind.pendingRules l.types)
  narrows : ∀ {l l' : Ledger}, l.Narrows l' → ∀ k n, (part l').HasVote k n → (part l).HasVote k n
  part_settleType : ∀ (l : Ledger) (o n : TypeId),
    part (l.settleType c (.real o) n) = (part l).restricted kind.newOwner n (members o)
  work_eq : ∀ (k : Handle ι) (n : ι) (s : State),
    work k n s = .ok (!(part s.ledger).isTaken k n) (s.after c (act k n))
  confirmation : ∀ k n, (act k n).isConfirmation = true
  types_act : ∀ (s : State) (k : Handle ι) (n : ι),
    (s.after c (act k n)).ledger.types = s.ledger.types
  part_act : ∀ {s : State} {k : Handle ι} {n : ι}, (part s.ledger).isTaken k n = false →
    part (s.after c (act k n)).ledger =
      (part s.ledger).settle k ((part s.ledger).entryFor k n) n

namespace MemberCollector

variable {c : Context} {exempt : MethodId → MethodId → Prop}

/-- The collector of methods. -/
def methods (c : Context) (exempt : MethodId → MethodId → Prop) :
    MemberCollector c exempt MethodId where
  part := (·.methods)
  kind := c.methodKindExempting exempt
  members o := (c.old.program.type o).methods
  work := Work.confirmMethod
  act := .confirmMethod
  sound each := each.methods
  follows heeds := heeds.methods
  narrows fewer := fewer.methods
  part_settleType _ _ _ := rfl
  work_eq := Work.confirmMethod_eq
  confirmation _ _ := rfl
  types_act s k n := by
    simp only [State.after, State.confirmMethod]
    split_ifs <;> rfl
  part_act free := by
    simp only [State.after, State.confirmMethod, free]
    rfl

/-- The collector of fields. -/
def fields (c : Context) (exempt : MethodId → MethodId → Prop) :
    MemberCollector c exempt FieldId where
  part := (·.fields)
  kind := c.fieldKind (.unlimited _)
  members o := (c.old.program.type o).fields
  work := Work.confirmField
  act := .confirmField
  sound each := each.fields
  follows heeds := heeds.fields
  narrows fewer := fewer.fields
  part_settleType _ _ _ := rfl
  work_eq := Work.confirmField_eq
  confirmation _ _ := rfl
  types_act s k n := by
    simp only [State.after, State.confirmField]
    split_ifs <;> rfl
  part_act free := by
    simp only [State.after, State.confirmField, free]
    rfl

variable {ι : Type} [KeyOrder ι] [DecidableEq ι] (M : MemberCollector c exempt ι)

/-- The owners of a member and of its candidate. -/
def owners (k : Handle ι) (n : ι) : Option (TypeId × TypeId) :=
  k.real?.map fun m => (M.kind.oldOwner m, M.kind.newOwner n)

/-- Look at one member. -/
def turn (k : Handle ι) : Work Unit :=
  collectOne M.part (fun old new => confirmOwned c (M.owners old new) (M.work old new)) k

/-! ## One turn -/

/-- What one turn comes to: a member without candidate is passed over, one whose owners are blocked
is held back, and any other is confirmed, together with its owner if that is open. -/
inductive Turn (s : State) : Handle ι → State → Prop
  | passed {k : Handle ι} (open_ : (M.part s.ledger).candidate? k = none) : Turn s k s
  | held {m n : ι} (leads : (M.part s.ledger).candidate? (.real m) = some n)
      (blocked : s.ledger.IsBlocked (M.kind.oldOwner m) (M.kind.newOwner n)) :
      Turn s (.real m) s
  | placed {p : Synthetic} {n : ι}
      (leads : (M.part s.ledger).candidate? (.synthetic p) = some n) :
      Turn s (.synthetic p) (s.after c (M.act (.synthetic p) n))
  | joined {m n : ι} {t : TypeId} (leads : (M.part s.ledger).candidate? (.real m) = some n)
      (owner : s.ledger.types.target? (.real (M.kind.oldOwner m)) = some t) :
      Turn s (.real m) (s.after c (M.act (.real m) n))
  | together {m n : ι} (leads : (M.part s.ledger).candidate? (.real m) = some n)
      (free : s.ledger.types.isTaken (.real (M.kind.oldOwner m)) (M.kind.newOwner n) = false) :
      Turn s (.real m) ((s.confirmType c (.real (M.kind.oldOwner m)) (M.kind.newOwner n)).after c
        (M.act (.real m) n))

variable {M} {s s' : State} {k : Handle ι}

/-- A turn never fails. -/
theorem exists_turn (sound : s.ledger.Each Partition.Sound) (k : Handle ι) :
    ∃ s', M.turn k s = .ok () s' ∧ M.Turn s k s' := by
  cases leads : (M.part s.ledger).candidate? k with
  | none => exact ⟨s, collectOne_of_none (M.sound sound) leads, .passed leads⟩
  | some n =>
      have asked : M.turn k s = confirmOwned c (M.owners k n) (M.work k n) s :=
        collectOne_of_candidate (M.sound sound) leads
      have goes {s₁ : State} (settled : settleOwners c (M.owners k n) s = .ok true s₁) :
          M.turn k s = .ok () (s₁.after c (M.act k n)) := by
        rw [asked, confirmOwned, bind_of_ok settled]
        exact Work.discard_eq (M.work_eq k n s₁)
      cases k with
      | synthetic p => exact ⟨_, goes rfl, .placed leads⟩
      | real m =>
          have settling : settleOwners c (M.owners (.real m) n) s =
              settleOwner c (M.kind.oldOwner m) (M.kind.newOwner n) s := rfl
          rw [settleOwner_eq] at settling
          split_ifs at settling with decided claimed
          · obtain ⟨t, owner⟩ := Option.isSome_iff_exists.mp decided
            exact ⟨_, goes settling, .joined leads owner⟩
          · refine ⟨s, ?_, .held leads ⟨Option.not_isSome_iff_eq_none.mp decided, claimed⟩⟩
            rw [asked, confirmOwned, bind_of_ok settling]
            rfl
          · have fresh := sound.types.not_isConfirmed_of_target?
              (Option.not_isSome_iff_eq_none.mp decided)
            have free := Partition.isTaken_eq_false_iff.mpr ⟨fresh, Bool.not_eq_true _ ▸ claimed⟩
            rw [free] at settling
            exact ⟨_, goes settling, .together leads free⟩

/-- Confirming a free type cuts down the votes of its members. -/
theorem part_confirmType {o t : TypeId} (free : s.ledger.types.isTaken (.real o) t = false) :
    M.part (s.confirmType c (.real o) t).ledger =
      (M.part s.ledger).restricted M.kind.newOwner t (M.members o) := by
  rw [State.confirmType, free, ← M.part_settleType]
  rfl

/-- A member with a candidate is free to be confirmed onto it, also after its owner is confirmed. -/
theorem isTaken_confirmType (sound : s.ledger.Each Partition.Sound) {n : ι}
    (leads : (M.part s.ledger).candidate? k = some n) {o t : TypeId}
    (free : s.ledger.types.isTaken (.real o) t = false) :
    (M.part (s.confirmType c (.real o) t).ledger).isTaken k n = false := by
  rw [part_confirmType free, Partition.isTaken, Partition.isConfirmed, Partition.isClaimed,
    Partition.confirmed_restricted, Partition.inverse_restricted]
  exact ((M.sound sound).of_candidate? leads).2

/-- A candidate was voted for. -/
theorem hasVote_of_candidate? (sound : s.ledger.Each Partition.Sound) {n : ι}
    (leads : (M.part s.ledger).candidate? k = some n) : (M.part s.ledger).HasVote k n :=
  (M.sound sound).hasVote_of_highest ((M.sound sound).of_candidate? leads).1

variable (M) in
/-- A member of the old program is confirmed onto a new one, its owner is confirmed too, and that
onto the owner of the new one, unless the pair is exempt. -/
def Follows (l : Ledger) (m n : ι) : Prop :=
  ∃ t, l.types.target? (.real (M.kind.oldOwner m)) = some t ∧
    (t = M.kind.newOwner n ∨ M.kind.isExempt m n)

namespace Turn

/-- Other members are left as they are. -/
theorem agreesOn (turn : M.Turn s k s') (sound : s.ledger.Each Partition.Sound) {k' : Handle ι}
    (other : k' ≠ k) : (M.part s.ledger).AgreesOn (M.part s'.ledger) k' := by
  have settled {s₁ : State} {n : ι} (free : (M.part s₁.ledger).isTaken k n = false) :
      (M.part s₁.ledger).AgreesOn (M.part (s₁.after c (M.act k n)).ledger) k' := by
    rw [M.part_act free]
    exact Partition.agreesOn_settle _ _ _ other
  cases turn with
  | passed | held => exact .refl _ _
  | placed leads => exact settled ((M.sound sound).of_candidate? leads).2
  | joined leads owner => exact settled ((M.sound sound).of_candidate? leads).2
  | together leads free =>
      refine .trans ?_ (settled (isTaken_confirmType sound leads free))
      rw [part_confirmType free]
      exact Partition.agreesOn_restricted _ _ _ _ _

/-- A pending member is still pending after its turn, or it is confirmed onto its candidate and
follows its owner. -/
theorem outcome (turn : M.Turn s k s') (sound : s.ledger.Each Partition.Sound)
    (heeds : s.ledger.Heeds c exempt) (pending : (M.part s.ledger).pending.contains k = true) :
    (M.part s'.ledger).pending.contains k = true ∨
      ∃ n, (M.part s'.ledger).target? k = some n ∧ (M.part s.ledger).HasVote k n ∧
        ∀ m, k = .real m → M.kind.isOld m → M.Follows s'.ledger m n := by
  have settled {s₁ : State} {n : ι} (free : (M.part s₁.ledger).isTaken k n = false) :
      (M.part (s₁.after c (M.act k n)).ledger).target? k = some n := by
    rw [M.part_act free, Partition.target?_settle, if_pos rfl]
    rfl
  cases turn with
  | passed | held => exact .inl pending
  | placed leads =>
      refine .inr ⟨_, settled ((M.sound sound).of_candidate? leads).2,
        hasVote_of_candidate? sound leads, ?_⟩
      exact nofun
  | @joined m n t leads owner =>
      have voted := hasVote_of_candidate? sound leads
      refine .inr ⟨n, settled ((M.sound sound).of_candidate? leads).2, voted, ?_⟩
      rintro m' ⟨rfl⟩ inside
      obtain ⟨e, found, vote⟩ := voted
      refine ⟨t, by rw [M.types_act]; exact owner, ?_⟩
      rcases (M.follows heeds).ballot found vote m rfl inside with exempted | fits
      · exact .inr exempted
      · exact .inl (fits t owner).symm
  | @together m n leads free =>
      refine .inr ⟨n, settled (isTaken_confirmType sound leads free),
        hasVote_of_candidate? sound leads, ?_⟩
      rintro m' ⟨rfl⟩ -
      refine ⟨M.kind.newOwner n, ?_, .inl rfl⟩
      rw [M.types_act, State.confirmType, free, if_neg Bool.false_ne_true,
        Ledger.types_settleType, Partition.target?_settle, if_pos rfl]
      rfl

end Turn

/-! ## All turns -/

variable (M) in
theorem turn_onlyConfirms (k : Handle ι) (s : State) :
    ∃ s', (M.turn k).OnlyConfirms c s () s' :=
  collectOne_onlyConfirms (fun old new => confirmOwned_onlyConfirms
    (fun s => ⟨_, _, .single (M.confirmation old new) (M.work_eq old new s)⟩)
    (M.owners old new)) k s

/-- Turns of other members leave a member as it is. -/
theorem forM_turn (sound : s.ledger.Each Partition.Sound) (keys : List (Handle ι)) :
    ∃ s', (keys.forM M.turn).OnlyConfirms c s () s' ∧
      ∀ k ∉ keys, (M.part s.ledger).AgreesOn (M.part s'.ledger) k := by
  induction keys generalizing s with
  | nil => exact ⟨s, .pure () s, fun _ _ => .refl _ _⟩
  | cons k rest ih =>
      obtain ⟨s₁, first⟩ := M.turn_onlyConfirms k s
      obtain ⟨s', later, agrees⟩ := ih (first.sound sound)
      refine ⟨s', first.bind later, ?_⟩
      intro k' outside
      rw [List.mem_cons, not_or] at outside
      obtain ⟨s₂, done, turn⟩ := exists_turn (M := M) sound k
      obtain rfl : s₂ = s₁ := by
        rw [first.1] at done
        cases done
        rfl
      exact (turn.agreesOn sound outside.1).trans (agrees k' outside.2)

/-- The turn of one member among all others, which come before and after it. -/
structure Around (M : MemberCollector c exempt ι) (s : State) (before : List (Handle ι))
    (k : Handle ι) (rest : List (Handle ι)) (s₁ s₂ s' : State) : Prop where
  first : (before.forM M.turn).OnlyConfirms c s () s₁
  agrees₁ : (M.part s.ledger).AgreesOn (M.part s₁.ledger) k
  turn : M.Turn s₁ k s₂
  later : (rest.forM M.turn).OnlyConfirms c s₂ () s'
  agrees₂ : (M.part s₂.ledger).AgreesOn (M.part s'.ledger) k
  sound : s₂.ledger.Each Partition.Sound
  done : (before ++ k :: rest).forM M.turn s = .ok () s'

/-- Any turn can be looked at in this way. -/
theorem exists_around (sound : s.ledger.Each Partition.Sound) {before rest : List (Handle ι)}
    {k : Handle ι} (distinct : (before ++ k :: rest).Nodup) :
    ∃ s₁ s₂ s', M.Around s before k rest s₁ s₂ s' := by
  rw [List.nodup_append, List.nodup_cons] at distinct
  obtain ⟨-, ⟨notLater, -⟩, apart⟩ := distinct
  obtain ⟨s₁, first, agrees₁⟩ := forM_turn (M := M) sound before
  obtain ⟨s₂, only⟩ := M.turn_onlyConfirms k s₁
  obtain ⟨s₂', done, turn⟩ := exists_turn (M := M) (first.sound sound) k
  obtain rfl : s₂' = s₂ := by
    rw [only.1] at done
    cases done
    rfl
  obtain ⟨s', later, agrees₂⟩ := forM_turn (M := M) (only.sound (first.sound sound)) rest
  refine ⟨s₁, s₂', s', first, agrees₁ k ?_, turn, later, agrees₂ k notLater,
    only.sound (first.sound sound), ?_⟩
  · exact fun early => apart k early k List.mem_cons_self rfl
  · have whole : (before ++ k :: rest).forM M.turn =
        (before.forM M.turn >>= fun _ => (k :: rest).forM M.turn) := List.forM_append
    rw [whole, bind_of_ok first.1]
    exact (bind_of_ok only.1).trans later.1

namespace Around

variable {before rest : List (Handle ι)} {s₁ s₂ : State}
  (around : M.Around s before k rest s₁ s₂ s') (coherent : c.old.program.Coherent)
  (sound : s.ledger.Each Partition.Sound) (heeds : s.ledger.Heeds c exempt)

include around coherent sound heeds

/-- **A pending member is still pending in the end, or it is confirmed onto a candidate it had in
the beginning and follows its owner.** -/
theorem outcome (pending : (M.part s.ledger).pending.contains k = true) :
    (M.part s'.ledger).pending.contains k = true ∨
      ∃ n, (M.part s'.ledger).target? k = some n ∧ (M.part s.ledger).HasVote k n ∧
        ∀ m, k = .real m → M.kind.isOld m → M.Follows s'.ledger m n := by
  rw [← around.agrees₁.pending] at pending
  rw [around.agrees₂.pending, around.agrees₂.target?]
  refine (around.turn.outcome (around.first.sound sound) (around.first.heeds coherent heeds)
    pending).imp_right ?_
  rintro ⟨n, confirmed, voted, follows⟩
  refine ⟨n, confirmed, M.narrows around.first.narrows k n voted, ?_⟩
  intro m key inside
  obtain ⟨t, owner, fits⟩ := follows m key inside
  exact ⟨t, around.later.extends_types around.sound _ _ owner, fits⟩

/-- **A member is held back where its owner and that of its candidate belong to others.** -/
theorem held {m n : ι} (key : k = .real m) (inside : M.kind.isOld m)
    (leads : (M.part s₁.ledger).candidate? (.real m) = some n)
    (apart : s₁.ledger.types.Separates (M.kind.oldOwner m) (M.kind.newOwner n))
    (bound : ¬ M.kind.isExempt m n) : (M.part s'.ledger).pending.contains (.real m) = true := by
  have sound₁ := around.first.sound sound
  obtain ⟨e, found, vote⟩ := hasVote_of_candidate? sound₁ leads
  have pending : (M.part s₁.ledger).pending.contains (.real m) = true :=
    SortedMap.contains_of_get? found
  have turn := around.turn
  subst key
  rw [around.agrees₂.pending]
  cases turn with
  | passed | held => exact pending
  | joined leads' owner =>
      obtain rfl := Option.some.inj (leads.symm.trans leads')
      have ballot := (M.follows (around.first.heeds coherent heeds)).ballot found vote m rfl inside
      have same := ballot.resolve_left bound _ owner
      rw [← same] at owner
      exact absurd owner (apart.target?_ne sound₁.types)
  | together leads' free =>
      obtain rfl := Option.some.inj (leads.symm.trans leads')
      rw [apart.isTaken] at free
      cases free

end Around

/-- **What becomes of the members of a batch.** -/
theorem collected (coherent : c.old.program.Coherent) (sound : s.ledger.Each Partition.Sound)
    (heeds : s.ledger.Heeds c exempt) {batch : List (Handle ι)} (distinct : batch.Nodup) :
    ∃ s', (batch.forM M.turn).OnlyConfirms c s () s' ∧
      (∀ k, (M.part s.ledger).pending.contains k = true →
        (M.part s'.ledger).pending.contains k = true ∨
          ∃ n, (M.part s'.ledger).target? k = some n ∧ (M.part s.ledger).HasVote k n ∧
            ∀ m, k = .real m → M.kind.isOld m → M.Follows s'.ledger m n) ∧
      (∀ k ∉ batch, (M.part s.ledger).AgreesOn (M.part s'.ledger) k) ∧
      ∀ before m rest, batch = before ++ .real m :: rest → M.kind.isOld m →
        ∃ s₁, before.forM M.turn s = .ok () s₁ ∧ ∀ n,
          (M.part s₁.ledger).candidate? (.real m) = some n →
          s₁.ledger.types.Separates (M.kind.oldOwner m) (M.kind.newOwner n) →
          ¬ M.kind.isExempt m n → (M.part s'.ledger).pending.contains (.real m) = true := by
  obtain ⟨s', only, agrees⟩ := forM_turn (M := M) sound batch
  have same {before rest : List (Handle ι)} {k : Handle ι} {s₁ s₂ s'' : State}
      (split : batch = before ++ k :: rest) (around : M.Around s before k rest s₁ s₂ s'') :
      s'' = s' := by
    have done := around.done
    rw [← split, only.1] at done
    cases done
    rfl
  refine ⟨s', only, ?_, agrees, ?_⟩
  · intro k pending
    by_cases listed : k ∈ batch
    · obtain ⟨before, rest, split⟩ := List.append_of_mem listed
      obtain ⟨s₁, s₂, s'', around⟩ := exists_around (M := M) sound (split ▸ distinct)
      obtain rfl := same split around
      exact around.outcome coherent sound heeds pending
    · exact .inl ((agrees k listed).pending.trans pending)
  · intro before m rest split inside
    obtain ⟨s₁, s₂, s'', around⟩ := exists_around (M := M) sound (split ▸ distinct)
    obtain rfl := same split around
    exact ⟨s₁, around.first.1, fun n => around.held coherent sound heeds rfl inside⟩

end MemberCollector

end Namesake
