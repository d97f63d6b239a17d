import Namesake.Proofs.Confirming
import Namesake.Proofs.PartitionInvariants

/-! # What the collector answers to

The collector looks at the ledger again before each confirmation, but no confirmation brings in new
votes: settling a pair takes votes back, and so does cutting down those of the members of a type
(`Ledger.Narrows`). So whatever the collector confirms was voted for when it began, or belongs to
the owners of members that were (`collectVotes_does`). This holds of all programs, valid or not.
-/

namespace Namesake

variable {ι : Type} [KeyOrder ι]

namespace Partition

/-- A pending old thing has votes for a new one. -/
def HasVote (p : Partition ι) (k : Handle ι) (n : ι) : Prop :=
  ∃ e, p.pending.get? k = some e ∧ e.votes.contains n = true

/-- The best candidate of an old thing was voted for. -/
theorem Sound.hasVote_of_highest {p : Partition ι} (sound : p.Sound) {k : Handle ι} {best : ι}
    (leads : (p.get? k >>= (·.highest)) = some best) : p.HasVote k best := by
  obtain ⟨e, found, leads⟩ := Option.bind_eq_some_iff.mp leads
  rcases hasEntry_of_get? found with pending | confirmed
  · exact ⟨e, pending, sound.leader pending best leads⟩
  · rw [(sound.bare confirmed).highest] at leads
    cases leads

variable [DecidableEq ι] {p : Partition ι} {k : Handle ι} {n : ι}

theorem hasVote_of_settle {old : Handle ι} {entry : MatchEntry ι} {target : ι}
    (voted : (p.settle old entry target).HasVote k n) : p.HasVote k n := by
  obtain ⟨e, found, vote⟩ := voted
  rw [get?_pending_settle] at found
  split_ifs at found
  obtain ⟨e', present, rfl⟩ := Option.map_eq_some_iff.mp found
  rw [MatchEntry.removeVote, MatchEntry.contains_retainVotes, Bool.and_eq_true] at vote
  exact ⟨e', present, vote.1⟩

theorem hasVote_of_restricted {ownerOf : ι → TypeId} {owner : TypeId} {members : List ι}
    (voted : (p.restricted ownerOf owner members).HasVote k n) : p.HasVote k n := by
  obtain ⟨e, found, vote⟩ := voted
  obtain ⟨e', present, votes, -⟩ := exists_of_get?_pending_restricted found
  exact ⟨e', present, votes n vote⟩

end Partition

namespace Ledger

/-- The votes of the second ledger are among those of the first. -/
structure Narrows (l l' : Ledger) : Prop where
  types : ∀ k n, l'.types.HasVote k n → l.types.HasVote k n
  methods : ∀ k n, l'.methods.HasVote k n → l.methods.HasVote k n
  fields : ∀ k n, l'.fields.HasVote k n → l.fields.HasVote k n

variable {c : Context} {l l' l'' : Ledger}

theorem Narrows.refl (l : Ledger) : l.Narrows l := ⟨fun _ _ => id, fun _ _ => id, fun _ _ => id⟩

theorem Narrows.trans (first : l.Narrows l') (second : l'.Narrows l'') : l.Narrows l'' where
  types k n voted := first.types k n (second.types k n voted)
  methods k n voted := first.methods k n (second.methods k n voted)
  fields k n voted := first.fields k n (second.fields k n voted)

theorem narrows_settleType (old : Handle TypeId) (new : TypeId) :
    l.Narrows (l.settleType c old new) := by
  cases old with
  | real o =>
      exact ⟨fun _ _ => Partition.hasVote_of_settle, fun _ _ => Partition.hasVote_of_restricted,
        fun _ _ => Partition.hasVote_of_restricted⟩
  | synthetic s =>
      exact ⟨fun _ _ => Partition.hasVote_of_settle, fun _ _ => id, fun _ _ => id⟩

/-- A confirmation brings in no votes. -/
theorem narrows_after {s : State} {a : Action} (confirmation : a.isConfirmation = true) :
    s.ledger.Narrows (s.after c a).ledger := by
  cases a with
  | vote b => cases confirmation
  | mergedType old => cases confirmation
  | mergedMethod old => cases confirmation
  | mergedField old => cases confirmation
  | confirmType old new =>
      simp only [State.after, State.confirmType]
      split_ifs
      · exact .refl _
      · exact narrows_settleType old new
  | confirmMethod old new =>
      simp only [State.after, State.confirmMethod]
      split_ifs
      · exact .refl _
      · exact ⟨fun _ _ => id, fun _ _ => Partition.hasVote_of_settle, fun _ _ => id⟩
  | confirmField old new =>
      simp only [State.after, State.confirmField]
      split_ifs
      · exact .refl _
      · exact ⟨fun _ _ => id, fun _ _ => id, fun _ _ => Partition.hasVote_of_settle⟩

end Ledger

/-- A ledger calls for a confirmation: it has a vote for the pair, or for members of the two
types. -/
inductive Action.IsCalledFor (c : Context) (l : Ledger) : Action → Prop
  | type {k : Handle TypeId} {n : TypeId} (voted : l.types.HasVote k n) :
      IsCalledFor c l (.confirmType k n)
  | method {k : Handle MethodId} {n : MethodId} (voted : l.methods.HasVote k n) :
      IsCalledFor c l (.confirmMethod k n)
  | field {k : Handle FieldId} {n : FieldId} (voted : l.fields.HasVote k n) :
      IsCalledFor c l (.confirmField k n)
  | methodOwner {m : MethodId} {n : MethodId} (voted : l.methods.HasVote (.real m) n) :
      IsCalledFor c l
        (.confirmType (.real (c.old.program.method m).owner) (c.new.program.method n).owner)
  | fieldOwner {f : FieldId} {n : FieldId} (voted : l.fields.HasVote (.real f) n) :
      IsCalledFor c l
        (.confirmType (.real (c.old.program.field f).owner) (c.new.program.field n).owner)

variable {c : Context} {l : Ledger}

theorem Action.IsCalledFor.isConfirmation {a : Action} (called : a.IsCalledFor c l) :
    a.isConfirmation = true := by
  cases called <;> rfl

/-! ## The collector -/

/-- A state whose votes were there when the collector began. -/
structure State.IsWithin (l : Ledger) (s : State) : Prop where
  sound : s.ledger.Each Partition.Sound
  narrows : l.Narrows s.ledger

theorem State.IsWithin.after {s : State} {a : Action} (within_ : s.IsWithin l)
    (called : a.IsCalledFor c l) : (s.after c a).IsWithin l where
  sound := Partition.invariant_sound.after within_.sound c a
  narrows := within_.narrows.trans (Ledger.narrows_after called.isConfirmation)

/-- The collector does what a ledger calls for if its way to confirm one thing that is voted for
does. -/
theorem collect_does {kind : Ledger → Partition ι} {minimum : Nat}
    {confirm : Handle ι → ι → Work Unit}
    (sound : ∀ l : Ledger, l.Each Partition.Sound → (kind l).Sound)
    (narrows : ∀ l' : Ledger, l.Narrows l' → ∀ k n, (kind l').HasVote k n → (kind l).HasVote k n)
    (confirms : ∀ k n s, (kind l).HasVote k n →
      ∃ s', (confirm k n).Does c (Action.IsCalledFor c l) s () s')
    {s : State} (within_ : s.IsWithin l) :
    ∃ s', (collect c kind minimum confirm).Does c (Action.IsCalledFor c l) s () s' := by
  have one (k : Handle ι) (s : State) (within_ : s.IsWithin l) :
      ∃ s', (collectOne kind confirm k).Does c (Action.IsCalledFor c l) s () s' := by
    unfold collectOne
    refine Exists.imp (fun _ => (Work.Does.get s).bind) ?_
    cases leads : (kind s.ledger).get? k >>= (·.highest) with
    | none => exact ⟨s, .pure () s⟩
    | some best =>
        have voted := (sound _ within_.sound).hasVote_of_highest leads
        exact confirms k best s (narrows _ within_.narrows k best voted)
  exact Exists.imp (fun _ => (Work.Does.get s).bind)
    (Work.Does.forM (State.IsWithin l) (fun _ _ => State.IsWithin.after) one _ within_)

/-- Confirming a member once its owners are settled does what a ledger calls for if it calls for
both. -/
theorem confirmOwned_does {confirm : Work Bool} {a : Action}
    (confirms : ∀ s, ∃ done, confirm s = .ok done (s.after c a)) (called : a.IsCalledFor c l)
    {owners : Option (TypeId × TypeId)}
    (owned : ∀ o n, owners = some (o, n) → (Action.confirmType (.real o) n).IsCalledFor c l)
    (s : State) :
    ∃ s', (confirmOwned c owners confirm).Does c (Action.IsCalledFor c l) s () s' := by
  have asked : ∃ settled s₁,
      (settleOwners c owners).Does c (Action.IsCalledFor c l) s settled s₁ := by
    cases owners with
    | none => exact ⟨true, s, .pure true s⟩
    | some pair =>
        obtain ⟨old, new⟩ := pair
        simp only [settleOwners, Work.Does, settleOwner_eq]
        split_ifs
        · exact ⟨true, s, rfl, [], List.forall_mem_nil _, rfl⟩
        · exact ⟨false, s, rfl, [], List.forall_mem_nil _, rfl⟩
        · rw [← Work.confirmType_eq c]
          have confirmed := Work.confirmType_eq c (.real old) new s
          exact ⟨_, _, Work.Does.single (owned old new rfl) confirmed⟩
  obtain ⟨settled, s₁, asked⟩ := asked
  cases settled with
  | false => exact ⟨s₁, asked.bind (.pure () s₁)⟩
  | true =>
      obtain ⟨done, confirmed⟩ := confirms s₁
      obtain ⟨s₂, confirmed⟩ :=
        Work.Does.discard ⟨done, _, Work.Does.single (c := c) called confirmed⟩
      exact ⟨s₂, asked.bind confirmed⟩

/-- **The collector never fails and does what the ledger it finds calls for.** -/
theorem collectVotes_does {s : State} (sound : s.ledger.Each Partition.Sound) :
    ∃ s', (collectVotes c).Does c (Action.IsCalledFor c s.ledger) s () s' := by
  have begins : s.IsWithin s.ledger := ⟨sound, .refl _⟩
  have stays {work : Work Unit} {s₁ s₂ : State} (within_ : s₁.IsWithin s.ledger)
      (does : work.Does c (Action.IsCalledFor c s.ledger) s₁ () s₂) : s₂.IsWithin s.ledger :=
    does.keeps (fun _ _ => State.IsWithin.after) within_
  obtain ⟨s₁, types⟩ : ∃ s₁, (collectTypes c).Does c (Action.IsCalledFor c s.ledger) s () s₁ := by
    rw [collectTypes_eq_collect]
    refine collect_does (fun _ each => each.types) (fun _ fewer => fewer.types) ?_ begins
    intro k n s₁ voted
    exact Work.Does.discard ⟨_, _, .single (.type voted) (Work.confirmType_eq c k n s₁)⟩
  have within₁ := stays begins types
  obtain ⟨s₂, methods⟩ :
      ∃ s₂, (collectMethods c).Does c (Action.IsCalledFor c s.ledger) s₁ () s₂ := by
    rw [collectMethods_eq_collect]
    refine collect_does (fun _ each => each.methods) (fun _ fewer => fewer.methods) ?_ within₁
    intro k n s₁ voted
    refine confirmOwned_does (fun s => ⟨_, Work.confirmMethod_eq k n s⟩) (.method voted) ?_ s₁
    intro old new owners
    cases k with
    | synthetic placeholder => cases owners
    | real m =>
        cases owners
        exact .methodOwner voted
  have within₂ := stays within₁ methods
  obtain ⟨s₃, fields⟩ :
      ∃ s₃, (collectFields c).Does c (Action.IsCalledFor c s.ledger) s₂ () s₃ := by
    rw [collectFields_eq_collect]
    refine collect_does (fun _ each => each.fields) (fun _ fewer => fewer.fields) ?_ within₂
    intro k n s₁ voted
    refine confirmOwned_does (fun s => ⟨_, Work.confirmField_eq k n s⟩) (.field voted) ?_ s₁
    intro old new owners
    cases k with
    | synthetic placeholder => cases owners
    | real f =>
        cases owners
        exact .fieldOwner voted
  exact ⟨s₃, types.bind (methods.bind fields)⟩

end Namesake
