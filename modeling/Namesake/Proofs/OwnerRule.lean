import Namesake.Proofs.SessionCalls

/-! # Members follow their owners

Whatever a session was asked to do, in whatever order: a member that is confirmed is confirmed with
its owner, a member whose owner is confirmed has votes for members of the counterpart only, and a
hint is that counterpart. The rule is enforced in pieces, when a vote is cast, when a type is
confirmed and when a member is committed; that the pieces fit together is what
`Ledger.Lawful` carries from call to call.
-/

namespace Namesake

namespace Session

/-- **Members follow their owners.** After any calls on a new session about valid programs, where
votes are about members that exist:

* confirmed fields are both static or both not, and their owners are confirmed for each other;
* so are confirmed methods, unless one of them is compiler-made;
* a pending member whose owner is confirmed has votes for members of the counterpart only, methods
  again unless one of the two is compiler-made;
* a hint is the confirmed counterpart of the old owner. -/
theorem members_follow_owners (old : Program) (names : MappingSet) (new : Program)
    (known : MappingSet) (settings : MergeSettings) (calls : List Call)
    (validOld : old.validate = .ok ()) (validNew : new.validate = .ok ())
    (about : ∀ b, Call.vote b ∈ calls → b.IsAbout old) :
    let l := ((start old names new known settings).afterCalls calls).state.ledger
    (∀ f g, l.fields.target? (.real f) = some g →
      (old.field f).isStatic = (new.field g).isStatic ∧
      l.types.target? (.real (old.field f).owner) = some (new.field g).owner) ∧
    (∀ m n, l.methods.target? (.real m) = some n →
      (old.method m).isSynthetic = false → (new.method n).isSynthetic = false →
      (old.method m).isStatic = (new.method n).isStatic ∧
      l.types.target? (.real (old.method m).owner) = some (new.method n).owner) ∧
    (∀ f e g t, l.fields.pending.get? (.real f) = some e → e.votes.contains g = true →
      l.types.target? (.real (old.field f).owner) = some t → (new.field g).owner = t) ∧
    (∀ m e n t, l.methods.pending.get? (.real m) = some e → e.votes.contains n = true →
      (old.method m).isSynthetic = false → (new.method n).isSynthetic = false →
      l.types.target? (.real (old.method m).owner) = some t → (new.method n).owner = t) ∧
    (∀ k e t, l.fields.HasEntry k e → e.ownerHint = some t →
      ∃ f, k = .real f ∧ l.types.target? (.real (old.field f).owner) = some t) ∧
    ∀ k e t, l.methods.HasEntry k e → e.ownerHint = some t →
      ∃ m, k = .real m ∧ l.types.target? (.real (old.method m).owner) = some t := by
  intro l
  have coherent := coherent_of_validate validOld validNew names settings
  have lawful : l.Lawful (.of old names new settings) (.unlimited new) :=
    (lawful_afterCalls coherent rfl (start_lawful old names new known settings _)
      (formed_of_isAbout about)).2.1
  have fields := lawful.fields.follows
  have methods := lawful.methods.follows
  have plain : ∀ {m n}, (old.method m).isSynthetic = false → (new.method n).isSynthetic = false →
      ¬ ((old.method m).isSynthetic = true ∨ (new.method n).isSynthetic = true) := by
    rintro m n oldPlain newPlain (synthetic | synthetic)
    · rw [oldPlain] at synthetic
      cases synthetic
    · rw [newPlain] at synthetic
      cases synthetic
  refine ⟨?_, ?_, ?_, ?_, ?_, ?_⟩
  · intro f g confirmed
    exact ((fields.pair confirmed).2 f rfl).resolve_left id
  · intro m n confirmed oldPlain newPlain
    exact ((methods.pair confirmed).2 m rfl).resolve_left (plain oldPlain newPlain)
  · intro f e g t pending voted confirmed
    exact (((fields.ballot pending voted).2 f rfl).resolve_left id).2 t confirmed
  · intro m e n t pending voted oldPlain newPlain confirmed
    exact (((methods.ballot pending voted).2 m rfl).resolve_left (plain oldPlain newPlain)).2 t
      confirmed
  · intro k e t entry hinted
    exact fields.hint entry hinted
  · intro k e t entry hinted
    exact methods.hint entry hinted

/-- A vote for a field takes its class along, and that takes its static initializer along. -/
theorem members_follow_owners_of_field_vote :
    let old := Program.single "a" "b"
    let new := Program.single "x" "y"
    let calls : List Call :=
      [.vote (.field ⟨0⟩ ⟨0⟩), .seed, .pass .collector, .pass .initializers]
    let l := ((start old ∅ new ∅ .default).afterCalls calls).state.ledger
    old.validate = .ok () ∧ new.validate = .ok () ∧ (∀ b, Call.vote b ∈ calls → b.IsAbout old) ∧
      l.fields.target? (.real ⟨0⟩) = some ⟨0⟩ ∧ l.methods.target? (.real ⟨0⟩) = some ⟨0⟩ ∧
      l.types.target? (.real (old.field ⟨0⟩).owner) = some (new.field ⟨0⟩).owner ∧
      l.types.target? (.real (old.method ⟨0⟩).owner) = some (new.method ⟨0⟩).owner := by
  intro old new calls l
  have validOld := Program.validate_single "a" "b"
  have validNew := Program.validate_single "x" "y"
  have about : ∀ b, Call.vote b ∈ calls → b.IsAbout old := by
    intro b member
    simp only [calls, List.mem_cons, Call.vote.injEq, List.not_mem_nil, or_false,
      reduceCtorEq] at member
    subst member
    decide
  have field : l.fields.target? (.real ⟨0⟩) = some ⟨0⟩ := by decide +kernel
  have method : l.methods.target? (.real ⟨0⟩) = some ⟨0⟩ := by decide +kernel
  have rule := members_follow_owners old ∅ new ∅ .default calls validOld validNew about
  exact ⟨validOld, validNew, about, field, method, (rule.1 ⟨0⟩ ⟨0⟩ field).2,
    (rule.2.1 ⟨0⟩ ⟨0⟩ method rfl rfl).2⟩

end Session

end Namesake
