import Namesake.Merge.State
import Namesake.Proofs.Partition

/-! # Partitions that follow rules

Beyond being sound, the partitions of a merge obey rules about what they are about: which old things
have entries, which candidates have votes, which pairs are confirmed, and which hints are set. The
rules are parameters here (`Partition.Rules`), and each operation keeps a partition within them if
what it adds is allowed (`Partition.Follows`). Restricting the members of a type is the one
operation that leads to stricter rules (`Partition.Follows.restrict`).
-/

namespace Namesake.Partition

variable {ι : Type} [KeyOrder ι]

/-- What a partition may hold. -/
structure Rules (ι : Type) where
  /-- Which old things may have entries. -/
  subject : Handle ι → Prop
  /-- Which votes there may be. -/
  ballot : Handle ι → ι → Prop
  /-- Which pairs may be confirmed. -/
  pair : Handle ι → ι → Prop
  /-- Which hints may be set. -/
  hint : Handle ι → TypeId → Prop

/-- An old thing has an entry, pending or confirmed. -/
def HasEntry (p : Partition ι) (k : Handle ι) (e : MatchEntry ι) : Prop :=
  p.pending.get? k = some e ∨ p.confirmed.get? k = some e

/-- Everything in a partition is allowed by rules. -/
structure Follows (p : Partition ι) (r : Rules ι) : Prop where
  subject : ∀ {k e}, p.HasEntry k e → r.subject k
  ballot : ∀ {k e n}, p.pending.get? k = some e → e.votes.contains n = true → r.ballot k n
  pair : ∀ {k n}, p.target? k = some n → r.pair k n
  hint : ∀ {k e t}, p.HasEntry k e → e.ownerHint = some t → r.hint k t

theorem hasEntry_of_get? {p : Partition ι} {k : Handle ι} {e : MatchEntry ι}
    (found : p.get? k = some e) : p.HasEntry k e := by
  rw [get?, Option.or_eq_some_iff] at found
  rcases found with confirmed | ⟨-, pending⟩
  · exact .inr confirmed
  · exact .inl pending

theorem empty_follows (r : Rules ι) : (∅ : Partition ι).Follows r where
  subject entry := entry.elim (nomatch ·) (nomatch ·)
  ballot found := nomatch found
  pair found := nomatch found
  hint entry := entry.elim (nomatch ·) (nomatch ·)

namespace Follows

variable {p : Partition ι} {r : Rules ι}

/-- Changes of pending entries that are allowed keep a partition within its rules. -/
theorem of_pending (follows : p.Follows r) {pending : SortedMap (Handle ι) (MatchEntry ι)}
    (allowed : ∀ k e, pending.get? k = some e → r.subject k ∧
      (∀ n, e.votes.contains n = true → r.ballot k n) ∧ ∀ t, e.ownerHint = some t → r.hint k t) :
    Follows { p with pending } r where
  subject entry := entry.elim (fun found => (allowed _ _ found).1)
    fun found => follows.subject (.inr found)
  ballot found voted := (allowed _ _ found).2.1 _ voted
  pair confirmed := follows.pair confirmed
  hint entry set := entry.elim (fun found => (allowed _ _ found).2.2 _ set)
    fun found => follows.hint (.inr found) set

/-- What is known of an entry that is pending already. -/
theorem pending_allowed (follows : p.Follows r) {k : Handle ι} {e : MatchEntry ι}
    (found : p.pending.get? k = some e) : r.subject k ∧
      (∀ n, e.votes.contains n = true → r.ballot k n) ∧ ∀ t, e.ownerHint = some t → r.hint k t :=
  ⟨follows.subject (.inl found), fun _ voted => follows.ballot found voted,
    fun _ set => follows.hint (.inl found) set⟩

variable [DecidableEq ι]

/-- A vote keeps a partition within its rules if it is allowed. A vote for a thing that is claimed
already does not count, so it need not be. -/
theorem vote (follows : p.Follows r) {old : Handle ι} {new : ι} (subject : r.subject old)
    (ballot : p.isClaimed new = false → r.ballot old new) : (p.vote old new).Follows r := by
  have shape : p.vote old new = { p with pending := (p.vote old new).pending } := by
    cases voted : p.vote old new with
    | mk pending confirmed inverse =>
        have confirmed_eq := confirmed_vote p old new
        have inverse_eq := inverse_vote p old new
        rw [voted] at confirmed_eq inverse_eq
        simp only at confirmed_eq inverse_eq
        rw [confirmed_eq, inverse_eq]
  rw [shape]
  apply follows.of_pending
  intro k e found
  rw [get?_pending_vote] at found
  by_cases here : old = k ∧ p.isConfirmed old = false
  · rw [if_pos here] at found
    obtain ⟨rfl, -⟩ := here
    have before : (∀ n, ((p.pending.get? old).getD (.blank old)).votes.contains n = true →
        r.ballot old n) ∧
        ∀ t, ((p.pending.get? old).getD (.blank old)).ownerHint = some t → r.hint old t := by
      cases present : p.pending.get? old with
      | none => exact ⟨fun n voted => (nomatch voted), fun t set => (nomatch set)⟩
      | some e' => exact (follows.pending_allowed present).2
    refine ⟨subject, ?_⟩
    obtain rfl := Option.some.inj found
    split_ifs with claimed
    · exact before
    · unfold MatchEntry.addVote?
      split_ifs
      · exact before
      · rw [Option.getD_some]
        constructor
        · intro n voted
          rw [MatchEntry.contains_countVote, Bool.or_eq_true, decide_eq_true_eq] at voted
          rcases voted with rfl | voted
          · exact ballot (Bool.not_eq_true _ ▸ claimed)
          · exact before.1 n voted
        · intro t set
          rw [(MatchEntry.countVote_standing _ new).ownerHint] at set
          exact before.2 t set
  · rw [if_neg here] at found
    exact follows.pending_allowed found

/-- Settling an allowed pair keeps a partition within its rules. -/
theorem settle (follows : p.Follows r) {old : Handle ι} {new : ι} (subject : r.subject old)
    (pair : r.pair old new) : (p.settle old (p.entryFor old new) new).Follows r := by
  have entries : ∀ {k e}, (p.settle old (p.entryFor old new) new).HasEntry k e →
      (k = old ∧ ∀ t, e.ownerHint = some t → r.hint old t) ∨
        ∃ e', p.HasEntry k e' ∧ e'.ownerHint = e.ownerHint := by
    intro k e entry
    rcases entry with found | found
    · rw [get?_pending_settle] at found
      split_ifs at found
      obtain ⟨e', present, rfl⟩ := Option.map_eq_some_iff.mp found
      exact .inr ⟨e', .inl present, (e'.retainVotes_standing _).ownerHint.symm⟩
    · rw [get?_confirmed_settle] at found
      split_ifs at found with same
      · obtain rfl := Option.some.inj found
        refine .inl ⟨same.symm, ?_⟩
        intro t set
        rw [MatchEntry.withoutVotes, entryFor] at set
        cases present : p.pending.get? old with
        | none =>
            rw [present] at set
            cases set
        | some e' =>
            rw [present] at set
            exact follows.hint (.inl present) set
      · exact .inr ⟨e, .inr found, rfl⟩
  constructor
  · intro k e entry
    obtain ⟨rfl, -⟩ | ⟨e', before, -⟩ := entries entry
    · exact subject
    · exact follows.subject before
  · intro k e n found voted
    rw [get?_pending_settle] at found
    split_ifs at found
    obtain ⟨e', present, rfl⟩ := Option.map_eq_some_iff.mp found
    rw [MatchEntry.removeVote, MatchEntry.contains_retainVotes, Bool.and_eq_true] at voted
    exact follows.ballot present voted.1
  · intro k n confirmed
    rw [target?_settle] at confirmed
    split_ifs at confirmed with same
    · obtain rfl := Option.some.inj confirmed
      exact same ▸ pair
    · exact follows.pair confirmed
  · intro k e t entry set
    obtain ⟨rfl, allowed⟩ | ⟨e', before, same⟩ := entries entry
    · exact allowed t set
    · exact follows.hint before (same.trans set)

theorem marked (follows : p.Follows r) (old : Handle ι) : (p.marked old).Follows r := by
  have entries : ∀ {k e}, (p.marked old).HasEntry k e →
      ∃ e', p.HasEntry k e' ∧ e'.ownerHint = e.ownerHint := by
    intro k e entry
    rcases entry with found | found
    · rw [pending_marked] at found
      exact ⟨e, .inl found, rfl⟩
    · obtain ⟨e', present, rfl | rfl⟩ := exists_of_get?_confirmed_marked found
      · exact ⟨e, .inr present, rfl⟩
      · exact ⟨e', .inr present, rfl⟩
  constructor
  · intro k e entry
    obtain ⟨e', before, -⟩ := entries entry
    exact follows.subject before
  · intro k e n found voted
    rw [pending_marked] at found
    exact follows.ballot found voted
  · intro k n confirmed
    rw [target?_marked] at confirmed
    exact follows.pair confirmed
  · intro k e t entry set
    obtain ⟨e', before, same⟩ := entries entry
    exact follows.hint before (same.trans set)

end Follows

/-! ## Restricting members -/

section

variable (ownerOf : ι → TypeId) (owner : TypeId)

/-- The partition after the votes of some members are cut down to members of an owner. -/
def restricted (p : Partition ι) (members : List ι) : Partition ι :=
  members.foldl (fun p m => p.modifyPending (.real m) (Work.restrictEntry ownerOf owner)) p

@[simp]
theorem confirmed_restricted (p : Partition ι) (members : List ι) :
    (p.restricted ownerOf owner members).confirmed = p.confirmed := by
  induction members generalizing p with
  | nil => rfl
  | cons m rest ih => exact ih _

@[simp]
theorem inverse_restricted (p : Partition ι) (members : List ι) :
    (p.restricted ownerOf owner members).inverse = p.inverse := by
  induction members generalizing p with
  | nil => rfl
  | cons m rest ih => exact ih _

variable {ownerOf owner}

theorem contains_restrictEntry {e : MatchEntry ι} {n : ι} :
    (Work.restrictEntry ownerOf owner e).votes.contains n =
      (e.votes.contains n && decide (ownerOf n = owner)) :=
  e.contains_retainVotes _ n

variable [DecidableEq ι]

theorem Sound.restricted {p : Partition ι} (sound : p.Sound) (members : List ι) :
    (p.restricted ownerOf owner members).Sound := by
  induction members generalizing p with
  | nil => exact sound
  | cons m rest ih =>
      apply ih
      apply sound.modifyPending
      intro e found
      have leader := (sound.leader found).retainVotes fun n => ownerOf n = owner
      have standing := e.retainVotes_standing fun n => ownerOf n = owner
      refine ⟨standing.old, leader, standing.merged, ?_⟩
      intro n voted
      rw [contains_restrictEntry, Bool.and_eq_true] at voted
      exact sound.unclaimed found voted.1

/-- A pending entry after restricting comes from one before: its votes are among the former ones,
its hint is the former one or the owner, and if it is one of the members, its hint is the owner and
its votes are for members of the owner only. -/
theorem exists_of_get?_pending_restricted {p : Partition ι} {members : List ι} {k : Handle ι}
    {e : MatchEntry ι} (found : (p.restricted ownerOf owner members).pending.get? k = some e) :
    ∃ e', p.pending.get? k = some e' ∧
      (∀ n, e.votes.contains n = true → e'.votes.contains n = true) ∧
      (∀ m ∈ members, k = .real m → e.ownerHint = some owner ∧
        ∀ n, e.votes.contains n = true → ownerOf n = owner) ∧
      ((∀ m ∈ members, k ≠ .real m) → e = e') := by
  induction members generalizing p with
  | nil => exact ⟨e, found, fun n voted => voted, fun m member => (nomatch member), fun _ => rfl⟩
  | cons m rest ih =>
      obtain ⟨e₁, found₁, votes, cut, same⟩ := ih found
      simp only [modifyPending, SortedMap.get?_modify] at found₁
      split_ifs at found₁ with here
      · obtain ⟨e', present, rfl⟩ := Option.map_eq_some_iff.mp found₁
        refine ⟨e', here ▸ present, ?_, ?_, ?_⟩
        · intro n voted
          have kept := votes n voted
          rw [contains_restrictEntry, Bool.and_eq_true] at kept
          exact kept.1
        · intro m' member key
          by_cases again : ∃ m'' ∈ rest, k = .real m''
          · obtain ⟨m'', member'', key''⟩ := again
            exact cut m'' member'' key''
          · push Not at again
            obtain rfl := same again
            refine ⟨rfl, ?_⟩
            intro n voted
            rw [contains_restrictEntry, Bool.and_eq_true, decide_eq_true_eq] at voted
            exact voted.2
        · intro other
          exact absurd here.symm (other m List.mem_cons_self)
      · refine ⟨e₁, found₁, votes, ?_, ?_⟩
        · intro m' member key
          rcases List.mem_cons.mp member with rfl | member
          · exact absurd key.symm here
          · exact cut m' member key
        · intro other
          exact same fun m' member => other m' (List.mem_cons_of_mem m member)

/-- Restricting leads from rules to others that ask, of the members alone, for candidates that
belong to the owner, and allow the owner as their hint. -/
theorem Follows.restrict {p : Partition ι} {r r' : Rules ι} (follows : p.Follows r)
    (members : List ι) (subject : ∀ k, r.subject k → r'.subject k)
    (ballot : ∀ k n, r.subject k → r.ballot k n →
      (∀ m ∈ members, k = .real m → ownerOf n = owner) → r'.ballot k n)
    (pair : ∀ k n, r.pair k n → r'.pair k n) (hint : ∀ k t, r.hint k t → r'.hint k t)
    (hinted : ∀ m ∈ members, r'.hint (.real m) owner) :
    (p.restricted ownerOf owner members).Follows r' where
  subject {k e} entry := by
    rcases entry with found | found
    · obtain ⟨e', present, -⟩ := exists_of_get?_pending_restricted found
      exact subject k (follows.subject (.inl present))
    · rw [confirmed_restricted] at found
      exact subject k (follows.subject (.inr found))
  ballot {k e n} found voted := by
    obtain ⟨e', present, votes, cut, -⟩ := exists_of_get?_pending_restricted found
    exact ballot k n (follows.subject (.inl present)) (follows.ballot present (votes n voted))
      fun m member key => (cut m member key).2 n voted
  pair {k n} confirmed := by
    rw [target?, confirmed_restricted] at confirmed
    exact pair k n (follows.pair confirmed)
  hint {k e t} entry set := by
    rcases entry with found | found
    · obtain ⟨e', present, -, cut, same⟩ := exists_of_get?_pending_restricted found
      by_cases cut_ : ∃ m ∈ members, k = .real m
      · obtain ⟨m, member, rfl⟩ := cut_
        rw [(cut m member rfl).1] at set
        exact Option.some.inj set ▸ hinted m member
      · push Not at cut_
        exact hint k t (follows.hint (.inl present) (same cut_ ▸ set))
    · rw [confirmed_restricted] at found
      exact hint k t (follows.hint (.inr found) set)

end

end Namesake.Partition
