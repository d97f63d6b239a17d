import Namesake.Merge.Expansion
import Namesake.Proofs.Undecided

/-! # Votes and tallies

A ballot counts if it is admissible, its old thing is not confirmed, its new thing is not claimed,
and no target is fixed. A ballot that counts adds one to its own tally; apart from that, casting a
ballot leaves a ledger as it was (`Ballot.cast_sameButTallies`). None of what decides about ballots
is a tally, so ledgers that differ in their tallies at most accept the same ballots
(`Ledger.SameButTallies.accepted`) and count the same ones (`Ledger.SameButTallies.counts`).

It follows that the ballots of a comparison can be told beforehand, although they are cast one after
the other (`Work.compare_eq`).
-/

namespace Namesake

/-! ## Entries -/

theorem MatchEntry.SameStanding.symm {ι : Type} [KeyOrder ι] {e e' : MatchEntry ι}
    (same : e.SameStanding e') : e'.SameStanding e :=
  ⟨same.old.symm, same.target.symm, same.ownerHint.symm, same.merged.symm⟩

theorem MatchEntry.votesFor_countVote {ι : Type} [KeyOrder ι] [DecidableEq ι] (e : MatchEntry ι)
    (candidate other : ι) : (e.countVote candidate).votesFor other =
      e.votesFor other + if candidate = other then 1 else 0 := by
  rw [votesFor, SortedMap.getD, countVote_votes, SortedMap.get?_insert]
  split_ifs with same
  · rw [same]
    rfl
  · rfl

/-! ## Partitions -/

namespace Partition

variable {ι : Type} [KeyOrder ι]

/-- The number of votes of an old thing for a new one. -/
def tally (p : Partition ι) (old : Handle ι) (new : ι) : Nat :=
  ((p.get? old).map fun e => e.votesFor new).getD 0

/-- What is known about an old thing; a blank entry if it has none. -/
def entryOf (p : Partition ι) (old : Handle ι) : MatchEntry ι := (p.get? old).getD (.blank old)

theorem tally_eq (p : Partition ι) (old : Handle ι) (new : ι) :
    p.tally old new = (p.entryOf old).votesFor new := by
  rw [tally, entryOf]
  cases p.get? old <;> rfl

/-- Two partitions that differ in their tallies at most. -/
structure SameButTallies (p q : Partition ι) : Prop where
  confirmed : q.confirmed = p.confirmed
  inverse : q.inverse = p.inverse
  /-- No target, hint or mark differs. -/
  standing : ∀ k, (p.entryOf k).SameStanding (q.entryOf k)

namespace SameButTallies

variable {p q r : Partition ι}

theorem refl (p : Partition ι) : p.SameButTallies p := ⟨rfl, rfl, fun _ => .refl _⟩

theorem symm (same : p.SameButTallies q) : q.SameButTallies p :=
  ⟨same.confirmed.symm, same.inverse.symm, fun k => (same.standing k).symm⟩

theorem trans (first : p.SameButTallies q) (second : q.SameButTallies r) : p.SameButTallies r :=
  ⟨second.confirmed.trans first.confirmed, second.inverse.trans first.inverse,
    fun k => (first.standing k).trans (second.standing k)⟩

theorem isConfirmed (same : p.SameButTallies q) (k : Handle ι) :
    q.isConfirmed k = p.isConfirmed k := by
  rw [Partition.isConfirmed, same.confirmed, Partition.isConfirmed]

theorem target? (same : p.SameButTallies q) (k : Handle ι) : q.target? k = p.target? k := by
  rw [Partition.target?, same.confirmed, Partition.target?]

/-- No hint differs. -/
theorem ownerHint (same : p.SameButTallies q) (k : Handle ι) :
    (q.get? k >>= (·.ownerHint)) = (p.get? k >>= (·.ownerHint)) := by
  have hint : ∀ p : Partition ι, (p.get? k >>= (·.ownerHint)) = (p.entryOf k).ownerHint := by
    intro p
    rw [entryOf]
    cases p.get? k <;> rfl
  rw [hint, hint, (same.standing k).ownerHint]

end SameButTallies

/-- Whether a vote adds to a tally. -/
def counts (p : Partition ι) (old : Handle ι) (new : ι) : Bool :=
  !p.isConfirmed old && !p.isClaimed new && (p.entryOf old).target.isNone

/-- All that is known about an old thing that is not confirmed is its pending entry. -/
theorem entryOf_of_not_isConfirmed {p : Partition ι} {k : Handle ι}
    (fresh : p.isConfirmed k = false) :
    p.entryOf k = (p.pending.get? k).getD (.blank k) := by
  rw [entryOf, get?, isConfirmed_eq_false_iff.mp fresh, Option.none_or]

variable [DecidableEq ι]

/-- A vote is accepted if it agrees with what is confirmed, or counts. -/
theorem accepts_eq (p : Partition ι) (old : Handle ι) (new : ι) :
    p.accepts old new =
      if p.isConfirmed old then decide (p.target? old = some new) else p.counts old new := by
  rw [accepts, counts, target?]
  cases confirmed : p.isConfirmed old with
  | true =>
      obtain ⟨e, found⟩ := SortedMap.contains_iff.mp confirmed
      simp [found]
  | false =>
      rw [entryOf_of_not_isConfirmed confirmed, isConfirmed_eq_false_iff.mp confirmed]
      cases p.pending.get? old <;> simp [MatchEntry.blank]

theorem accepts_of_counts {p : Partition ι} {old : Handle ι} {new : ι}
    (counted : p.counts old new = true) : p.accepts old new = true := by
  have fresh : p.isConfirmed old = false := by
    rw [counts, Bool.and_assoc, Bool.and_eq_true, Bool.not_eq_true'] at counted
    exact counted.1
  rw [accepts_eq, fresh]
  exact counted

/-- A vote that counts goes to its own entry; nothing else is known after a vote than before. -/
theorem entryOf_vote (p : Partition ι) (old k : Handle ι) (new : ι) :
    (p.vote old new).entryOf k =
      if old = k ∧ p.counts old new then (p.entryOf k).countVote new else p.entryOf k := by
  by_cases fresh : p.isConfirmed k = false
  · have still : (p.vote old new).isConfirmed k = false := by
      rw [isConfirmed, confirmed_vote]
      exact fresh
    rw [entryOf_of_not_isConfirmed still, entryOf_of_not_isConfirmed fresh, get?_pending_vote]
    by_cases here : old = k
    · subst here
      rw [counts, entryOf_of_not_isConfirmed fresh, fresh]
      cases p.isClaimed new with
      | true => simp
      | false =>
          cases target : ((p.pending.get? old).getD (.blank old)).target <;>
            simp [MatchEntry.addVote?, target]
    · simp [here]
  · -- the entry of a confirmed thing is out of reach of votes
    rw [Bool.not_eq_false] at fresh
    obtain ⟨e, found⟩ := SortedMap.contains_iff.mp fresh
    have unmoved : ¬ (old = k ∧ p.counts old new = true) := by
      rintro ⟨rfl, counted⟩
      simp [counts, fresh] at counted
    rw [if_neg unmoved]
    simp [entryOf, get?, found]

/-- A vote changes tallies at most. -/
theorem vote_sameButTallies (p : Partition ι) (old : Handle ι) (new : ι) :
    p.SameButTallies (p.vote old new) where
  confirmed := confirmed_vote p old new
  inverse := inverse_vote p old new
  standing k := by
    rw [entryOf_vote]
    split_ifs
    · exact MatchEntry.countVote_standing _ new
    · exact .refl _

/-- A vote that counts adds one to its tally and nothing to any other. -/
theorem tally_vote (p : Partition ι) (old k : Handle ι) (new t : ι) :
    (p.vote old new).tally k t =
      p.tally k t + if p.counts old new ∧ old = k ∧ new = t then 1 else 0 := by
  rw [tally_eq, entryOf_vote, tally_eq]
  by_cases here : old = k
  · cases counted : p.counts old new with
    | true => simp [here, MatchEntry.votesFor_countVote]
    | false => simp
  · simp [here]

omit [DecidableEq ι] in
theorem SameButTallies.counts {p q : Partition ι} (same : p.SameButTallies q) (old : Handle ι)
    (new : ι) : q.counts old new = p.counts old new := by
  rw [Partition.counts, same.isConfirmed, isClaimed, same.inverse, (same.standing old).target,
    Partition.counts, isClaimed]

theorem SameButTallies.accepts {p q : Partition ι} (same : p.SameButTallies q) (old : Handle ι)
    (new : ι) : q.accepts old new = p.accepts old new := by
  rw [accepts_eq, same.isConfirmed, same.target?, same.counts, accepts_eq]

end Partition

/-! ## Ledgers -/

/-- Whether a ballot adds to a tally. -/
def Ballot.counts (c : Context) (l : Ledger) (b : Ballot) : Bool :=
  b.isAdmissible c l &&
    match b with
    | type old new => l.types.counts (.real old) new
    | method old new => l.methods.counts (.real old) new
    | field old new => l.fields.counts (.real old) new

/-- A ballot that counts is admissible, and accepted. -/
theorem Ballot.accepted_of_counts {c : Context} {l : Ledger} {b : Ballot}
    (counts : b.counts c l = true) : b.isAdmissible c l = true ∧ b.accepted c l = true := by
  obtain ⟨admissible, counted⟩ := Bool.and_eq_true_iff.mp counts
  refine ⟨admissible, ?_⟩
  unfold Ballot.accepted
  rw [admissible, Bool.true_and]
  cases b with
  | type old new => exact Partition.accepts_of_counts counted
  | method old new => exact Partition.accepts_of_counts counted
  | field old new => exact Partition.accepts_of_counts counted

namespace Ledger

/-- The number of votes that say the same as a ballot. -/
def tallyOf (l : Ledger) : Ballot → Nat
  | .type old new => l.types.tally (.real old) new
  | .method old new => l.methods.tally (.real old) new
  | .field old new => l.fields.tally (.real old) new

/-- Two ledgers that differ in their tallies at most. -/
structure SameButTallies (l m : Ledger) : Prop where
  types : l.types.SameButTallies m.types
  methods : l.methods.SameButTallies m.methods
  fields : l.fields.SameButTallies m.fields

/-- What ballots that count do to a ledger: each adds one to its tally, and nothing else changes. -/
structure Gains (votes : List Ballot) (l m : Ledger) : Prop where
  same : l.SameButTallies m
  tally : ∀ b, m.tallyOf b = l.tallyOf b + votes.count b
  /-- Placeholders are not voted for. -/
  types : ∀ s n, m.types.tally (.synthetic s) n = l.types.tally (.synthetic s) n
  methods : ∀ s n, m.methods.tally (.synthetic s) n = l.methods.tally (.synthetic s) n
  fields : ∀ s n, m.fields.tally (.synthetic s) n = l.fields.tally (.synthetic s) n

namespace SameButTallies

variable {l m r : Ledger}

theorem refl (l : Ledger) : l.SameButTallies l := ⟨.refl _, .refl _, .refl _⟩

theorem trans (first : l.SameButTallies m) (second : m.SameButTallies r) : l.SameButTallies r :=
  ⟨first.types.trans second.types, first.methods.trans second.methods,
    first.fields.trans second.fields⟩

variable (same : l.SameButTallies m) (c : Context) (b : Ballot)

include same

theorem isAdmissible : b.isAdmissible c m = b.isAdmissible c l := by
  cases b with
  | type old new => rfl
  | method old new =>
      simp only [Ballot.isAdmissible, Ballot.requiredOwner?, same.methods.ownerHint,
        same.types.target?]
  | field old new =>
      simp only [Ballot.isAdmissible, Ballot.requiredOwner?, same.fields.ownerHint,
        same.types.target?]

/-- No tally decides whether a ballot is accepted. -/
theorem accepted : b.accepted c m = b.accepted c l := by
  unfold Ballot.accepted
  rw [same.isAdmissible c b]
  cases b with
  | type old new => simp only [same.types.accepts]
  | method old new => simp only [same.methods.accepts]
  | field old new => simp only [same.fields.accepts]

/-- No tally decides whether a ballot counts. -/
theorem counts : b.counts c m = b.counts c l := by
  unfold Ballot.counts
  rw [same.isAdmissible c b]
  cases b with
  | type old new => simp only [same.types.counts]
  | method old new => simp only [same.methods.counts]
  | field old new => simp only [same.fields.counts]

end SameButTallies

end Ledger

namespace Ballot

variable (c : Context) (l : Ledger) (b : Ballot)

/-- Casting a ballot changes tallies at most. -/
theorem cast_sameButTallies : l.SameButTallies (b.cast c l) := by
  unfold cast
  split_ifs
  · cases b with
    | type old new => exact ⟨l.types.vote_sameButTallies _ new, .refl _, .refl _⟩
    | method old new => exact ⟨.refl _, l.methods.vote_sameButTallies _ new, .refl _⟩
    | field old new => exact ⟨.refl _, .refl _, l.fields.vote_sameButTallies _ new⟩
  · exact .refl l

/-- A ballot adds one to its tally if it counts, and nothing to any other. -/
theorem tallyOf_cast (b' : Ballot) : (b.cast c l).tallyOf b' =
    l.tallyOf b' + if b.counts c l ∧ b = b' then 1 else 0 := by
  unfold cast counts
  cases b.isAdmissible c l with
  | false => simp
  | true => cases b <;> cases b' <;> simp [Ledger.tallyOf, Partition.tally_vote]

/-- **Casting a ballot gives its vote if it counts**, and changes nothing else. -/
theorem cast_gains : l.Gains (if b.counts c l then [b] else []) (b.cast c l) := by
  refine ⟨cast_sameButTallies c l b, ?_, ?_, ?_, ?_⟩
  · intro b'
    rw [tallyOf_cast]
    cases b.counts c l <;> simp [List.count_singleton]
  all_goals
    intro s n
    unfold cast
    split_ifs
    · cases b <;> simp [Partition.tally_vote]
    · rfl

end Ballot

/-! ## Casting ballots one after the other -/

namespace Ledger

/-- The ledger after casting ballots one after the other. -/
def castAll (c : Context) (l : Ledger) (ballots : List Ballot) : Ledger :=
  ballots.foldl (fun l b => b.cast c l) l

theorem Gains.refl (l : Ledger) : l.Gains [] l :=
  ⟨.refl l, fun _ => rfl, fun _ _ => rfl, fun _ _ => rfl, fun _ _ => rfl⟩

theorem Gains.append {l m r : Ledger} {votes votes' : List Ballot} (first : l.Gains votes m)
    (second : m.Gains votes' r) : l.Gains (votes ++ votes') r where
  same := first.same.trans second.same
  tally b := by rw [second.tally, first.tally, List.count_append, Nat.add_assoc]
  types s n := (second.types s n).trans (first.types s n)
  methods s n := (second.methods s n).trans (first.methods s n)
  fields s n := (second.fields s n).trans (first.fields s n)

/-- **Casting ballots gives the votes that count.** Which of them do can be told beforehand. -/
theorem castAll_gains (c : Context) (l : Ledger) (ballots : List Ballot) :
    l.Gains (ballots.filter fun b => b.counts c l) (l.castAll c ballots) := by
  induction ballots generalizing l with
  | nil => exact .refl l
  | cons b rest ih =>
      have first := b.cast_gains c l
      have later := ih (b.cast c l)
      simp only [(b.cast_sameButTallies c l).counts] at later
      have both : l.Gains _ (l.castAll c (b :: rest)) := first.append later
      rw [List.filter_cons]
      cases counted : b.counts c l <;> simpa [counted] using both

end Ledger

/-- What a comparison answers, and what it leaves behind. -/
theorem Work.compare_eq (c : Context) (checks : Comparison) (s : State) :
    Work.compare c checks s =
      .ok (checks.verdict (Ballot.accepted c s.ledger)).agrees
        { s with ledger := s.ledger.castAll c (triedBallots c s.ledger checks) } := by
  induction checks generalizing s with
  | nil => rfl
  | cons check rest ih =>
      cases check with
      | differ => rfl
      | ballot b =>
          let next : State := { s with ledger := b.cast c s.ledger }
          have voted : Work.vote c b s = .ok (b.accepted c s.ledger) next := rfl
          -- the later ballots are judged by another ledger, but none of them differently
          have alike : Ballot.accepted c next.ledger = Ballot.accepted c s.ledger :=
            funext fun b' => (b.cast_sameButTallies c s.ledger).accepted c b'
          have later := ih next
          unfold Work.compare
          rw [bind_of_ok voted, triedBallots, Comparison.verdict]
          cases b.accepted c s.ledger with
          | false => rfl
          | true =>
              rw [triedBallots, alike] at later
              exact later

end Namesake
