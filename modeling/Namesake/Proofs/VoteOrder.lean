import Namesake.Proofs.Figures

/-! # The order of votes

Which votes count depends on what is confirmed, claimed or fixed, and no vote changes any of that.
So a row of votes adds to each tally the number of its votes that count, in whatever order they are
cast (`Partition.tally_afterVotes`), and the figures follow the tallies. Only the best candidate of
a draw depends on who got there first (`Partition.Reachable.afterVotes_perm`).
-/

namespace Namesake

/-! ## Entries with equal tallies -/

/-- Two entries with the same tally and the same figures. Who leads them may differ if there is a
draw. -/
structure MatchEntry.SameTally {ι : Type} [KeyOrder ι] (e e' : MatchEntry ι) : Prop
    extends MatchEntry.SameStanding e e' where
  votes : e'.votes = e.votes
  highestVotes : e'.highestVotes = e.highestVotes
  secondVotes : e'.secondVotes = e.secondVotes
  highest : 0 < e.margin → e'.highest = e.highest

/-- Entries with the same tally have the same margin. -/
theorem map_margin_of_sameTally {ι : Type} [KeyOrder ι] {e e' : Option (MatchEntry ι)}
    (same : Option.Rel MatchEntry.SameTally e e') :
    e'.map MatchEntry.margin = e.map MatchEntry.margin := by
  cases same with
  | none => rfl
  | some tally =>
      rw [Option.map_some, Option.map_some, MatchEntry.margin, MatchEntry.margin,
        tally.highestVotes, tally.secondVotes]

namespace MatchEntry.Exact

variable {ι : Type} [KeyOrder ι] {e e' : MatchEntry ι}

theorem get?_votes_eq_some_iff (exact_ : e.Exact) {c : ι} {n : Nat} :
    e.votes.get? c = some n ↔ 0 < n ∧ e.votesFor c = n := by
  constructor
  · intro found
    exact ⟨exact_.positive found, votesFor_of_get? found⟩
  · rintro ⟨positive, votes⟩
    cases found : e.votes.get? c with
    | none =>
        rw [votesFor, SortedMap.getD, found] at votes
        exact absurd positive (votes ▸ Nat.lt_irrefl 0)
    | some m => rw [← votes, votesFor_of_get? found]

/-- The tally of an exact entry is known from its numbers. -/
theorem votes_eq (exact_ : e.Exact) (exact' : e'.Exact) (same : ∀ c, e'.votesFor c = e.votesFor c) :
    e'.votes = e.votes := by
  apply SortedMap.ext_get?
  intro c
  apply Option.ext
  intro n
  rw [exact'.get?_votes_eq_some_iff, exact_.get?_votes_eq_some_iff, same]

/-- Exact entries with the same tally have the same numbers of votes at hand. -/
theorem figures_eq (exact_ : e.Exact) (exact' : e'.Exact) (same : e'.votes = e.votes) :
    e'.highestVotes = e.highestVotes ∧ e'.secondVotes = e.secondVotes := by
  have counts : e'.fallingCounts = e.fallingCounts := by rw [fallingCounts, same, fallingCounts]
  rw [← exact_.figures.1, ← exact_.figures.2, ← counts]
  exact ⟨exact'.figures.1.symm, exact'.figures.2.symm⟩

/-- A candidate that leads by a margin leads every exact entry with the same tally. -/
theorem highest_eq (exact_ : e.Exact) (exact' : e'.Exact) (same : e'.votes = e.votes)
    (decided : 0 < e.margin) : e'.highest = e.highest := by
  obtain ⟨most, -⟩ := exact_.figures_eq exact' same
  cases highest : e.highest with
  | none =>
      rw [exact'.highest_eq_none_iff, same]
      exact exact_.highest_eq_none_iff.mp highest
  | some leader =>
      cases highest' : e'.highest with
      | none =>
          rw [exact'.highest_eq_none_iff, same, ← exact_.highest_eq_none_iff, highest] at highest'
          cases highest'
      | some leader' =>
          have votes : e.votesFor leader' = e.highestVotes := by
            have found := exact'.get?_highest highest'
            rw [same, most] at found
            exact votesFor_of_get? found
          by_cases same : leader' = leader
          · rw [same]
          · -- anyone else has at most as many votes as the runner-up
            have below := (exact_.sums.leads highest).bounded leader' same
            rw [margin] at decided
            omega

/-- Exact entries of equal standing with the same numbers of votes have the same figures. -/
theorem sameTally (exact_ : e.Exact) (exact' : e'.Exact) (standing : e.SameStanding e')
    (same : ∀ c, e'.votesFor c = e.votesFor c) : e.SameTally e' := by
  have votes := exact_.votes_eq exact' same
  obtain ⟨most, second⟩ := exact_.figures_eq exact' votes
  exact ⟨standing, votes, most, second, exact_.highest_eq exact' votes⟩

end MatchEntry.Exact

namespace Partition

variable {ι : Type} [KeyOrder ι]

/-! ## The ranking -/

/-- The pending things with their margins. -/
def margins (p : Partition ι) : SortedMap (Handle ι) Nat := p.pending.mapValues fun _ e => e.margin

/-- The ranking looks at the margins only. -/
theorem rankedPending_eq_margins (p : Partition ι) :
    p.rankedPending = (p.margins.toList.mergeSort fun a b => b.2 ≤ a.2).map Prod.fst := by
  have rows : p.margins.toList = p.pending.toList.map fun x => (x.1, x.2.margin) := rfl
  have sorted : (p.pending.toList.mergeSort fun a b => b.2.margin ≤ a.2.margin).map
      (fun x => (x.1, x.2.margin)) = p.margins.toList.mergeSort fun a b => b.2 ≤ a.2 := by
    rw [rows]
    exact List.map_mergeSort fun a _ b _ => rfl
  rw [← sorted, List.map_map]
  rfl

/-! ## Votes cast one after the other -/

variable [DecidableEq ι]

/-- The partition after votes, cast one after the other. -/
def afterVotes (p : Partition ι) (votes : List (Handle ι × ι)) : Partition ι :=
  votes.foldl (fun p v => p.vote v.1 v.2) p

theorem Reachable.afterVotes {p : Partition ι} (reachable : p.Reachable)
    (votes : List (Handle ι × ι)) : (p.afterVotes votes).Reachable := by
  induction votes generalizing p with
  | nil => exact reachable
  | cons v rest ih => exact ih (reachable.performed (.vote v.1 v.2))

/-- Votes change tallies at most. -/
theorem afterVotes_sameButTallies (p : Partition ι) (votes : List (Handle ι × ι)) :
    p.SameButTallies (p.afterVotes votes) := by
  induction votes generalizing p with
  | nil => exact .refl p
  | cons v rest ih => exact (p.vote_sameButTallies v.1 v.2).trans (ih (p.vote v.1 v.2))

/-- Each tally grows by the number of votes for it, if they count at all. -/
theorem tally_afterVotes (p : Partition ι) (votes : List (Handle ι × ι)) (k : Handle ι) (c : ι) :
    (p.afterVotes votes).tally k c =
      p.tally k c + if p.counts k c then votes.count (k, c) else 0 := by
  induction votes generalizing p with
  | nil => simp [afterVotes]
  | cons v rest ih =>
      have later := ih (p.vote v.1 v.2)
      rw [(p.vote_sameButTallies v.1 v.2).counts, tally_vote] at later
      have rows : p.afterVotes (v :: rest) = (p.vote v.1 v.2).afterVotes rest := rfl
      rw [rows, later, List.count_cons]
      by_cases same : v = (k, c)
      · subst same
        cases p.counts k c <;> simp [Nat.add_assoc, Nat.add_comm 1]
      · have other : ¬ (p.counts v.1 v.2 = true ∧ v.1 = k ∧ v.2 = c) := by
          rintro ⟨-, old, new⟩
          exact same (Prod.ext old new)
        simp [same, other]

/-- Whoever is voted for without being confirmed is pending, whether the vote counts or not. -/
theorem contains_pending_afterVotes (p : Partition ι) (votes : List (Handle ι × ι))
    (k : Handle ι) :
    (p.afterVotes votes).pending.contains k =
      (p.pending.contains k || (!p.isConfirmed k && votes.any fun v => v.1 = k)) := by
  induction votes generalizing p with
  | nil => simp [afterVotes]
  | cons v rest ih =>
      have rows : p.afterVotes (v :: rest) = (p.vote v.1 v.2).afterVotes rest := rfl
      have entered : (p.vote v.1 v.2).pending.contains k =
          (p.pending.contains k || (!p.isConfirmed k && decide (v.1 = k))) := by
        rw [SortedMap.contains, get?_pending_vote]
        by_cases here : v.1 = k
        · subst here
          cases fresh : p.isConfirmed v.1 <;> simp [SortedMap.contains]
        · simp [here, SortedMap.contains]
      rw [rows, ih, entered, (p.vote_sameButTallies v.1 v.2).isConfirmed, List.any_cons]
      cases p.isConfirmed k <;> simp [Bool.or_assoc]

omit [DecidableEq ι] in
/-- A tally is that of the pending entry, if there is one. -/
theorem Sound.tally_of_pending {p : Partition ι} (sound : p.Sound) {k : Handle ι}
    {e : MatchEntry ι} (found : p.pending.get? k = some e) (c : ι) :
    p.tally k c = e.votesFor c := by
  rw [tally_eq, entryOf_of_not_isConfirmed (sound.not_isConfirmed_of_pending found), found,
    Option.getD_some]

omit [DecidableEq ι] in
/-- Partitions that differ in their tallies at most have entries of equal standing. -/
theorem SameButTallies.standing_of_pending {p q : Partition ι} (same : p.SameButTallies q)
    (sound : p.Sound) {k : Handle ι} {e e' : MatchEntry ι} (found : p.pending.get? k = some e)
    (found' : q.pending.get? k = some e') : e.SameStanding e' := by
  have fresh := sound.not_isConfirmed_of_pending found
  have standing := same.standing k
  rwa [entryOf_of_not_isConfirmed fresh, found,
    entryOf_of_not_isConfirmed ((same.isConfirmed k).trans fresh), found'] at standing

/-! ## Votes in another order -/

section

variable {p : Partition ι} (reachable : p.Reachable) {votes votes' : List (Handle ι × ι)}
  (perm : votes.Perm votes')

include perm

/-- Votes in another order make the same things pending. -/
theorem contains_pending_afterVotes_perm (k : Handle ι) :
    (p.afterVotes votes').pending.contains k = (p.afterVotes votes).pending.contains k := by
  rw [contains_pending_afterVotes, contains_pending_afterVotes, perm.any_eq]

include reachable

/-- Votes in another order leave the same tallies and figures. -/
theorem Reachable.sameTally_afterVotes (k : Handle ι) :
    Option.Rel MatchEntry.SameTally ((p.afterVotes votes).pending.get? k)
      ((p.afterVotes votes').pending.get? k) := by
  have pending := contains_pending_afterVotes_perm (p := p) perm k
  have first := reachable.afterVotes votes
  have second := reachable.afterVotes votes'
  cases found : (p.afterVotes votes).pending.get? k with
  | none =>
      rw [SortedMap.contains_eq_false_iff.mpr found, SortedMap.contains_eq_false_iff] at pending
      rw [pending]
      exact .none
  | some e =>
      rw [SortedMap.contains_of_get? found, SortedMap.contains_iff] at pending
      obtain ⟨e', found'⟩ := pending
      rw [found']
      have exact_ := MatchEntry.lasting_exact.of_reachable first k e found
      have exact' := MatchEntry.lasting_exact.of_reachable second k e' found'
      have same := (p.afterVotes_sameButTallies votes).symm.trans
        (p.afterVotes_sameButTallies votes')
      refine .some (exact_.sameTally exact' (same.standing_of_pending first.sound found found') ?_)
      intro c
      rw [← second.sound.tally_of_pending found', ← first.sound.tally_of_pending found,
        tally_afterVotes, tally_afterVotes, perm.count_eq]

/-- **The order of votes does not matter.** Cast in any order, votes leave the same entries with the
same tallies, figures and standing, and the same best candidate where it leads by a margin; they
leave the same confirmed entries, the same claims and the same ranking; and each of them is accepted
in one order exactly if it is in the other. -/
theorem Reachable.afterVotes_perm :
    (∀ k, Option.Rel MatchEntry.SameTally ((p.afterVotes votes).pending.get? k)
      ((p.afterVotes votes').pending.get? k)) ∧
    (p.afterVotes votes').confirmed = (p.afterVotes votes).confirmed ∧
    (p.afterVotes votes').inverse = (p.afterVotes votes).inverse ∧
    (p.afterVotes votes').rankedPending = (p.afterVotes votes).rankedPending ∧
    ∀ v before after before' after', votes = before ++ v :: after →
      votes' = before' ++ v :: after' →
      (p.afterVotes before').accepts v.1 v.2 = (p.afterVotes before).accepts v.1 v.2 := by
  have same := (p.afterVotes_sameButTallies votes).symm.trans (p.afterVotes_sameButTallies votes')
  refine ⟨reachable.sameTally_afterVotes perm, same.confirmed, same.inverse, ?_, ?_⟩
  · have margins : (p.afterVotes votes').margins = (p.afterVotes votes).margins := by
      apply SortedMap.ext_get?
      intro k
      rw [margins, margins, SortedMap.get?_mapValues, SortedMap.get?_mapValues]
      exact map_margin_of_sameTally (reachable.sameTally_afterVotes perm k)
    rw [rankedPending_eq_margins, rankedPending_eq_margins, margins]
  · intro v before _ before' _ _ _
    rw [(p.afterVotes_sameButTallies before').accepts, (p.afterVotes_sameButTallies before).accepts]

end

/-- The first thing votes for two candidates alike, the second prefers one, the third is confirmed,
and its counterpart is out of reach for the first. -/
def drawn : List (Handle TypeId × TypeId) :=
  [(.real ⟨1⟩, ⟨10⟩), (.real ⟨1⟩, ⟨11⟩), (.real ⟨2⟩, ⟨12⟩), (.real ⟨2⟩, ⟨10⟩), (.real ⟨2⟩, ⟨12⟩),
    (.real ⟨3⟩, ⟨20⟩), (.real ⟨1⟩, ⟨20⟩)]

/-- Backwards, the same votes leave the same ranking, although another candidate leads the draw. -/
theorem afterVotes_perm_of_drawn :
    let p := afterAll [.tryMatch (.real ⟨3⟩) ⟨20⟩]
    p.Reachable ∧ drawn.Perm drawn.reverse ∧
      (p.afterVotes drawn.reverse).rankedPending = (p.afterVotes drawn).rankedPending ∧
      (p.afterVotes drawn.reverse).candidate? (.real ⟨1⟩) = some ⟨11⟩ ∧
      (p.afterVotes drawn).candidate? (.real ⟨1⟩) = some ⟨10⟩ ∧
      (p.afterVotes drawn.reverse).candidate? (.real ⟨2⟩) =
        (p.afterVotes drawn).candidate? (.real ⟨2⟩) := by
  intro p
  have reachable : p.Reachable := reachable_afterAll _
  have perm : drawn.Perm drawn.reverse := drawn.reverse_perm.symm
  obtain ⟨-, -, -, ranking, -⟩ := Reachable.afterVotes_perm reachable perm
  exact ⟨reachable, perm, ranking, by decide, by decide, by decide⟩

end Partition

end Namesake
