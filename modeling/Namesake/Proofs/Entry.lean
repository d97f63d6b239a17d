import Namesake.Ledger.Entry
import Namesake.Proofs.SortedMap

/-! # What evidence does to an entry

Counting a vote and taking votes back change the tally and the figures kept about it, never the old
thing, its target, its hint or the mark of a compared pair (`MatchEntry.SameStanding`). The best
candidate is always one with votes (`MatchEntry.LeaderListed`), so whoever picks it picks something
that was voted for.
-/

namespace Namesake.MatchEntry

variable {ι : Type} [KeyOrder ι]

/-- Two entries that differ in their evidence only. -/
structure SameStanding (e e' : MatchEntry ι) : Prop where
  old : e'.old = e.old
  target : e'.target = e.target
  ownerHint : e'.ownerHint = e.ownerHint
  merged : e'.merged = e.merged

theorem SameStanding.refl (e : MatchEntry ι) : e.SameStanding e := ⟨rfl, rfl, rfl, rfl⟩

theorem SameStanding.trans {e e' e'' : MatchEntry ι} (first : e.SameStanding e')
    (second : e'.SameStanding e'') : e.SameStanding e'' :=
  ⟨second.old.trans first.old, second.target.trans first.target,
    second.ownerHint.trans first.ownerHint, second.merged.trans first.merged⟩

/-- The best candidate has votes. -/
def LeaderListed (e : MatchEntry ι) : Prop :=
  ∀ candidate, e.highest = some candidate → e.votes.contains candidate = true

/-- No votes, and no figures about votes. -/
structure Bare (e : MatchEntry ι) : Prop where
  votes : e.votes = ∅
  highest : e.highest = none
  highestVotes : e.highestVotes = 0
  secondVotes : e.secondVotes = 0

theorem withoutVotes_bare (e : MatchEntry ι) : e.withoutVotes.Bare := ⟨rfl, rfl, rfl, rfl⟩

theorem blank_leader (old : Handle ι) : (blank old).LeaderListed := by
  intro candidate leads
  cases leads

/-! ## Counting a vote -/

section

variable [DecidableEq ι]

theorem countVote_standing (e : MatchEntry ι) (candidate : ι) :
    e.SameStanding (e.countVote candidate) := by
  unfold countVote
  dsimp only
  split_ifs <;> exact ⟨rfl, rfl, rfl, rfl⟩

theorem countVote_votes (e : MatchEntry ι) (candidate : ι) :
    (e.countVote candidate).votes = e.votes.insert candidate (e.votesFor candidate + 1) := by
  unfold countVote
  dsimp only
  split_ifs <;> rfl

theorem contains_countVote (e : MatchEntry ι) (candidate other : ι) :
    (e.countVote candidate).votes.contains other =
      (decide (candidate = other) || e.votes.contains other) := by
  rw [countVote_votes, SortedMap.contains_insert]

/-- A vote leaves the best candidate in place or puts its own there. -/
theorem highest_countVote (e : MatchEntry ι) (candidate : ι) :
    (e.countVote candidate).highest = some candidate ∨
      (e.countVote candidate).highest = e.highest := by
  unfold countVote
  dsimp only
  split_ifs
  · exact .inr rfl
  · exact .inl rfl
  · exact .inr rfl
  · exact .inr rfl

theorem LeaderListed.countVote {e : MatchEntry ι} (listed : e.LeaderListed) (candidate : ι) :
    (e.countVote candidate).LeaderListed := by
  intro leader leads
  rw [contains_countVote, Bool.or_eq_true, decide_eq_true_eq]
  rcases e.highest_countVote candidate with voted | kept
  · rw [voted] at leads
    exact .inl (Option.some.inj leads)
  · rw [kept] at leads
    exact .inr (listed leader leads)

end

/-! ## Counting anew -/

theorem consider_standing (e : MatchEntry ι) (candidate : ι) (count : Nat) :
    e.SameStanding (e.consider candidate count) ∧ (e.consider candidate count).votes = e.votes := by
  unfold consider
  split_ifs <;> exact ⟨⟨rfl, rfl, rfl, rfl⟩, rfl⟩

theorem highest_consider (e : MatchEntry ι) (candidate : ι) (count : Nat) :
    (e.consider candidate count).highest = some candidate ∨
      (e.consider candidate count).highest = e.highest := by
  unfold consider
  split_ifs
  · exact .inl rfl
  · exact .inr rfl
  · exact .inr rfl

/-- Going through candidates changes neither standing nor tally, and the best one after it was the
best one before or is among them. -/
private theorem foldl_consider (candidates : List (ι × Nat)) (e : MatchEntry ι) :
    let counted := candidates.foldl (fun e (candidate, count) => e.consider candidate count) e
    e.SameStanding counted ∧ counted.votes = e.votes ∧
      ∀ leader, counted.highest = some leader →
        e.highest = some leader ∨ leader ∈ candidates.map Prod.fst := by
  induction candidates generalizing e with
  | nil => exact ⟨.refl e, rfl, fun leader leads => .inl leads⟩
  | cons first rest ih =>
      obtain ⟨candidate, count⟩ := first
      obtain ⟨standing, votes, leads⟩ := ih (e.consider candidate count)
      obtain ⟨standing₁, votes₁⟩ := e.consider_standing candidate count
      refine ⟨standing₁.trans standing, votes.trans votes₁, ?_⟩
      intro leader leading
      rw [List.map_cons, List.mem_cons]
      rcases leads leader leading with before | later
      · rcases e.highest_consider candidate count with chosen | kept
        · rw [chosen] at before
          exact .inr (.inl (Option.some.inj before).symm)
        · exact .inl (kept ▸ before)
      · exact .inr (.inr later)

theorem recount_standing (e : MatchEntry ι) : e.SameStanding e.recount := by
  obtain ⟨standing, -, -⟩ := foldl_consider e.votes.toList
    { e with highest := none, highestVotes := 0, secondVotes := 0 }
  exact ⟨standing.old, standing.target, standing.ownerHint, standing.merged⟩

theorem recount_votes (e : MatchEntry ι) : e.recount.votes = e.votes :=
  (foldl_consider e.votes.toList
    { e with highest := none, highestVotes := 0, secondVotes := 0 }).2.1

theorem recount_leader (e : MatchEntry ι) : e.recount.LeaderListed := by
  intro leader leads
  rw [recount_votes, ← SortedMap.mem_keys]
  rcases (foldl_consider e.votes.toList
    { e with highest := none, highestVotes := 0, secondVotes := 0 }).2.2 leader leads with
    before | listed
  · cases before
  · exact listed

/-! ## Taking votes back -/

/-- A tally that loses nothing to a test is the tally itself. -/
private theorem filter_eq_self_of_size {votes : SortedMap ι Nat} {keep : ι → Bool}
    (same : (votes.filter fun candidate _ => keep candidate).size = votes.size) :
    (votes.filter fun candidate _ => keep candidate) = votes := by
  apply SortedMap.ext
  exact List.filter_eq_self.mpr (List.length_filter_eq_length_iff.mp same)

theorem retainVotes_standing (e : MatchEntry ι) (keep : ι → Bool) :
    e.SameStanding (e.retainVotes keep) := by
  unfold retainVotes
  dsimp only
  split_ifs
  · exact .refl e
  · obtain ⟨old, target, ownerHint, merged⟩ :=
      recount_standing { e with votes := e.votes.filter fun candidate _ => keep candidate }
    exact ⟨old, target, ownerHint, merged⟩

theorem retainVotes_votes (e : MatchEntry ι) (keep : ι → Bool) :
    (e.retainVotes keep).votes = e.votes.filter fun candidate _ => keep candidate := by
  unfold retainVotes
  dsimp only
  split_ifs with same
  · exact (filter_eq_self_of_size same).symm
  · exact recount_votes _

theorem contains_retainVotes (e : MatchEntry ι) (keep : ι → Bool) (candidate : ι) :
    (e.retainVotes keep).votes.contains candidate =
      (e.votes.contains candidate && keep candidate) := by
  rw [retainVotes_votes, SortedMap.contains_filter_key]

/-- Which votes are kept only depends on the candidates that have some. -/
theorem retainVotes_congr {e : MatchEntry ι} {keep keep' : ι → Bool}
    (same : ∀ n, e.votes.contains n = true → keep n = keep' n) :
    e.retainVotes keep = e.retainVotes keep' := by
  have kept : (e.votes.filter fun candidate _ => keep candidate) =
      e.votes.filter fun candidate _ => keep' candidate :=
    SortedMap.ext (List.filter_congr fun entry listed =>
      same entry.1 (SortedMap.contains_of_get? (SortedMap.mem_toList.mp listed)))
  rw [MatchEntry.retainVotes, MatchEntry.retainVotes, kept]

theorem LeaderListed.retainVotes {e : MatchEntry ι} (listed : e.LeaderListed) (keep : ι → Bool) :
    (e.retainVotes keep).LeaderListed := by
  unfold MatchEntry.retainVotes
  dsimp only
  split_ifs
  · exact listed
  · exact recount_leader _

end Namesake.MatchEntry
