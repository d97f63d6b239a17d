import Namesake.Proofs.Refusals

/-! # Candidates that are taken

When votes for candidates are taken back one after the other, the figures of an entry are found anew
each time. What comes out can be read off the tally before (`MatchEntry.Exact.chooses`): the best
candidate is one with the most votes of those that are left, and if several have as many, it is the
first of them, unless nothing was taken back at all. If there is none, everything with votes is
taken (`MatchEntry.Exact.all_taken`).
-/

namespace Namesake

namespace MatchEntry

variable {ι : Type} [KeyOrder ι]

/-! ## Who leads a draw -/

/-- Going through candidates leaves the best one in place if none has more votes. Otherwise the new
best one has more votes than any before it in the row. -/
theorem leader_of_foldl_consider (candidates : List (ι × Nat)) (e : MatchEntry ι) :
    let counted := candidates.foldl (fun e x => e.consider x.1 x.2) e
    (counted.highest = e.highest ∧ counted.highestVotes = e.highestVotes) ∨
    ∃ earlier later leader, candidates = earlier ++ (leader, counted.highestVotes) :: later ∧
      counted.highest = some leader ∧ e.highestVotes < counted.highestVotes ∧
      ∀ x ∈ earlier, x.2 < counted.highestVotes := by
  induction candidates generalizing e with
  | nil => exact .inl ⟨rfl, rfl⟩
  | cons first rest ih =>
      obtain ⟨c, n⟩ := first
      have kept := ih (e.consider c n)
      rw [List.foldl_cons]
      generalize (rest.foldl (fun e x => e.consider x.1 x.2) (e.consider c n)) = counted at kept ⊢
      by_cases overtakes : e.highestVotes < n
      · have raised : e.consider c n =
            { e with highest := some c, highestVotes := n, secondVotes := e.highestVotes } :=
          if_pos overtakes
        rw [raised] at kept
        obtain ⟨leads, votes⟩ | ⟨earlier, later, leader, split, leads, more, below⟩ := kept
        · exact .inr ⟨[], rest, c, by rw [votes]; rfl, leads, votes ▸ overtakes, nofun⟩
        · refine .inr ⟨(c, n) :: earlier, later, leader, by rw [split]; rfl, leads,
            Nat.lt_trans overtakes more, ?_⟩
          exact List.forall_mem_cons.mpr ⟨more, below⟩
      · have figures : (e.consider c n).highest = e.highest ∧
            (e.consider c n).highestVotes = e.highestVotes := by
          unfold MatchEntry.consider
          rw [if_neg overtakes]
          split_ifs <;> exact ⟨rfl, rfl⟩
        rw [figures.1, figures.2] at kept
        refine kept.imp_right ?_
        rintro ⟨earlier, later, leader, split, leads, more, below⟩
        refine ⟨(c, n) :: earlier, later, leader, by rw [split]; rfl, leads, more, ?_⟩
        exact List.forall_mem_cons.mpr ⟨by omega, below⟩

/-- Of the candidates with the most votes the best one is the first. -/
def LeaderFirst (e : MatchEntry ι) : Prop :=
  ∀ leader c, e.highest = some leader → e.votes.get? c = some e.highestVotes →
    c = leader ∨ KeyOrder.before leader c = true

/-- Whoever is found anew is the first of the best. -/
theorem recount_leaderFirst (e : MatchEntry ι) : e.recount.LeaderFirst := by
  intro leader c leads votes
  rw [recount_votes] at votes
  obtain ⟨before, -⟩ | ⟨earlier, later, leader', split, leads', -, below⟩ :=
    leader_of_foldl_consider e.votes.toList
      { e with highest := none, highestVotes := 0, secondVotes := 0 }
  · have nobody : e.recount.highest = none := before
    rw [nobody] at leads
    cases leads
  · obtain rfl : leader' = leader := Option.some.inj (leads'.symm.trans leads)
    have listed := SortedMap.mem_toList.mpr votes
    have sorted := e.votes.sorted
    rw [split] at listed sorted
    rcases List.mem_append.mp listed with early | late
    · exact absurd (below _ early) (Nat.lt_irrefl _)
    · rcases List.mem_cons.mp late with same | after
      · exact .inl (congrArg Prod.fst same)
      · exact .inr (List.rel_of_pairwise_cons (List.pairwise_append.mp sorted).2.1 after)

/-! ## Votes taken back one after the other -/

variable [DecidableEq ι]

/-- The entry after the votes for some candidates are taken back, one after the other. -/
def afterWithdrawals (e : MatchEntry ι) (taken : List ι) : MatchEntry ι := taken.foldl removeVote e

theorem get?_votes_afterWithdrawals (e : MatchEntry ι) (taken : List ι) (c : ι) :
    (e.afterWithdrawals taken).votes.get? c = if c ∈ taken then none else e.votes.get? c := by
  induction taken generalizing e with
  | nil => rfl
  | cons t rest ih =>
      have votes : (e.removeVote t).votes = e.votes.erase t := e.retainVotes_votes (· ≠ t)
      rw [afterWithdrawals, List.foldl_cons, ← afterWithdrawals, ih, votes, SortedMap.get?_erase]
      by_cases here : c = t <;> by_cases later : c ∈ rest <;> simp [here, later]

theorem Exact.afterWithdrawals {e : MatchEntry ι} (exact_ : e.Exact) (taken : List ι) :
    (e.afterWithdrawals taken).Exact := by
  induction taken generalizing e with
  | nil => exact exact_
  | cons t rest ih => exact ih (exact_.retainVotes (· ≠ t))

/-- Where votes are taken back, the best candidate is found anew. -/
theorem leaderFirst_removeVote {e : MatchEntry ι} {t : ι} (voted : e.votes.contains t = true) :
    (e.removeVote t).LeaderFirst := by
  have votes : (e.removeVote t).votes = e.votes.erase t := e.retainVotes_votes (· ≠ t)
  unfold removeVote retainVotes at votes ⊢
  dsimp only at votes ⊢
  split_ifs at votes ⊢ with same
  · rw [votes, SortedMap.contains, SortedMap.get?_erase, if_pos rfl] at voted
    cases voted
  · exact recount_leaderFirst _

theorem LeaderFirst.removeVote {e : MatchEntry ι} (first : e.LeaderFirst) (t : ι) :
    (e.removeVote t).LeaderFirst := by
  unfold MatchEntry.removeVote MatchEntry.retainVotes
  dsimp only
  split_ifs
  · exact first
  · exact recount_leaderFirst _

theorem LeaderFirst.afterWithdrawals {e : MatchEntry ι} (first : e.LeaderFirst) (taken : List ι) :
    (e.afterWithdrawals taken).LeaderFirst := by
  induction taken generalizing e with
  | nil => exact first
  | cons t rest ih => exact ih (first.removeVote t)

/-- An entry is as it was if it has no votes for what is taken. Otherwise the best candidate is the
first of the best. -/
theorem Exact.afterWithdrawals_cases {e : MatchEntry ι} (exact_ : e.Exact) (taken : List ι) :
    (∀ t ∈ taken, e.votes.contains t = false) ∧ e.afterWithdrawals taken = e ∨
      (∃ t ∈ taken, e.votes.contains t = true) ∧ (e.afterWithdrawals taken).LeaderFirst := by
  induction taken with
  | nil => exact .inl ⟨nofun, rfl⟩
  | cons t rest ih =>
      cases voted : e.votes.contains t with
      | true =>
          exact .inr ⟨⟨t, List.mem_cons_self, voted⟩,
            (leaderFirst_removeVote voted).afterWithdrawals rest⟩
      | false =>
          have same : e.removeVote t = e := (exact_.withdrawn t).unchanged voted
          rw [MatchEntry.afterWithdrawals, List.foldl_cons, same, ← MatchEntry.afterWithdrawals]
          refine ih.imp ?_ ?_
          · rintro ⟨absent, unchanged⟩
            exact ⟨List.forall_mem_cons.mpr ⟨voted, absent⟩, unchanged⟩
          · rintro ⟨⟨t', member, voted'⟩, first⟩
            exact ⟨⟨t', List.mem_cons_of_mem t member, voted'⟩, first⟩

/-! ## Choices -/

/-- The candidate that falls to an old thing by its tally, once others are taken: one with the most
votes of those that are left. Of several such it is the one that led the tally if nothing in the
tally is taken, and the first one otherwise. -/
structure Chooses (e : MatchEntry ι) (taken : List ι) (n : ι) : Prop where
  voted : 0 < e.votesFor n
  free : n ∉ taken
  most : ∀ c, c ∉ taken → e.votesFor c ≤ e.votesFor n
  leader : (∀ t ∈ taken, e.votesFor t = 0) → e.highest = some n
  first : (∃ t ∈ taken, 0 < e.votesFor t) →
    ∀ c, c ∉ taken → e.votesFor c = e.votesFor n → c = n ∨ KeyOrder.before n c = true

omit [DecidableEq ι] in
theorem Exact.contains_iff {e : MatchEntry ι} (exact_ : e.Exact) {c : ι} :
    e.votes.contains c = true ↔ 0 < e.votesFor c := by
  rw [SortedMap.contains_iff]
  constructor
  · rintro ⟨n, found⟩
    rw [votesFor_of_get? found]
    exact exact_.positive found
  · intro positive
    by_contra absent
    rw [← SortedMap.contains_iff, Bool.not_eq_true] at absent
    rw [votesFor_eq_zero absent] at positive
    exact Nat.lt_irrefl 0 positive

omit [DecidableEq ι] in
/-- Nothing has more votes than the best candidate. -/
theorem Exact.votesFor_le {e : MatchEntry ι} (exact_ : e.Exact) {n : ι}
    (leads : e.highest = some n) (c : ι) : e.votesFor c ≤ e.votesFor n := by
  have figures := exact_.sums.leads leads
  rw [figures.votes]
  by_cases same : c = n
  · rw [same, figures.votes]
  · exact Nat.le_trans (figures.bounded c same) figures.second_le

/-- What is not taken has as many votes after the withdrawals as before. -/
theorem votesFor_afterWithdrawals (e : MatchEntry ι) (taken : List ι) (c : ι) :
    (e.afterWithdrawals taken).votesFor c = if c ∈ taken then 0 else e.votesFor c := by
  rw [votesFor, SortedMap.getD, get?_votes_afterWithdrawals]
  split_ifs <;> rfl

/-- The best candidate after the withdrawals is the one that falls to the old thing by the tally
before them. -/
theorem Exact.chooses {e : MatchEntry ι} (exact_ : e.Exact) {taken : List ι} {n : ι}
    (leads : (e.afterWithdrawals taken).highest = some n) : e.Chooses taken n := by
  have later := exact_.afterWithdrawals taken
  have listed := later.get?_highest leads
  have free : n ∉ taken := by
    intro member
    rw [get?_votes_afterWithdrawals, if_pos member] at listed
    cases listed
  have votes (c : ι) (other : c ∉ taken) :
      (e.afterWithdrawals taken).votesFor c = e.votesFor c := by
    rw [votesFor_afterWithdrawals, if_neg other]
  have count : e.votesFor n = (e.afterWithdrawals taken).highestVotes := by
    rw [← votes n free, votesFor_of_get? listed]
  refine ⟨?_, free, ?_, ?_, ?_⟩
  · rw [count]
    exact (later.sums.leads leads).voted
  · intro c other
    rw [← votes c other, ← votes n free]
    exact later.votesFor_le leads c
  · intro untouched
    rcases exact_.afterWithdrawals_cases taken with ⟨-, same⟩ | ⟨⟨t, member, voted⟩, -⟩
    · rw [← same]
      exact leads
    · have positive := exact_.contains_iff.mp voted
      rw [untouched t member] at positive
      cases positive
  · rintro ⟨t, member, positive⟩ c other tied
    rcases exact_.afterWithdrawals_cases taken with ⟨absent, -⟩ | ⟨-, first⟩
    · rw [← exact_.contains_iff, absent t member] at positive
      cases positive
    · apply first n c leads
      obtain ⟨m, present⟩ : ∃ m, (e.afterWithdrawals taken).votes.get? c = some m := by
        rw [← SortedMap.contains_iff, later.contains_iff, votes c other, tied, count]
        exact (later.sums.leads leads).voted
      rw [present, ← votesFor_of_get? present, votes c other, tied, count]

/-- If the withdrawals leave no best candidate, everything with votes is taken. -/
theorem Exact.all_taken {e : MatchEntry ι} (exact_ : e.Exact) {taken : List ι}
    (open_ : (e.afterWithdrawals taken).highest = none) (n : ι) (voted : 0 < e.votesFor n) :
    n ∈ taken := by
  by_contra free
  have none_ := ((exact_.afterWithdrawals taken).sums.empty open_).1 n
  rw [votesFor_afterWithdrawals, if_neg free] at none_
  rw [none_] at voted
  cases voted

omit [DecidableEq ι] in
/-- What falls to an old thing is determined by its tally and by what is taken. -/
theorem Chooses.unique {e : MatchEntry ι} {taken : List ι} {n n' : ι} (choice : e.Chooses taken n)
    (choice' : e.Chooses taken n') : n = n' := by
  by_cases untouched : ∀ t ∈ taken, e.votesFor t = 0
  · exact Option.some.inj ((choice.leader untouched).symm.trans (choice'.leader untouched))
  · push Not at untouched
    obtain ⟨t, member, votes⟩ := untouched
    have some_ : ∃ t ∈ taken, 0 < e.votesFor t := ⟨t, member, Nat.pos_of_ne_zero votes⟩
    have tied : e.votesFor n = e.votesFor n' :=
      Nat.le_antisymm (choice'.most n choice.free) (choice.most n' choice'.free)
    rcases choice'.first some_ n choice.free tied with same | before
    · exact same
    · rcases choice.first some_ n' choice'.free tied.symm with same | before'
      · exact same.symm
      · rw [KeyOrder.asymm before] at before'
        cases before'

end MatchEntry

end Namesake
