import Mathlib.Logic.Function.Basic
import Namesake.Proofs.Ranking
import Namesake.Proofs.ReachablePartitions
import Namesake.Proofs.Tallies

/-! # The figures kept about a tally

An entry keeps its best candidate, the votes for it, and the votes for the runner-up at hand. A vote
raises one count and only looks at the figures, and taking votes back finds them anew
(`MatchEntry.recount`). Both come down to what happens when the count of one candidate is raised
(`MatchEntry.Leads`). So the figures are always those of the tally: the votes for the best candidate
and the runner-up are the first two of the counts, from the largest down
(`Partition.Reachable.figures_of_tally`).
-/

namespace Namesake

namespace MatchEntry

variable {ι : Type}

/-! ## Leading a count -/

/-- A candidate leads a count of votes, with so many votes for it and for the runner-up. -/
structure Leads (count : ι → Nat) (leader : ι) (most second : Nat) : Prop where
  voted : 0 < most
  votes : count leader = most
  second_le : second ≤ most
  bounded : ∀ c, c ≠ leader → count c ≤ second
  attained : second = 0 ∨ ∃ c, c ≠ leader ∧ count c = second

namespace Leads

variable [DecidableEq ι] {count : ι → Nat} {leader c : ι} {most second n : Nat}

/-- The first candidate with votes leads. -/
theorem first (empty : ∀ c, count c = 0) (some_ : 0 < n) :
    Leads (Function.update count c n) c n 0 where
  voted := some_
  votes := Function.update_self c n count
  second_le := Nat.zero_le n
  bounded other apart := by rw [Function.update_of_ne apart, empty other]
  attained := .inl rfl

/-- A leader with more votes still leads. -/
theorem ahead (leads : Leads count leader most second) (more : most < n) :
    Leads (Function.update count leader n) leader n second where
  voted := Nat.zero_lt_of_lt more
  votes := Function.update_self leader n count
  second_le := Nat.le_trans leads.second_le (Nat.le_of_lt more)
  bounded other apart := by
    rw [Function.update_of_ne apart]
    exact leads.bounded other apart
  attained := by
    refine leads.attained.imp_right ?_
    rintro ⟨other, apart, attains⟩
    exact ⟨other, apart, (Function.update_of_ne apart n count).trans attains⟩

/-- A candidate with more votes than the leader takes its place, and the leader is the runner-up. -/
theorem overtaken (leads : Leads count leader most second) (apart : c ≠ leader) (more : most < n) :
    Leads (Function.update count c n) c n most where
  voted := Nat.zero_lt_of_lt more
  votes := Function.update_self c n count
  second_le := Nat.le_of_lt more
  bounded other aside := by
    rw [Function.update_of_ne aside]
    by_cases same : other = leader
    · rw [same, leads.votes]
    · exact Nat.le_trans (leads.bounded other same) leads.second_le
  attained :=
    .inr ⟨leader, apart.symm, (Function.update_of_ne apart.symm n count).trans leads.votes⟩

/-- A candidate with more votes than the runner-up takes its place, if it does not overtake the
leader. -/
theorem pursued (leads : Leads count leader most second) (apart : c ≠ leader) (more : second < n)
    (behind : n ≤ most) : Leads (Function.update count c n) leader most n where
  voted := leads.voted
  votes := (Function.update_of_ne apart.symm n count).trans leads.votes
  second_le := behind
  bounded other aside := by
    by_cases same : other = c
    · rw [same, Function.update_self]
    · rw [Function.update_of_ne same]
      exact Nat.le_trans (leads.bounded other aside) (Nat.le_of_lt more)
  attained := .inr ⟨c, apart, Function.update_self c n count⟩

/-- A candidate that gains votes, but stays behind the runner-up, moves nobody. -/
theorem unmoved (leads : Leads count leader most second) (apart : c ≠ leader) (more : count c < n)
    (behind : n ≤ second) : Leads (Function.update count c n) leader most second where
  voted := leads.voted
  votes := (Function.update_of_ne apart.symm n count).trans leads.votes
  second_le := leads.second_le
  bounded other aside := by
    by_cases same : other = c
    · rw [same, Function.update_self]
      exact behind
    · rw [Function.update_of_ne same]
      exact leads.bounded other aside
  attained := by
    refine leads.attained.imp_right ?_
    rintro ⟨other, aside, attains⟩
    -- who was the runner-up had more votes than the candidate has now
    have same : other ≠ c := by
      rintro rfl
      omega
    exact ⟨other, aside, (Function.update_of_ne same n count).trans attains⟩

end Leads

/-! ## Entries that sum up a count -/

variable [KeyOrder ι]

/-- The figures of an entry are those of a count of votes. -/
def SumsUp (e : MatchEntry ι) (count : ι → Nat) : Prop :=
  match e.highest with
  | none => (∀ c, count c = 0) ∧ e.highestVotes = 0 ∧ e.secondVotes = 0
  | some leader => Leads count leader e.highestVotes e.secondVotes

theorem sumsUp_of_leads {e : MatchEntry ι} {count : ι → Nat} {leader : ι}
    (highest : e.highest = some leader)
    (leads : Leads count leader e.highestVotes e.secondVotes) : e.SumsUp count := by
  rw [SumsUp, highest]
  exact leads

namespace SumsUp

variable {e : MatchEntry ι} {count : ι → Nat}

theorem leads (sums : e.SumsUp count) {leader : ι} (highest : e.highest = some leader) :
    Leads count leader e.highestVotes e.secondVotes := by
  rwa [SumsUp, highest] at sums

theorem empty (sums : e.SumsUp count) (open_ : e.highest = none) :
    (∀ c, count c = 0) ∧ e.highestVotes = 0 ∧ e.secondVotes = 0 := by
  rwa [SumsUp, open_] at sums

variable [DecidableEq ι] {c : ι} {n : Nat}

/-- Taking a candidate into account raises its count. -/
theorem consider (sums : e.SumsUp count) (other : e.highest ≠ some c) (more : count c < n) :
    (e.consider c n).SumsUp (Function.update count c n) := by
  cases highest : e.highest with
  | none =>
      obtain ⟨empty, most, second⟩ := sums.empty highest
      have overtakes : e.highestVotes < n := most ▸ Nat.zero_lt_of_lt more
      rw [MatchEntry.consider, if_pos overtakes, most]
      exact Leads.first empty (Nat.zero_lt_of_lt more)
  | some leader =>
      have leads := sums.leads highest
      have apart : c ≠ leader := by
        rintro rfl
        exact other highest
      unfold MatchEntry.consider
      split_ifs with overtakes pursues
      · exact leads.overtaken apart overtakes
      · exact sumsUp_of_leads highest (leads.pursued apart pursues (Nat.le_of_not_lt overtakes))
      · exact sumsUp_of_leads highest (leads.unmoved apart more (Nat.le_of_not_lt pursues))

/-- Going through candidates nobody has counted so far gives each its votes. -/
theorem foldl_consider {candidates : List (ι × Nat)} {total : ι → Nat} (sums : e.SumsUp count)
    (distinct : (candidates.map Prod.fst).Nodup)
    (new : ∀ x ∈ candidates, count x.1 = 0 ∧ 0 < x.2 ∧ total x.1 = x.2)
    (same : ∀ c, c ∉ candidates.map Prod.fst → total c = count c) :
    (candidates.foldl (fun e x => e.consider x.1 x.2) e).SumsUp total := by
  induction candidates generalizing e count with
  | nil =>
      have total_eq : total = count := funext fun c => same c List.not_mem_nil
      rw [total_eq]
      exact sums
  | cons first rest ih =>
      obtain ⟨c, n⟩ := first
      obtain ⟨unseen, positive, given⟩ := new (c, n) List.mem_cons_self
      rw [List.map_cons, List.nodup_cons] at distinct
      have fresh : e.highest ≠ some c := by
        intro highest
        have leads := sums.leads highest
        have voted := leads.voted
        rw [← leads.votes, unseen] at voted
        cases voted
      have more : count c < n := by
        rw [unseen]
        exact positive
      apply ih (sums.consider fresh more) distinct.2
      · intro x member
        obtain ⟨unseen', positive', given'⟩ := new x (List.mem_cons_of_mem _ member)
        have apart : x.1 ≠ c := by
          intro same
          exact distinct.1 (List.mem_map.mpr ⟨x, member, same⟩)
        exact ⟨(Function.update_of_ne apart n count).trans unseen', positive', given'⟩
      · intro c' later
        by_cases here : c' = c
        · subst here
          rw [given, Function.update_self]
        · rw [Function.update_of_ne here]
          exact same c' fun member => (List.mem_cons.mp member).elim here later

end SumsUp

/-! ## Exact entries -/

/-- The figures of an entry are those of its tally, and every candidate in it has votes. -/
structure Exact (e : MatchEntry ι) : Prop where
  sums : e.SumsUp e.votesFor
  positive : ∀ {c n}, e.votes.get? c = some n → 0 < n

theorem votesFor_of_get? {e : MatchEntry ι} {c : ι} {n : Nat} (found : e.votes.get? c = some n) :
    e.votesFor c = n := by
  rw [votesFor, SortedMap.getD, found, Option.getD_some]

theorem votesFor_eq_zero {e : MatchEntry ι} {c : ι} (absent : e.votes.contains c = false) :
    e.votesFor c = 0 := by
  rw [votesFor, SortedMap.getD, SortedMap.contains_eq_false_iff.mp absent, Option.getD_none]

theorem blank_exact (old : Handle ι) : (blank old).Exact where
  sums := ⟨fun _ => rfl, rfl, rfl⟩
  positive found := nomatch found

variable [DecidableEq ι] {e : MatchEntry ι}

theorem Exact.countVote (exact_ : e.Exact) (c : ι) : (e.countVote c).Exact where
  sums := by
    have count : (e.countVote c).votesFor = Function.update e.votesFor c (e.votesFor c + 1) := by
      funext other
      rw [votesFor_countVote, Function.update_apply]
      by_cases same : other = c
      · rw [if_pos same, if_pos same.symm, same]
      · rw [if_neg same, if_neg (Ne.symm same), Nat.add_zero]
    rw [count]
    by_cases highest : e.highest = some c
    · have leads := exact_.sums.leads highest
      have more : e.highestVotes < e.votesFor c + 1 := by
        rw [leads.votes]
        exact Nat.lt_succ_self _
      simp only [MatchEntry.countVote, highest, if_true]
      exact sumsUp_of_leads rfl (leads.ahead more)
    · have raised := exact_.sums.consider highest (Nat.lt_succ_self (e.votesFor c))
      simp only [MatchEntry.countVote, highest, if_false]
      unfold MatchEntry.consider at raised
      split_ifs at raised ⊢ <;> exact raised
  positive {c' n} found := by
    rw [countVote_votes, SortedMap.get?_insert] at found
    split_ifs at found
    · rw [← Option.some.inj found]
      exact Nat.succ_pos _
    · exact exact_.positive found

/-- Finding the figures anew makes an entry exact. -/
theorem recount_exact (positive : ∀ {c n}, e.votes.get? c = some n → 0 < n) : e.recount.Exact where
  sums := by
    have count : e.recount.votesFor = e.votesFor := by
      funext c
      rw [votesFor, recount_votes, votesFor]
    have none_ : SumsUp { e with highest := none, highestVotes := 0, secondVotes := 0 }
        fun _ => 0 := ⟨fun _ => rfl, rfl, rfl⟩
    rw [count]
    apply none_.foldl_consider e.votes.keys_nodup
    · rintro ⟨c, n⟩ listed
      have found := SortedMap.mem_toList.mp listed
      exact ⟨rfl, positive found, votesFor_of_get? found⟩
    · intro c absent
      apply votesFor_eq_zero
      rw [← Bool.not_eq_true, ← SortedMap.mem_keys]
      exact absent
  positive {c n} found := by
    rw [recount_votes] at found
    exact positive found

theorem Exact.retainVotes (exact_ : e.Exact) (keep : ι → Bool) : (e.retainVotes keep).Exact := by
  unfold MatchEntry.retainVotes
  dsimp only
  split_ifs
  · exact exact_
  · apply recount_exact
    intro c n found
    rw [SortedMap.get?_filter, Option.filter_eq_some_iff] at found
    exact exact_.positive found.1

omit [DecidableEq ι] in
/-- Being exact is for good: whatever happens to a pending entry keeps it exact. -/
theorem lasting_exact : MatchEntry.Lasting Exact where
  blank := blank_exact
  countVote before new := before.countVote new
  retainVotes before keep := by
    classical
    exact before.retainVotes keep
  hinted before _ := ⟨before.sums, before.positive⟩
  targeted before _ := ⟨before.sums, before.positive⟩

end MatchEntry

/-! ## The largest counts -/

/-- Counts from the largest down. -/
def falling (counts : List Nat) : List Nat := counts.mergeSort fun a b => b ≤ a

theorem pairwise_falling (counts : List Nat) : (falling counts).Pairwise fun a b => b ≤ a :=
  pairwise_mergeSort_falling id counts

/-- A bound that is attained comes first. -/
theorem getD_falling_zero {counts : List Nat} {n : Nat} (bounded : ∀ m ∈ counts, m ≤ n)
    (attained : n = 0 ∨ n ∈ counts) : (falling counts).getD 0 0 = n := by
  have perm : (falling counts).Perm counts := List.mergeSort_perm counts _
  have sorted := pairwise_falling counts
  cases sorting : falling counts with
  | nil =>
      rw [sorting] at perm
      rw [← perm.nil_eq] at attained
      exact (attained.resolve_right List.not_mem_nil).symm
  | cons first rest =>
      rw [sorting] at perm sorted
      have below : first ≤ n := bounded first (perm.mem_iff.mp List.mem_cons_self)
      refine Nat.le_antisymm below ?_
      rcases attained with zero | listed
      · rw [zero]
        exact Nat.zero_le _
      · rcases List.mem_cons.mp (perm.mem_iff.mpr listed) with same | later
        · exact Nat.le_of_eq same
        · exact List.rel_of_pairwise_cons sorted later

/-- A count that bounds the others comes first, and the largest of the others comes next. -/
theorem falling_of_perm {counts others : List Nat} {n : Nat} (perm : counts.Perm (n :: others))
    (bounded : ∀ m ∈ others, m ≤ n) : falling counts = n :: falling others := by
  have sorted : (n :: falling others).Pairwise fun a b => b ≤ a := by
    refine List.pairwise_cons.mpr ⟨?_, pairwise_falling others⟩
    intro m member
    exact bounded m ((List.mergeSort_perm others _).mem_iff.mp member)
  have same : (falling counts).Perm (n :: falling others) :=
    (List.mergeSort_perm counts _).trans
      (perm.trans ((List.mergeSort_perm others _).symm.cons n))
  exact same.eq_of_pairwise (fun a b _ _ below above => Nat.le_antisymm above below)
    (pairwise_falling counts) sorted

namespace MatchEntry

variable {ι : Type} [KeyOrder ι] {e : MatchEntry ι}

/-- The counts of a tally, from the largest down. -/
def fallingCounts (e : MatchEntry ι) : List Nat := falling e.votes.values

/-- An entry without best candidate has no votes. -/
theorem Exact.highest_eq_none_iff (exact_ : e.Exact) : e.highest = none ↔ e.votes = ∅ := by
  constructor
  · intro open_
    rw [SortedMap.eq_empty_iff]
    intro c
    cases found : e.votes.get? c with
    | none => rfl
    | some n =>
        have positive := exact_.positive found
        rw [← votesFor_of_get? found, (exact_.sums.empty open_).1] at positive
        cases positive
  · intro empty
    cases highest : e.highest with
    | none => rfl
    | some leader =>
        have leads := exact_.sums.leads highest
        have voted := leads.voted
        rw [← leads.votes, votesFor, empty] at voted
        cases voted

/-- The best candidate has as many votes as the entry says. -/
theorem Exact.get?_highest (exact_ : e.Exact) {leader : ι} (highest : e.highest = some leader) :
    e.votes.get? leader = some e.highestVotes := by
  have leads := exact_.sums.leads highest
  cases found : e.votes.get? leader with
  | none =>
      have voted := leads.voted
      rw [← leads.votes, votesFor, SortedMap.getD, found] at voted
      cases voted
  | some n => rw [← leads.votes, votesFor_of_get? found]

/-- **The votes for the best candidate and the runner-up are the two largest counts of the
tally.** -/
theorem Exact.figures (exact_ : e.Exact) :
    e.fallingCounts.getD 0 0 = e.highestVotes ∧ e.fallingCounts.getD 1 0 = e.secondVotes := by
  classical
  cases highest : e.highest with
  | none =>
      obtain ⟨-, most, second⟩ := exact_.sums.empty highest
      have nothing : falling (∅ : SortedMap ι Nat).values = [] := List.mergeSort_nil
      rw [most, second, fallingCounts, exact_.highest_eq_none_iff.mp highest, nothing]
      exact ⟨rfl, rfl⟩
  | some leader =>
      have leads := exact_.sums.leads highest
      have votes : e.votes.values.Perm (e.highestVotes :: (e.votes.erase leader).values) :=
        (SortedMap.perm_toList_of_get? (exact_.get?_highest highest)).map Prod.snd
      have others {n : Nat} : n ∈ (e.votes.erase leader).values ↔
          ∃ c, c ≠ leader ∧ e.votes.get? c = some n := by
        rw [SortedMap.mem_values]
        refine exists_congr fun c => ?_
        rw [SortedMap.get?_erase]
        by_cases same : c = leader <;> simp [same]
      have bounded : ∀ n ∈ (e.votes.erase leader).values, n ≤ e.secondVotes := by
        intro n member
        obtain ⟨c, apart, found⟩ := others.mp member
        rw [← votesFor_of_get? found]
        exact leads.bounded c apart
      have attained : e.secondVotes = 0 ∨ e.secondVotes ∈ (e.votes.erase leader).values := by
        rcases leads.attained with none_ | ⟨c, apart, attains⟩
        · exact .inl none_
        · cases found : e.votes.get? c with
          | none =>
              rw [votesFor, SortedMap.getD, found] at attains
              exact .inl attains.symm
          | some n =>
              rw [votesFor_of_get? found] at attains
              exact .inr (others.mpr ⟨c, apart, attains ▸ found⟩)
      rw [fallingCounts, falling_of_perm votes fun n member =>
        Nat.le_trans (bounded n member) leads.second_le]
      exact ⟨rfl, getD_falling_zero bounded attained⟩

theorem Exact.second_le (exact_ : e.Exact) : e.secondVotes ≤ e.highestVotes := by
  cases highest : e.highest with
  | none =>
      obtain ⟨-, most, second⟩ := exact_.sums.empty highest
      rw [most, second]
  | some leader => exact (exact_.sums.leads highest).second_le

end MatchEntry

/-- **The figures of reachable partitions are those of the tallies.** Every pending entry says how
many votes its best candidate and the runner-up have; these are the largest count of its tally and
the one after it, or nothing where there is no such count. It has a best candidate if there are
votes at all, and that one has the most. Every candidate listed has votes, and the runner-up never
has more than the best, so that the margin is the difference. -/
theorem Partition.Reachable.figures_of_tally {ι : Type} [KeyOrder ι] [DecidableEq ι]
    {p : Partition ι} (reachable : p.Reachable) :
    ∀ k e, p.pending.get? k = some e →
      e.highestVotes = e.fallingCounts.getD 0 0 ∧ e.secondVotes = e.fallingCounts.getD 1 0 ∧
      (e.highest = none ↔ e.votes = ∅) ∧
      (∀ leader, e.highest = some leader → e.votes.get? leader = some e.highestVotes) ∧
      (∀ c n, e.votes.get? c = some n → 0 < n) ∧
      e.margin + e.secondVotes = e.highestVotes := by
  intro k e found
  have exact_ : e.Exact := MatchEntry.lasting_exact.of_reachable reachable k e found
  obtain ⟨most, second⟩ := exact_.figures
  refine ⟨most.symm, second.symm, exact_.highest_eq_none_iff, ?_, ?_, ?_⟩
  · intro leader highest
    exact exact_.get?_highest highest
  · intro c n listed
    exact exact_.positive listed
  · exact Nat.sub_add_cancel exact_.second_le

/-- Votes for three candidates that overtake each other, the leading one of which are taken
back. -/
def Partition.contested : List (Operation TypeId) :=
  [10, 11, 10, 12, 11, 11, 12, 12, 12, 10].map (fun n => .vote (.real ⟨1⟩) ⟨n⟩) ++
    [.removeVote (.real ⟨1⟩) ⟨12⟩]

/-- What is left of the contest is a draw, which the smaller candidate leads. -/
theorem Partition.figures_of_contested :
    let p := afterAll contested
    let e : MatchEntry TypeId := ⟨.real ⟨1⟩, none, .ofList [(⟨10⟩, 3), (⟨11⟩, 3)], some ⟨10⟩, 3, 3,
      none, false⟩
    p.Reachable ∧ p.pending.get? (.real ⟨1⟩) = some e ∧
      3 = e.fallingCounts.getD 0 0 ∧ 3 = e.fallingCounts.getD 1 0 ∧
      (some (⟨10⟩ : TypeId) = none ↔ e.votes = ∅) ∧
      (∀ leader, some ⟨10⟩ = some leader → e.votes.get? leader = some 3) ∧
      (∀ c n, e.votes.get? c = some n → 0 < n) ∧ e.margin + 3 = 3 := by
  intro p e
  have reachable : p.Reachable := reachable_afterAll contested
  have found : p.pending.get? (.real ⟨1⟩) = some e := by decide
  exact ⟨reachable, found, Reachable.figures_of_tally reachable (.real ⟨1⟩) e found⟩

end Namesake
