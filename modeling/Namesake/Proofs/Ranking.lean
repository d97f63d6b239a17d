import Namesake.Proofs.Confirming
import Namesake.Proofs.PartitionInvariants
import Namesake.Proofs.SortedMap

/-! # The ranking of pending things

The collector ranks what is pending by margin, in the order of the old things where margins are
equal (`Partition.pairwise_rankedPending`). It takes a batch from the top, which is everything where
the minimum allows for it (`Partition.mem_batch_of_size_le`). An entry without candidate has no
margin (`MatchEntry.invariant_unled`), so where it heads the ranking nothing pending has one
(`Partition.margin_eq_zero_of_batch`).
-/

namespace Namesake

/-- Sorted by falling rank, nothing outranks what comes before it. -/
theorem pairwise_mergeSort_falling {α : Type} (rank : α → Nat) (l : List α) :
    (l.mergeSort fun a b => rank b ≤ rank a).Pairwise fun a b => rank b ≤ rank a := by
  have sorted : (l.mergeSort fun a b => rank b ≤ rank a).Pairwise
      fun a b => decide (rank b ≤ rank a) = true := by
    apply List.pairwise_mergeSort
    · intro a b c first second
      rw [decide_eq_true_eq] at first second ⊢
      exact Nat.le_trans second first
    · intro a b
      rw [Bool.or_eq_true, decide_eq_true_eq, decide_eq_true_eq]
      exact Nat.le_total _ _
  exact sorted.imp of_decide_eq_true

/-- Sorting by falling rank keeps the order of what ranks equally. -/
theorem filter_mergeSort_falling {α : Type} (rank : α → Nat) (l : List α) (r : Nat) :
    (l.mergeSort fun a b => rank b ≤ rank a).filter (fun a => rank a = r) =
      l.filter fun a => rank a = r := by
  have trans : ∀ a b c : α, decide (rank b ≤ rank a) = true → decide (rank c ≤ rank b) = true →
      decide (rank c ≤ rank a) = true := by
    intro a b c first second
    rw [decide_eq_true_eq] at first second ⊢
    exact Nat.le_trans second first
  have total : ∀ a b : α, (decide (rank b ≤ rank a) || decide (rank a ≤ rank b)) = true := by
    intro a b
    rw [Bool.or_eq_true, decide_eq_true_eq, decide_eq_true_eq]
    exact Nat.le_total _ _
  have level :
      (l.filter fun a => rank a = r).Pairwise fun a b => decide (rank b ≤ rank a) = true := by
    rw [List.pairwise_filter]
    refine List.pairwise_of_forall ?_
    intro a b first second
    rw [decide_eq_true_eq] at first second ⊢
    omega
  have kept := (List.sublist_mergeSort trans total level List.filter_sublist).filter
    fun a => decide (rank a = r)
  rw [List.filter_filter] at kept
  have perm := (List.mergeSort_perm l fun a b => decide (rank b ≤ rank a)).filter
    fun a => decide (rank a = r)
  simp only [Bool.and_self] at kept
  exact (kept.eq_of_length perm.length_eq.symm).symm

namespace MatchEntry

variable {ι : Type} [KeyOrder ι]

/-- Without a best candidate there is no number of votes for it. -/
def Unled (e : MatchEntry ι) : Prop := e.highest = none → e.highestVotes = 0

theorem Unled.margin {e : MatchEntry ι} (unled : e.Unled) (open_ : e.highest = none) :
    e.margin = 0 := by
  rw [MatchEntry.margin, unled open_, Nat.zero_sub]

theorem Unled.consider {e : MatchEntry ι} (unled : e.Unled) (candidate : ι) (count : Nat) :
    (e.consider candidate count).Unled := by
  unfold MatchEntry.consider
  split_ifs
  · exact nofun
  · exact unled
  · exact unled

theorem recount_unled (e : MatchEntry ι) : e.recount.Unled := by
  have counted (candidates : List (ι × Nat)) (e : MatchEntry ι) (unled : e.Unled) :
      (candidates.foldl (fun e c => e.consider c.1 c.2) e).Unled := by
    induction candidates generalizing e with
    | nil => exact unled
    | cons first rest ih => exact ih _ (unled.consider first.1 first.2)
  exact counted e.votes.toList _ fun _ => rfl

theorem Unled.countVote [DecidableEq ι] {e : MatchEntry ι} (unled : e.Unled) (new : ι) :
    (e.countVote new).Unled := by
  unfold MatchEntry.countVote
  dsimp only
  split_ifs with leads
  · intro open_
    rw [leads] at open_
    cases open_
  · exact nofun
  · exact unled
  · exact unled

theorem invariant_unled : MatchEntry.Invariant Unled where
  blank _ _ := rfl
  countVote unled new := unled.countVote new
  retainVotes unled keep := by
    unfold retainVotes
    dsimp only
    split_ifs
    · exact unled
    · exact recount_unled _
  hinted unled _ := unled

end MatchEntry

namespace Partition

variable {ι : Type} [KeyOrder ι] {p : Partition ι}

/-- The best candidate of a pending thing. -/
def candidate? (p : Partition ι) (k : Handle ι) : Option ι := p.pending.get? k >>= (·.highest)

/-- The pending entries by falling margin. -/
def ranking (p : Partition ι) : List (Handle ι × MatchEntry ι) :=
  p.pending.toList.mergeSort fun a b => b.2.margin ≤ a.2.margin

theorem rankedPending_eq (p : Partition ι) : p.rankedPending = p.ranking.map Prod.fst := rfl

theorem mem_ranking {k : Handle ι} {e : MatchEntry ι} :
    (k, e) ∈ p.ranking ↔ p.pending.get? k = some e := by
  rw [ranking, List.mem_mergeSort, SortedMap.mem_toList]

theorem mem_rankedPending {k : Handle ι} :
    k ∈ p.rankedPending ↔ p.pending.contains k = true := by
  rw [rankedPending_eq, List.mem_map, SortedMap.contains_iff]
  constructor
  · rintro ⟨⟨k, e⟩, listed, rfl⟩
    exact ⟨e, mem_ranking.mp listed⟩
  · rintro ⟨e, found⟩
    exact ⟨(k, e), mem_ranking.mpr found, rfl⟩

theorem length_rankedPending (p : Partition ι) : p.rankedPending.length = p.pending.size := by
  rw [rankedPending, List.length_map, List.length_mergeSort]
  rfl

theorem pairwise_ranking (p : Partition ι) :
    p.ranking.Pairwise fun a b => b.2.margin ≤ a.2.margin :=
  pairwise_mergeSort_falling (fun x => x.2.margin) p.pending.toList

/-- One pending thing ranks above another: its margin is larger, or the same while it comes
first. -/
def Outranks (p : Partition ι) (j k : Handle ι) : Prop :=
  ∃ e f, p.pending.get? j = some e ∧ p.pending.get? k = some f ∧
    (f.margin < e.margin ∨ f.margin = e.margin ∧ KeyOrder.before j k = true)

/-- The ranking goes by falling margin, and by the order of the things where margins are equal. -/
theorem pairwise_rankedPending (p : Partition ι) : p.rankedPending.Pairwise p.Outranks := by
  rw [rankedPending_eq, List.pairwise_map, List.pairwise_iff_forall_sublist]
  intro a b inOrder
  have above : b.2.margin ≤ a.2.margin :=
    List.pairwise_iff_forall_sublist.mp p.pairwise_ranking inOrder
  have first : p.pending.get? a.1 = some a.2 := mem_ranking.mp (inOrder.subset (by simp))
  have second : p.pending.get? b.1 = some b.2 := mem_ranking.mp (inOrder.subset (by simp))
  refine ⟨a.2, b.2, first, second, ?_⟩
  rcases Nat.lt_or_eq_of_le above with larger | same
  · exact .inl larger
  · refine .inr ⟨same, ?_⟩
    -- among those of one margin the order is that of the entries
    have level : [a, b].Sublist (p.pending.toList.filter fun x => x.2.margin = a.2.margin) := by
      have kept := inOrder.filter fun x => decide (x.2.margin = a.2.margin)
      rw [ranking, filter_mergeSort_falling fun x : Handle ι × MatchEntry ι => x.2.margin] at kept
      simpa [same] using kept
    have entries := p.pending.keys_pairwise
    rw [SortedMap.keys, List.pairwise_map] at entries
    exact List.pairwise_iff_forall_sublist.mp entries (level.trans List.filter_sublist)

theorem nodup_rankedPending (p : Partition ι) : p.rankedPending.Nodup := by
  have entries : (p.pending.toList.map Prod.fst).Nodup := p.pending.keys_nodup
  exact ((List.mergeSort_perm p.pending.toList _).map Prod.fst).nodup_iff.mpr entries

/-- What the collector looks up of a thing is its best candidate while it is pending. -/
theorem Sound.get?_bind_highest (sound : p.Sound) (k : Handle ι) :
    (p.get? k >>= (·.highest)) = p.candidate? k := by
  rw [get?, candidate?]
  cases confirmed : p.confirmed.get? k with
  | none => rfl
  | some e =>
      have moved := sound.apart (SortedMap.contains_of_get? confirmed)
      rw [SortedMap.contains_eq_false_iff.mp moved]
      exact (sound.bare confirmed).highest

/-! ## Batches -/

variable {settings : CollectorSettings} {minimum : Nat}

/-- Everything pending is in the batch if the minimum allows for that. -/
theorem mem_batch_of_size_le (few : p.pending.size ≤ minimum) {k : Handle ι} {n : ι}
    (leads : p.candidate? k = some n) : k ∈ p.batch settings minimum := by
  have whole : p.rankedPending.length ≤ settings.quota minimum p.rankedPending.length := by
    rw [length_rankedPending, CollectorSettings.quota]
    omega
  obtain ⟨e, found, -⟩ := Option.bind_eq_some_iff.mp leads
  rw [batch, List.take_of_length_le whole, mem_rankedPending]
  exact SortedMap.contains_of_get? found

/-- If nothing in the batch has a candidate, nothing pending has a margin: what heads the ranking is
in the batch, and it has none. -/
theorem margin_eq_zero_of_batch (some_ : 1 ≤ minimum) (unled : p.PendingAll MatchEntry.Unled)
    (open_ : ∀ k ∈ p.batch settings minimum, p.candidate? k = none) :
    p.PendingAll fun e => e.margin = 0 := by
  intro k e found
  have listed := mem_ranking.mpr found
  have falling := p.pairwise_ranking
  cases ranked : p.ranking with
  | nil =>
      rw [ranked] at listed
      cases listed
  | cons first rest =>
      have entry : p.pending.get? first.1 = some first.2 := by
        rw [← mem_ranking, ranked]
        exact List.mem_cons_self
      have inBatch : first.1 ∈ p.batch settings minimum := by
        rw [batch, rankedPending_eq, ranked, List.map_cons, List.length_cons]
        obtain ⟨more, quota⟩ : ∃ more, settings.quota minimum ((rest.map Prod.fst).length + 1) =
            more + 1 := Nat.exists_eq_add_one.mpr (by unfold CollectorSettings.quota; omega)
        rw [quota, List.take_succ_cons]
        exact List.mem_cons_self
      have leaderless : first.2.highest = none := by
        have none_ := open_ first.1 inBatch
        rwa [candidate?, entry] at none_
      have flat : first.2.margin = 0 := (unled first.1 first.2 entry).margin leaderless
      rw [ranked] at listed falling
      rcases List.mem_cons.mp listed with rfl | later
      · exact flat
      · have below : e.margin ≤ first.2.margin := List.rel_of_pairwise_cons falling later
        omega

end Partition

/-! ## One turn of the collector -/

section

variable {ι : Type} [KeyOrder ι] {kind : Ledger → Partition ι} {confirm : Handle ι → ι → Work Unit}
  {s : State} {k : Handle ι}

/-- A thing without candidate is passed over. -/
theorem collectOne_of_none (sound : (kind s.ledger).Sound)
    (open_ : (kind s.ledger).candidate? k = none) : collectOne kind confirm k s = .ok () s := by
  rw [collectOne, get_bind, sound.get?_bind_highest, open_]
  rfl

/-- A thing with a candidate is confirmed onto it. -/
theorem collectOne_of_candidate (sound : (kind s.ledger).Sound) {n : ι}
    (leads : (kind s.ledger).candidate? k = some n) :
    collectOne kind confirm k s = confirm k n s := by
  rw [collectOne, get_bind, sound.get?_bind_highest, leads]

end

end Namesake
