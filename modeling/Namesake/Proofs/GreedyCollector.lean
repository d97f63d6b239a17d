import Namesake.Proofs.IdleCollector
import Namesake.Proofs.Withdrawals

/-! # The collector of types is greedy

While the collector of types goes through its batch, each confirmation takes votes back from what
comes later, and the best candidates are looked up again. Still the outcome can be told from the
tallies it starts from (`State.Reachable.collectTypes_greedy`): one old type after the other is
given what falls to it by its tally (`Partition.Greedy`), which determines the outcome
(`Partition.Greedy.unique`). Going through the batch, what is left of an entry is its tally at the
start without the types given away so far (`Partition.get?_pending_settleAll`).
-/

namespace Namesake

/-! ## Greedy runs -/

namespace Partition

variable {ι : Type} [KeyOrder ι]

/-- Old things are gone through one after the other. Each is given the candidate that falls to it by
its tally, where what was given to those before it is taken, and passed over if nothing is left. The
tallies are those of one partition throughout. -/
inductive Greedy (p : Partition ι) : List ι → List (Handle ι) → List (Handle ι × ι) → Prop
  | done {taken : List ι} : Greedy p taken [] []
  | given {taken : List ι} {k : Handle ι} {e : MatchEntry ι} {n : ι} {rest : List (Handle ι)}
      {commits : List (Handle ι × ι)} (found : p.pending.get? k = some e)
      (choice : e.Chooses taken n) (later : Greedy p (taken ++ [n]) rest commits) :
      Greedy p taken (k :: rest) ((k, n) :: commits)
  | passed {taken : List ι} {k : Handle ι} {e : MatchEntry ι} {rest : List (Handle ι)}
      {commits : List (Handle ι × ι)} (found : p.pending.get? k = some e)
      (nothing : ∀ n, 0 < e.votesFor n → n ∈ taken) (later : Greedy p taken rest commits) :
      Greedy p taken (k :: rest) commits

namespace Greedy

variable {p : Partition ι} {taken : List ι} {batch : List (Handle ι)}
  {commits commits' : List (Handle ι × ι)}

/-- What is given in a greedy run is determined by the tallies it starts from. -/
theorem unique (run : p.Greedy taken batch commits) (run' : p.Greedy taken batch commits') :
    commits = commits' := by
  induction run generalizing commits' with
  | done =>
      cases run'
      rfl
  | given found choice _ ih =>
      cases run' with
      | given found' choice' later' =>
          obtain rfl := Option.some.inj (found.symm.trans found')
          obtain rfl := choice.unique choice'
          rw [ih later']
      | passed found' nothing later' =>
          obtain rfl := Option.some.inj (found.symm.trans found')
          exact absurd (nothing _ choice.voted) choice.free
  | passed found nothing _ ih =>
      cases run' with
      | given found' choice' later' =>
          obtain rfl := Option.some.inj (found.symm.trans found')
          exact absurd (nothing _ choice'.voted) choice'.free
      | passed found' nothing' later' => exact ih later'

/-- Things are given out in the order of the batch, to each of its members once. -/
theorem sublist (run : p.Greedy taken batch commits) : (commits.map Prod.fst).Sublist batch := by
  induction run with
  | done => exact .slnil
  | given _ _ _ ih => exact ih.cons_cons _
  | passed _ _ _ ih => exact ih.cons _

/-- What is given to a pending thing had votes from it. -/
theorem voted (run : p.Greedy taken batch commits) {k : Handle ι} {n : ι}
    (given : (k, n) ∈ commits) : ∃ e, p.pending.get? k = some e ∧ 0 < e.votesFor n := by
  induction run with
  | done => cases given
  | given found choice _ ih =>
      rcases List.mem_cons.mp given with same | later
      · cases same
        exact ⟨_, found, choice.voted⟩
      · exact ih later
  | passed _ _ _ ih => exact ih given

end Greedy

/-! ## Pairs settled one after the other -/

variable [DecidableEq ι] {p : Partition ι} {k : Handle ι} {n : ι}

/-- The partition after some pairs are settled, one after the other. -/
def settleAll (p : Partition ι) (pairs : List (Handle ι × ι)) : Partition ι :=
  pairs.foldl (fun p x => p.settle x.1 (p.entryFor x.1 x.2) x.2) p

theorem settleAll_append (p : Partition ι) (pairs : List (Handle ι × ι)) (k : Handle ι) (n : ι) :
    p.settleAll (pairs ++ [(k, n)]) =
      (p.settleAll pairs).settle k ((p.settleAll pairs).entryFor k n) n := by
  rw [settleAll, List.foldl_append]
  rfl

/-- What is not settled stays pending, and loses the votes for what is. -/
theorem get?_pending_settleAll (p : Partition ι) (pairs : List (Handle ι × ι)) (k : Handle ι) :
    (p.settleAll pairs).pending.get? k =
      if k ∈ pairs.map Prod.fst then none
      else (p.pending.get? k).map (·.afterWithdrawals (pairs.map Prod.snd)) := by
  induction pairs generalizing p with
  | nil => exact Option.map_id'.symm
  | cons first rest ih =>
      have next : p.settleAll (first :: rest) =
          (p.settle first.1 (p.entryFor first.1 first.2) first.2).settleAll rest := rfl
      rw [next, ih, get?_pending_settle, List.map_cons, List.map_cons]
      by_cases here : k = first.1 <;> by_cases later : k ∈ rest.map Prod.fst
      · rw [if_pos later, if_pos (List.mem_cons_of_mem _ later)]
      · rw [if_neg later, if_pos here, here, if_pos List.mem_cons_self]
        rfl
      · rw [if_pos later, if_pos (List.mem_cons_of_mem _ later)]
      · rw [if_neg later, if_neg here, if_neg (by simp [here, later]), Option.map_map]
        rfl

/-- What stays pending while pairs are settled has the best candidate its other votes give it. -/
theorem candidate?_settleAll {e : MatchEntry ι} (found : p.pending.get? k = some e)
    {pairs : List (Handle ι × ι)} (unsettled : k ∉ pairs.map Prod.fst) :
    (p.settleAll pairs).candidate? k = (e.afterWithdrawals (pairs.map Prod.snd)).highest := by
  rw [candidate?, get?_pending_settleAll, if_neg unsettled, found]
  rfl

/-- Confirmed after some pairs are settled are these and what was confirmed before. -/
theorem isConfirmed_settleAll (p : Partition ι) (pairs : List (Handle ι × ι)) (k : Handle ι) :
    (p.settleAll pairs).isConfirmed k = true ↔
      p.isConfirmed k = true ∨ k ∈ pairs.map Prod.fst := by
  induction pairs generalizing p with
  | nil => simp [settleAll]
  | cons first rest ih =>
      have next : p.settleAll (first :: rest) =
          (p.settle first.1 (p.entryFor first.1 first.2) first.2).settleAll rest := rfl
      rw [next, ih, isConfirmed_settle, Bool.or_eq_true, decide_eq_true_eq, List.map_cons,
        List.mem_cons, eq_comm (a := first.1)]
      tauto

/-- If distinct things are settled that were not confirmed before, each keeps what it is settled
with. -/
theorem target?_settleAll {pairs : List (Handle ι × ι)}
    (fresh : ∀ k ∈ pairs.map Prod.fst, p.isConfirmed k = false)
    (distinct : (pairs.map Prod.fst).Nodup) (k : Handle ι) (n : ι) :
    (p.settleAll pairs).target? k = some n ↔ p.target? k = some n ∨ (k, n) ∈ pairs := by
  induction pairs generalizing p with
  | nil => simp [settleAll]
  | cons first rest ih =>
      obtain ⟨old, new⟩ := first
      rw [List.map_cons, List.nodup_cons] at distinct
      rw [List.map_cons, List.forall_mem_cons] at fresh
      have apart : ∀ k ∈ rest.map Prod.fst,
          (p.settle old (p.entryFor old new) new).isConfirmed k = false := by
        intro k member
        rw [isConfirmed_settle, fresh.2 k member, Bool.or_false, decide_eq_false_iff_not]
        rintro rfl
        exact distinct.1 member
      have next : p.settleAll ((old, new) :: rest) =
          (p.settle old (p.entryFor old new) new).settleAll rest := rfl
      have target : (p.entryFor old new).target = some new := rfl
      rw [next, ih apart distinct.2, target?_settle, target, List.mem_cons, Prod.mk.injEq]
      by_cases here : old = k
      · subst here
        rw [if_pos rfl, target?_of_not_isConfirmed fresh.1]
        simp [eq_comm]
      · rw [if_neg here]
        simp [Ne.symm here]

end Partition

/-! ## The collector of types -/

section

variable {c : Context} {s : State} {p : Partition TypeId}

/-- A turn of the collector at a type that has a candidate confirms the two, which counts as one
change. -/
theorem collectOne_settles (sound : s.ledger.types.Sound) {k : Handle TypeId} {n : TypeId}
    (leads : s.ledger.types.candidate? k = some n) :
    ∃ s', collectOne (·.types) (fun old new => discard (Work.confirmType c old new)) k s =
        .ok () s' ∧
      s'.ledger.types = s.ledger.types.settle k (s.ledger.types.entryFor k n) n ∧
      s'.ledger.types.Sound ∧ s'.changes = s.changes + 1 := by
  have free := (sound.of_candidate? leads).2
  obtain ⟨fresh, unclaimed⟩ := Partition.isTaken_eq_false_iff.mp free
  have after : s.confirmType c k n = ⟨s.ledger.settleType c k n, s.changes + 1⟩ := by
    rw [State.confirmType, free]
    rfl
  have turn : collectOne (·.types) (fun old new => discard (Work.confirmType c old new)) k s =
      (discard (Work.confirmType c k n) : Work Unit) s :=
    collectOne_of_candidate sound leads
  refine ⟨s.confirmType c k n, turn.trans (Work.discard_eq (Work.confirmType_eq c k n s)), ?_⟩
  rw [after, Ledger.types_settleType]
  exact ⟨rfl, sound.settle (sound.old_entryFor k n) rfl fresh unclaimed, rfl⟩

/-- **The collector of types goes through its batch as a greedy run does.** Nothing it does on its
way shows in what it gives: all that counts are the tallies it starts from. -/
theorem forM_collectOne_greedy (exact_ : p.PendingAll MatchEntry.Exact)
    {made : List (Handle TypeId × TypeId)} {batch : List (Handle TypeId)}
    (types : s.ledger.types = p.settleAll made) (sound : s.ledger.types.Sound)
    (distinct : batch.Nodup) (pending : ∀ k ∈ batch, p.pending.contains k = true)
    (open_ : ∀ k ∈ batch, k ∉ made.map Prod.fst) :
    ∃ commits s', batch.forM (collectOne (·.types) fun old new =>
        discard (Work.confirmType c old new)) s = .ok () s' ∧
      p.Greedy (made.map Prod.snd) batch commits ∧
      s'.ledger.types = p.settleAll (made ++ commits) ∧
      s'.changes = s.changes + commits.length := by
  induction batch generalizing made s with
  | nil => exact ⟨[], s, rfl, .done, by rw [List.append_nil, types], rfl⟩
  | cons k rest ih =>
      rw [List.nodup_cons] at distinct
      rw [List.forall_mem_cons] at pending open_
      obtain ⟨e, found⟩ := SortedMap.contains_iff.mp pending.1
      have candidate : s.ledger.types.candidate? k =
          (e.afterWithdrawals (made.map Prod.snd)).highest := by
        rw [types, Partition.candidate?_settleAll found open_.1]
      cases leads : s.ledger.types.candidate? k with
      | none =>
          obtain ⟨commits, s', done, run, types', changes⟩ :=
            ih types sound distinct.2 pending.2 open_.2
          refine ⟨commits, s', ?_, .passed found ?_ run, types', changes⟩
          · exact (bind_of_ok (collectOne_of_none sound leads)).trans done
          · exact (exact_ k e found).all_taken (candidate.symm.trans leads)
      | some n =>
          obtain ⟨s₁, turn, types₁, sound₁, count⟩ := collectOne_settles (c := c) sound leads
          rw [types, ← Partition.settleAll_append] at types₁
          have open₁ : ∀ k' ∈ rest, k' ∉ (made ++ [(k, n)]).map Prod.fst := by
            intro k' member
            rw [List.map_append, List.mem_append, not_or]
            refine ⟨open_.2 k' member, ?_⟩
            rw [List.map_singleton, List.mem_singleton]
            rintro rfl
            exact distinct.1 member
          obtain ⟨commits, s', done, run, types', changes⟩ :=
            ih types₁ sound₁ distinct.2 pending.2 open₁
          refine ⟨(k, n) :: commits, s', (bind_of_ok turn).trans done, .given found ?_ ?_, ?_, ?_⟩
          · exact (exact_ k e found).chooses (candidate.symm.trans leads)
          · rwa [List.map_append] at run
          · rw [types', List.append_assoc]
            rfl
          · rw [changes, count, List.length_cons, Nat.add_right_comm, Nat.add_assoc]

/-- **Collecting types is a greedy run on the tallies it starts from.** Everything pending is ranked
by falling margin, and by the order of the old things where margins are equal. Collecting never
fails; it goes through as many from the top as the settings allow, and gives each the candidate with
the most votes of those that were not given away on the way, or none if no candidate of its is left.
These are the confirmations it adds, each of which had a vote, and it counts as many changes. -/
theorem State.Reachable.collectTypes_greedy (reachable : s.Reachable c) :
    let p := s.ledger.types
    let ranked := p.rankedPending
    let settings := c.settings.collector
    (∀ k, k ∈ ranked ↔ p.pending.contains k = true) ∧ ranked.Pairwise p.Outranks ∧
    ∃ commits s', collectTypes c s = .ok () s' ∧
      p.Greedy [] (ranked.take (settings.quota settings.minTypes ranked.length)) commits ∧
      (∀ k n, (k, n) ∈ commits → p.isConfirmed k = false ∧ p.isClaimed n = false ∧
        ∃ e, p.pending.get? k = some e ∧ 0 < e.votesFor n) ∧
      (∀ k n, s'.ledger.types.target? k = some n ↔ p.target? k = some n ∨ (k, n) ∈ commits) ∧
      (∀ k, s'.ledger.types.isConfirmed k = true ↔
        p.isConfirmed k = true ∨ k ∈ commits.map Prod.fst) ∧
      s'.changes = s.changes + commits.length := by
  intro p ranked settings
  have partition := reachable.partitions.types
  have sound : p.Sound := partition.sound
  have exact_ : p.PendingAll MatchEntry.Exact := MatchEntry.lasting_exact.of_reachable partition
  refine ⟨fun _ => Partition.mem_rankedPending, p.pairwise_rankedPending, ?_⟩
  have within_ : ∀ k ∈ p.batch settings settings.minTypes, p.pending.contains k = true :=
    fun k member => Partition.mem_rankedPending.mp (List.mem_of_mem_take member)
  have distinct : (p.batch settings settings.minTypes).Nodup :=
    p.nodup_rankedPending.sublist (List.take_sublist _ _)
  have nothingMade : p = p.settleAll [] := rfl
  obtain ⟨commits, s', done, run, types, changes⟩ :=
    forM_collectOne_greedy (c := c) exact_ nothingMade sound distinct within_ fun _ _ => nofun
  have fresh : ∀ k ∈ commits.map Prod.fst, p.isConfirmed k = false := by
    intro k given
    obtain ⟨e, found⟩ := SortedMap.contains_iff.mp (within_ k (run.sublist.subset given))
    exact sound.not_isConfirmed_of_pending found
  rw [List.nil_append] at types
  refine ⟨commits, s', ?_, run, ?_, ?_, ?_, changes⟩
  · rw [collectTypes_eq_collect]
    exact done
  · intro k n given
    obtain ⟨e, found, voted⟩ := run.voted given
    exact ⟨sound.not_isConfirmed_of_pending found,
      sound.unclaimed found ((exact_ k e found).contains_iff.mpr voted), e, found, voted⟩
  · intro k n
    rw [types]
    exact Partition.target?_settleAll fresh (distinct.sublist run.sublist) k n
  · intro k
    rw [types]
    exact p.isConfirmed_settleAll commits k

end

/-! ## A contested batch -/

namespace Session

/-- A session in which every old class has votes for the first new one. The first old class has the
largest margin; the second has other candidates, tied for the best, and the third has none. -/
def contested : Session :=
  (start (.trio "a" "b" "c") ∅ (.trio "x" "y" "z") ∅ .default).afterCalls
    ((.replicate 3 (.vote (.type ⟨0⟩ ⟨0⟩))) ++
      [.vote (.type ⟨1⟩ ⟨0⟩), .vote (.type ⟨1⟩ ⟨0⟩), .vote (.type ⟨1⟩ ⟨2⟩), .vote (.type ⟨1⟩ ⟨1⟩),
        .vote (.type ⟨2⟩ ⟨0⟩)])

theorem reachable_contested : contested.state.Reachable contested.context := by
  obtain ⟨context, reachable⟩ := reachable_afterCalls (reachable_start ..) _
  rwa [← context] at reachable

/-- The first old class takes the best candidate of all, the second falls back on another one, and
the third is passed over. -/
theorem collectTypes_greedy_of_contested :
    let c := contested.context
    let s := contested.state
    let p := s.ledger.types
    let ranked : List (Handle TypeId) := [.real ⟨0⟩, .real ⟨1⟩, .real ⟨2⟩]
    s.Reachable c ∧ p.rankedPending = ranked ∧
      p.Greedy [] ranked [(.real ⟨0⟩, ⟨0⟩), (.real ⟨1⟩, ⟨1⟩)] ∧
      ∃ s', collectTypes c s = .ok () s' ∧ s'.ledger.types.target? (.real ⟨0⟩) = some ⟨0⟩ ∧
        s'.ledger.types.target? (.real ⟨1⟩) = some ⟨1⟩ ∧
        s'.ledger.types.isConfirmed (.real ⟨2⟩) = false ∧ s'.changes = s.changes + 2 := by
  have order : contested.state.ledger.types.rankedPending =
      [.real ⟨0⟩, .real ⟨1⟩, .real ⟨2⟩] := by cbv
  have quota : contested.context.settings.collector.quota
      contested.context.settings.collector.minTypes 3 = 3 := by decide +kernel
  have first : contested.state.ledger.types.pending.get? (.real ⟨0⟩) =
      some ⟨.real ⟨0⟩, none, .ofList [(⟨0⟩, 3)], some ⟨0⟩, 3, 0, none, false⟩ := by decide +kernel
  have second : contested.state.ledger.types.pending.get? (.real ⟨1⟩) =
      some ⟨.real ⟨1⟩, none, .ofList [(⟨0⟩, 2), (⟨1⟩, 1), (⟨2⟩, 1)], some ⟨0⟩, 2, 1, none,
        false⟩ := by
    decide +kernel
  have third : contested.state.ledger.types.pending.get? (.real ⟨2⟩) =
      some ⟨.real ⟨2⟩, none, .ofList [(⟨0⟩, 1)], some ⟨0⟩, 1, 0, none, false⟩ := by decide +kernel
  intro c s p ranked
  have exact_ : p.PendingAll MatchEntry.Exact :=
    MatchEntry.lasting_exact.of_reachable reachable_contested.partitions.types
  have expected : p.Greedy [] ranked [(.real ⟨0⟩, ⟨0⟩), (.real ⟨1⟩, ⟨1⟩)] :=
    .given first ((exact_ _ _ first).chooses (by decide +kernel))
      (.given second ((exact_ _ _ second).chooses (by decide +kernel))
        (.passed third ((exact_ _ _ third).all_taken (by decide +kernel)) .done))
  obtain ⟨-, -, commits, s', done, run, -, target, confirmed, changes⟩ :=
    reachable_contested.collectTypes_greedy
  have whole : ranked.take (c.settings.collector.quota c.settings.collector.minTypes 3) = ranked :=
    List.take_of_length_le (Nat.le_of_eq quota.symm)
  rw [order, List.length_cons, List.length_cons, List.length_singleton, whole] at run
  obtain rfl := run.unique expected
  refine ⟨reachable_contested, order, run, s', done, ?_, ?_, ?_, changes⟩
  · exact (target _ _).mpr (.inr List.mem_cons_self)
  · exact (target _ _).mpr (.inr (List.mem_cons_of_mem _ List.mem_cons_self))
  · have open_ : contested.state.ledger.types.isConfirmed (.real ⟨2⟩) = false := by
      decide +kernel
    rw [← Bool.not_eq_true, confirmed, open_]
    decide

end Session

end Namesake
