import Namesake.Ledger.Basic
import Namesake.Proofs.Entry

/-! # Sound partitions

A partition keeps three maps in step: the pending entries, the confirmed ones, and the holders of
the new things that are claimed. `Partition.Sound` says what keeps them together. Every operation
on a partition preserves it: evidence changes pending entries alone and adds votes for unclaimed
candidates only (`Partition.Sound.of_pending`), and confirming moves one entry and takes back the
votes for its target everywhere else (`Partition.Sound.settle`).

Matching is total: it either finds a side taken and does nothing, or settles the pair
(`Partition.tryMatch_eq`).
-/

namespace Namesake.Partition

variable {ι : Type} [KeyOrder ι]

/-- The maps of a partition agree. -/
structure Sound (p : Partition ι) : Prop where
  /-- A pending entry stands under its own old thing. -/
  pendingKey : ∀ {k e}, p.pending.get? k = some e → e.old = k
  /-- A confirmed entry stands under its own old thing. -/
  confirmedKey : ∀ {k e}, p.confirmed.get? k = some e → e.old = k
  /-- What is confirmed is not pending. -/
  apart : ∀ {k}, p.isConfirmed k = true → p.pending.contains k = false
  /-- A confirmed entry has a target. -/
  settled : ∀ {k e}, p.confirmed.get? k = some e → ∃ t, e.target = some t
  /-- A confirmed entry has no evidence left. -/
  bare : ∀ {k e}, p.confirmed.get? k = some e → e.Bare
  /-- The holder of a new thing is the old one confirmed onto it. -/
  holder_iff : ∀ {k t}, p.holder? t = some k ↔ p.target? k = some t
  /-- Nothing that is claimed has votes. -/
  unclaimed : ∀ {k e t}, p.pending.get? k = some e → e.votes.contains t = true →
    p.isClaimed t = false
  /-- The best candidate of a pending entry has votes. -/
  leader : ∀ {k e}, p.pending.get? k = some e → e.LeaderListed
  /-- Only confirmed pairs are marked as compared. -/
  unmerged : ∀ {k e}, p.pending.get? k = some e → e.merged = false

/-- Whatever the first partition has confirmed, the second has confirmed onto the same target. -/
def Extends (p p' : Partition ι) : Prop := ∀ k t, p.target? k = some t → p'.target? k = some t

theorem Extends.refl (p : Partition ι) : p.Extends p := fun _ _ confirmed => confirmed

theorem Extends.trans {p p' p'' : Partition ι} (first : p.Extends p') (second : p'.Extends p'') :
    p.Extends p'' :=
  fun k t confirmed => second k t (first k t confirmed)

/-! ## Views -/

theorem target?_eq_some_iff {p : Partition ι} {k : Handle ι} {t : ι} :
    p.target? k = some t ↔ ∃ e, p.confirmed.get? k = some e ∧ e.target = some t := by
  simp only [target?, Option.bind_eq_bind, Option.bind_eq_some_iff]

theorem isConfirmed_eq_false_iff {p : Partition ι} {k : Handle ι} :
    p.isConfirmed k = false ↔ p.confirmed.get? k = none :=
  SortedMap.contains_eq_false_iff

theorem isClaimed_eq_false_iff {p : Partition ι} {t : ι} :
    p.isClaimed t = false ↔ p.holder? t = none :=
  SortedMap.contains_eq_false_iff

theorem isConfirmed_of_target? {p : Partition ι} {k : Handle ι} {t : ι}
    (confirmed : p.target? k = some t) : p.isConfirmed k = true := by
  obtain ⟨e, found, -⟩ := target?_eq_some_iff.mp confirmed
  exact SortedMap.contains_of_get? found

theorem target?_of_not_isConfirmed {p : Partition ι} {k : Handle ι}
    (fresh : p.isConfirmed k = false) : p.target? k = none := by
  rw [target?, isConfirmed_eq_false_iff.mp fresh]
  rfl

/-- What an entry contributes to the pairs. -/
theorem pair_eq_some_iff {e : MatchEntry ι} {o n : ι} :
    (do return (← e.old.real?, ← e.target) : Option (ι × ι)) = some (o, n) ↔
      e.old = .real o ∧ e.target = some n := by
  cases e.old with
  | synthetic s => simp [Handle.real?]
  | real o' =>
      cases e.target with
      | none => simp
      | some n' => simp [Handle.real?]

theorem empty_sound : (∅ : Partition ι).Sound where
  pendingKey found := nomatch found
  confirmedKey found := nomatch found
  apart found := nomatch found
  settled found := nomatch found
  bare found := nomatch found
  holder_iff := ⟨(nomatch ·), (nomatch ·)⟩
  unclaimed found := nomatch found
  leader found := nomatch found
  unmerged found := nomatch found

namespace Sound

variable {p : Partition ι}

/-- A confirmed thing has a target. -/
theorem target?_of_isConfirmed (sound : p.Sound) {k : Handle ι}
    (confirmed : p.isConfirmed k = true) : ∃ t, p.target? k = some t := by
  obtain ⟨e, found⟩ := SortedMap.contains_iff.mp confirmed
  obtain ⟨t, target⟩ := sound.settled found
  exact ⟨t, target?_eq_some_iff.mpr ⟨e, found, target⟩⟩

theorem isClaimed_iff (sound : p.Sound) {t : ι} :
    p.isClaimed t = true ↔ ∃ k, p.target? k = some t := by
  rw [isClaimed, SortedMap.contains_iff]
  exact exists_congr fun k => sound.holder_iff

/-- No two old things are confirmed onto one new thing. -/
theorem target?_injective (sound : p.Sound) {k k' : Handle ι} {t : ι}
    (first : p.target? k = some t) (second : p.target? k' = some t) : k = k' :=
  Option.some.inj ((sound.holder_iff.mpr first).symm.trans (sound.holder_iff.mpr second))

/-- A pending thing is not confirmed. -/
theorem not_isConfirmed_of_pending (sound : p.Sound) {k : Handle ι} {e : MatchEntry ι}
    (found : p.pending.get? k = some e) : p.isConfirmed k = false := by
  cases confirmed : p.isConfirmed k with
  | false => rfl
  | true =>
      have absent := SortedMap.contains_eq_false_iff.mp (sound.apart confirmed)
      rw [found] at absent
      cases absent

/-- The pairs of a partition are what is confirmed of the old program. -/
theorem mem_pairs (sound : p.Sound) {o n : ι} :
    (o, n) ∈ p.pairs ↔ p.target? (.real o) = some n := by
  rw [pairs, List.mem_filterMap, target?_eq_some_iff]
  constructor
  · intro listed
    obtain ⟨e, member, pair⟩ := listed
    obtain ⟨old, target⟩ := pair_eq_some_iff.mp pair
    obtain ⟨k, found⟩ := SortedMap.mem_values.mp member
    have key : k = .real o := (sound.confirmedKey found).symm.trans old
    rw [key] at found
    exact ⟨e, found, target⟩
  · intro confirmed
    obtain ⟨e, found, target⟩ := confirmed
    exact ⟨e, SortedMap.mem_values.mpr ⟨.real o, found⟩,
      pair_eq_some_iff.mpr ⟨sound.confirmedKey found, target⟩⟩

end Sound

/-! ## Changes of pending entries -/

/-- A partition stays sound if its pending entries become others that stand under their keys, are
neither confirmed nor marked, and have votes for unclaimed candidates only. -/
theorem Sound.of_pending {p : Partition ι} (sound : p.Sound)
    {pending : SortedMap (Handle ι) (MatchEntry ι)}
    (fits : ∀ k e, pending.get? k = some e → e.old = k ∧ p.isConfirmed k = false ∧
      e.LeaderListed ∧ e.merged = false ∧ ∀ t, e.votes.contains t = true → p.isClaimed t = false) :
    Sound { p with pending } where
  pendingKey found := (fits _ _ found).1
  confirmedKey := sound.confirmedKey
  apart {k} confirmed := by
    cases inside : pending.contains k with
    | false => rfl
    | true =>
        obtain ⟨e, found⟩ := SortedMap.contains_iff.mp inside
        exact absurd confirmed (by rw [Bool.not_eq_true]; exact (fits k e found).2.1)
  settled := sound.settled
  bare := sound.bare
  holder_iff := sound.holder_iff
  unclaimed found voted := (fits _ _ found).2.2.2.2 _ voted
  leader found := (fits _ _ found).2.2.1
  unmerged found := (fits _ _ found).2.2.2.1

@[simp]
theorem confirmed_touch (p : Partition ι) (old : Handle ι) :
    (p.touch old).confirmed = p.confirmed := by
  unfold touch
  split <;> rfl

@[simp]
theorem inverse_touch (p : Partition ι) (old : Handle ι) : (p.touch old).inverse = p.inverse := by
  unfold touch
  split <;> rfl

theorem isClaimed_touch (p : Partition ι) (old : Handle ι) (new : ι) :
    (p.touch old).isClaimed new = p.isClaimed new := by
  rw [isClaimed, inverse_touch, isClaimed]

variable [DecidableEq ι]

/-- Touching gives an old thing without entry a blank one. -/
theorem get?_pending_touch (p : Partition ι) (old k : Handle ι) :
    (p.touch old).pending.get? k =
      if old = k ∧ p.isConfirmed old = false then some ((p.pending.get? old).getD (.blank old))
      else p.pending.get? k := by
  unfold touch
  rw [isConfirmed]
  cases confirmed : p.confirmed.contains old with
  | true => simp
  | false =>
      cases pending : p.pending.contains old with
      | true =>
          obtain ⟨e, found⟩ := SortedMap.contains_iff.mp pending
          by_cases same : old = k
          · subst same
            simp [found]
          · simp [same]
      | false =>
          have absent := SortedMap.contains_eq_false_iff.mp pending
          by_cases same : old = k
          · subst same
            simp [absent, SortedMap.get?_insert_self]
          · simp [same, SortedMap.get?_insert_of_ne _ _ same]

theorem Sound.touch {p : Partition ι} (sound : p.Sound) (old : Handle ι) : (p.touch old).Sound := by
  have shape : p.touch old = { p with pending := (p.touch old).pending } := by
    unfold Partition.touch
    split <;> rfl
  rw [shape]
  apply sound.of_pending
  intro k e found
  rw [get?_pending_touch] at found
  split_ifs at found with fresh
  · obtain ⟨rfl, unconfirmed⟩ := fresh
    cases present : p.pending.get? old with
    | some e' =>
        rw [present, Option.getD_some, Option.some.injEq] at found
        subst found
        exact ⟨sound.pendingKey present, unconfirmed, sound.leader present, sound.unmerged present,
          fun t voted => sound.unclaimed present voted⟩
    | none =>
        rw [present, Option.getD_none, Option.some.injEq] at found
        subst found
        exact ⟨rfl, unconfirmed, MatchEntry.blank_leader old, rfl, fun t voted => nomatch voted⟩
  · exact ⟨sound.pendingKey found, sound.not_isConfirmed_of_pending found, sound.leader found,
      sound.unmerged found, fun t voted => sound.unclaimed found voted⟩

theorem Sound.modifyPending {p : Partition ι} (sound : p.Sound) (old : Handle ι)
    {f : MatchEntry ι → MatchEntry ι}
    (fits : ∀ e, p.pending.get? old = some e → (f e).old = e.old ∧ (f e).LeaderListed ∧
      (f e).merged = e.merged ∧ ∀ t, (f e).votes.contains t = true → p.isClaimed t = false) :
    (p.modifyPending old f).Sound := by
  apply sound.of_pending
  intro k e found
  rw [SortedMap.get?_modify] at found
  split_ifs at found with same
  · subst same
    obtain ⟨e', present, rfl⟩ := Option.map_eq_some_iff.mp found
    obtain ⟨key, leader, merged, free⟩ := fits e' present
    exact ⟨key.trans (sound.pendingKey present), sound.not_isConfirmed_of_pending present, leader,
      merged.trans (sound.unmerged present), free⟩
  · exact ⟨sound.pendingKey found, sound.not_isConfirmed_of_pending found, sound.leader found,
      sound.unmerged found, fun t voted => sound.unclaimed found voted⟩

/-- Taking votes back keeps a partition sound. -/
theorem Sound.retainVotes {p : Partition ι} (sound : p.Sound) (old : Handle ι) (keep : ι → Bool) :
    (p.modifyPending old (·.retainVotes keep)).Sound := by
  apply sound.modifyPending
  intro e found
  have standing := e.retainVotes_standing keep
  refine ⟨standing.old, (sound.leader found).retainVotes keep, standing.merged, ?_⟩
  intro t voted
  rw [MatchEntry.contains_retainVotes, Bool.and_eq_true] at voted
  exact sound.unclaimed found voted.1

theorem Sound.removeVote {p : Partition ι} (sound : p.Sound) (old : Handle ι) (new : ι) :
    (p.removeVote old new).Sound :=
  sound.retainVotes old (· ≠ new)

/-! ## Votes -/

@[simp]
theorem confirmed_vote (p : Partition ι) (old : Handle ι) (new : ι) :
    (p.vote old new).confirmed = p.confirmed := by
  unfold vote
  dsimp only
  split_ifs
  · rfl
  · exact confirmed_touch p old
  · exact confirmed_touch p old

@[simp]
theorem inverse_vote (p : Partition ι) (old : Handle ι) (new : ι) :
    (p.vote old new).inverse = p.inverse := by
  unfold vote
  dsimp only
  split_ifs
  · rfl
  · exact inverse_touch p old
  · exact inverse_touch p old

/-- What a vote makes of the pending entries: that of the old thing has one more vote if the vote
counts, and no other entry changes. -/
theorem get?_pending_vote (p : Partition ι) (old k : Handle ι) (new : ι) :
    (p.vote old new).pending.get? k =
      if old = k ∧ p.isConfirmed old = false then
        let e := (p.pending.get? old).getD (.blank old)
        some (if p.isClaimed new then e else (e.addVote? new).getD e)
      else p.pending.get? k := by
  unfold vote
  rw [isConfirmed]
  dsimp only
  rw [isClaimed_touch]
  cases confirmed : p.confirmed.contains old with
  | true => simp
  | false =>
      cases claimed : p.isClaimed new with
      | true => simp [get?_pending_touch, isConfirmed, confirmed]
      | false =>
          by_cases same : old = k
          · subst same
            simp [SortedMap.get?_modify, get?_pending_touch, isConfirmed, confirmed]
          · simp [SortedMap.get?_modify, get?_pending_touch, isConfirmed, confirmed, same]

theorem Sound.vote {p : Partition ι} (sound : p.Sound) (old : Handle ι) (new : ι) :
    (p.vote old new).Sound := by
  unfold Partition.vote
  dsimp only
  split_ifs with confirmed claimed
  · exact sound
  · exact sound.touch old
  · apply (sound.touch old).modifyPending
    intro e found
    unfold MatchEntry.addVote?
    split_ifs
    · exact ⟨rfl, (sound.touch old).leader found, rfl,
        fun t voted => (sound.touch old).unclaimed found voted⟩
    · rw [Option.getD_some]
      have standing := e.countVote_standing new
      have leader := ((sound.touch old).leader found).countVote new
      refine ⟨standing.old, leader, standing.merged, ?_⟩
      intro t voted
      rw [MatchEntry.contains_countVote, Bool.or_eq_true, decide_eq_true_eq] at voted
      rcases voted with rfl | voted
      · exact Bool.not_eq_true _ ▸ claimed
      · exact (sound.touch old).unclaimed found voted

omit [DecidableEq ι] in
@[simp]
theorem confirmed_setTarget (p : Partition ι) (old : Handle ι) (new : ι) :
    (p.setTarget old new).confirmed = p.confirmed := by
  unfold setTarget
  split
  · rfl
  · exact confirmed_touch p old

omit [DecidableEq ι] in
@[simp]
theorem inverse_setTarget (p : Partition ι) (old : Handle ι) (new : ι) :
    (p.setTarget old new).inverse = p.inverse := by
  unfold setTarget
  split
  · rfl
  · exact inverse_touch p old

theorem Sound.setTarget {p : Partition ι} (sound : p.Sound) (old : Handle ι) (new : ι) :
    (p.setTarget old new).Sound := by
  unfold Partition.setTarget
  split
  · exact sound
  · apply (sound.touch old).modifyPending
    intro e found
    have leader := (sound.touch old).leader found
    exact ⟨rfl, leader, rfl, fun t voted => (sound.touch old).unclaimed found voted⟩

/-! ## Confirming -/

section

variable (p : Partition ι) (old k : Handle ι) (entry : MatchEntry ι) (target t : ι)

/-- Settling takes the old thing out of the pending ones, and the target out of all tallies. -/
theorem get?_pending_settle :
    (p.settle old entry target).pending.get? k =
      if k = old then none else (p.pending.get? k).map (·.removeVote target) := by
  simp only [settle, SortedMap.get?_mapValues, SortedMap.get?_erase]
  split_ifs <;> rfl

theorem get?_confirmed_settle :
    (p.settle old entry target).confirmed.get? k =
      if old = k then some entry.withoutVotes else p.confirmed.get? k :=
  SortedMap.get?_insert p.confirmed old k entry.withoutVotes

theorem holder?_settle :
    (p.settle old entry target).holder? t = if target = t then some old else p.holder? t :=
  SortedMap.get?_insert p.inverse target t old

theorem isConfirmed_settle :
    (p.settle old entry target).isConfirmed k = (decide (old = k) || p.isConfirmed k) :=
  SortedMap.contains_insert p.confirmed old k entry.withoutVotes

theorem isClaimed_settle :
    (p.settle old entry target).isClaimed t = (decide (target = t) || p.isClaimed t) :=
  SortedMap.contains_insert p.inverse target t old

theorem target?_settle :
    (p.settle old entry target).target? k = if old = k then entry.target else p.target? k := by
  simp only [target?, get?_confirmed_settle]
  split_ifs <;> rfl

end

/-- Settling an entry with its target keeps a partition sound, if neither side was taken. -/
theorem Sound.settle {p : Partition ι} (sound : p.Sound) {old : Handle ι} {entry : MatchEntry ι}
    {target : ι} (key : entry.old = old) (fixed : entry.target = some target)
    (fresh : p.isConfirmed old = false) (free : p.isClaimed target = false) :
    (p.settle old entry target).Sound where
  pendingKey {k e} found := by
    rw [get?_pending_settle] at found
    split_ifs at found
    obtain ⟨e', present, rfl⟩ := Option.map_eq_some_iff.mp found
    exact (e'.retainVotes_standing _).old.trans (sound.pendingKey present)
  confirmedKey {k e} found := by
    rw [get?_confirmed_settle] at found
    split_ifs at found with same
    · rw [← Option.some.inj found, ← same]
      exact key
    · exact sound.confirmedKey found
  apart {k} confirmed := by
    rw [SortedMap.contains_eq_false_iff, get?_pending_settle]
    split_ifs with same
    · rfl
    · have other : old ≠ k := Ne.symm same
      rw [isConfirmed, SortedMap.contains, get?_confirmed_settle, if_neg other] at confirmed
      rw [SortedMap.contains_eq_false_iff.mp (sound.apart confirmed)]
      rfl
  settled {k e} found := by
    rw [get?_confirmed_settle] at found
    split_ifs at found
    · rw [← Option.some.inj found]
      exact ⟨target, fixed⟩
    · exact sound.settled found
  bare {k e} found := by
    rw [get?_confirmed_settle] at found
    split_ifs at found
    · rw [← Option.some.inj found]
      exact entry.withoutVotes_bare
    · exact sound.bare found
  holder_iff {k t} := by
    rw [holder?_settle, target?_settle, fixed]
    by_cases goal : target = t <;> by_cases same : old = k
    · simp only [goal, same, if_true]
    · -- the target is the new one, so no other thing can have been confirmed onto it
      simp only [goal, same, if_true, if_false, Option.some.injEq, false_iff]
      rw [← goal, ← sound.holder_iff, isClaimed_eq_false_iff.mp free]
      intro held
      cases held
    · -- the old thing was not confirmed, so it held nothing
      simp only [goal, same, if_true, if_false, Option.some.injEq, iff_false]
      rw [sound.holder_iff, ← same, target?_of_not_isConfirmed fresh]
      intro confirmed
      cases confirmed
    · simp only [goal, same, if_false]
      exact sound.holder_iff
  unclaimed {k e t} found voted := by
    rw [get?_pending_settle] at found
    split_ifs at found
    obtain ⟨e', present, rfl⟩ := Option.map_eq_some_iff.mp found
    rw [MatchEntry.removeVote, MatchEntry.contains_retainVotes, Bool.and_eq_true,
      decide_eq_true_eq] at voted
    rw [isClaimed_settle, sound.unclaimed present voted.1, Bool.or_false, decide_eq_false_iff_not]
    exact Ne.symm voted.2
  leader {k e} found := by
    rw [get?_pending_settle] at found
    split_ifs at found
    obtain ⟨e', present, rfl⟩ := Option.map_eq_some_iff.mp found
    exact (sound.leader present).retainVotes _
  unmerged {k e} found := by
    rw [get?_pending_settle] at found
    split_ifs at found
    obtain ⟨e', present, rfl⟩ := Option.map_eq_some_iff.mp found
    exact (e'.retainVotes_standing _).merged.trans (sound.unmerged present)

theorem extends_settle {p : Partition ι} {old : Handle ι} (entry : MatchEntry ι) (target : ι)
    (fresh : p.isConfirmed old = false) : p.Extends (p.settle old entry target) := by
  intro k t confirmed
  rw [target?_settle, if_neg]
  · exact confirmed
  · rintro rfl
    rw [target?_of_not_isConfirmed fresh] at confirmed
    cases confirmed

/-- The entry an old thing is confirmed with. -/
def entryFor (p : Partition ι) (old : Handle ι) (new : ι) : MatchEntry ι :=
  { (p.pending.get? old).getD (.blank old) with target := some new }

omit [DecidableEq ι] in
theorem Sound.old_entryFor {p : Partition ι} (sound : p.Sound) (old : Handle ι) (new : ι) :
    (p.entryFor old new).old = old := by
  unfold entryFor
  cases found : p.pending.get? old with
  | none => rfl
  | some e =>
      have key : e.old = old := sound.pendingKey found
      exact key

omit [DecidableEq ι] in
/-- A pair is not marked as compared when it is confirmed. -/
theorem Sound.merged_entryFor {p : Partition ι} (sound : p.Sound) (old : Handle ι) (new : ι) :
    (p.entryFor old new).merged = false := by
  unfold entryFor
  cases found : p.pending.get? old with
  | none => rfl
  | some e =>
      have unmerged : e.merged = false := sound.unmerged found
      exact unmerged

/-- Matching does nothing if a side is taken, and settles the pair otherwise. It is never
refused. -/
theorem tryMatch_eq (p : Partition ι) (old : Handle ι) (new : ι) :
    p.tryMatch old new = .ok (if p.isConfirmed old || p.isClaimed new then (false, p)
      else (true, p.settle old (p.entryFor old new) new)) := by
  unfold tryMatch
  split_ifs with taken
  · rfl
  · rw [Bool.or_eq_true, not_or, Bool.not_eq_true, Bool.not_eq_true] at taken
    obtain ⟨fresh, free⟩ := taken
    have unconfirmed : p.confirmed.contains old = false := fresh
    have entry : (p.setTarget old new).pending.get? old = some (p.entryFor old new) := by
      simp [setTarget, unconfirmed, SortedMap.get?_modify, get?_pending_touch, fresh, entryFor]
    have settled : (p.setTarget old new).settle old (p.entryFor old new) new =
        p.settle old (p.entryFor old new) new := by
      have pending : (p.setTarget old new).pending.erase old = p.pending.erase old := by
        apply SortedMap.ext_get?
        intro k
        rw [SortedMap.get?_erase, SortedMap.get?_erase]
        split_ifs with same
        · rfl
        · have other : old ≠ k := Ne.symm same
          simp [setTarget, unconfirmed, SortedMap.get?_modify, get?_pending_touch, other]
      unfold settle
      rw [pending, confirmed_setTarget, inverse_setTarget]
    have open_ : (p.setTarget old new).target? old = none := by
      rw [target?, confirmed_setTarget, isConfirmed_eq_false_iff.mp fresh]
      rfl
    have unheld : (p.setTarget old new).holder? new = none := by
      rw [holder?, inverse_setTarget]
      exact isClaimed_eq_false_iff.mp free
    have target : (p.entryFor old new).target = some new := rfl
    simp only [confirm, open_, entry, target, unheld, settled]

theorem Sound.tryMatch {p p' : Partition ι} (sound : p.Sound) {old : Handle ι} {new : ι}
    {done : Bool} (matched : p.tryMatch old new = .ok (done, p')) : p'.Sound := by
  rw [tryMatch_eq, Except.ok.injEq] at matched
  split_ifs at matched with taken
  · rw [← (Prod.mk.inj matched).2]
    exact sound
  · rw [Bool.or_eq_true, not_or, Bool.not_eq_true, Bool.not_eq_true] at taken
    rw [← (Prod.mk.inj matched).2]
    exact sound.settle (sound.old_entryFor old new) rfl taken.1 taken.2

/-- A confirmation that is not refused finds the pair confirmed, or settles the entry that has the
target. -/
theorem Sound.confirm_cases {p p' : Partition ι} (sound : p.Sound) {old : Handle ι} {target : ι}
    (confirmed : p.confirm old = .ok (target, p')) :
    p' = p ∨ ∃ entry, p.pending.get? old = some entry ∧ entry.target = some target ∧
      p.isConfirmed old = false ∧ p.isClaimed target = false ∧ p' = p.settle old entry target := by
  unfold confirm at confirmed
  split at confirmed
  · left
    rw [Except.ok.injEq] at confirmed
    exact (Prod.mk.inj confirmed).2.symm
  · right
    split at confirmed
    · cases confirmed
    · next entry found =>
      split at confirmed
      · cases confirmed
      · next goal fixed =>
        split at confirmed
        · cases confirmed
        · next unheld =>
          rw [Except.ok.injEq] at confirmed
          obtain ⟨rfl, rfl⟩ := Prod.mk.inj confirmed
          exact ⟨entry, found, fixed, sound.not_isConfirmed_of_pending found,
            isClaimed_eq_false_iff.mpr unheld, rfl⟩

/-! ## Marking compared pairs -/

omit [DecidableEq ι] in
/-- Marking a pair changes the mark of its entry and nothing else. -/
theorem markMerged?_eq_some_iff {p p' : Partition ι} {old : Handle ι} :
    p.markMerged? old = some p' ↔ ∃ e, p.confirmed.get? old = some e ∧ e.merged = false ∧
      p' = { p with confirmed := p.confirmed.insert old { e with merged := true } } := by
  unfold markMerged?
  cases found : p.confirmed.get? old with
  | none => simp
  | some e =>
      cases merged : e.merged with
      | true => simp [merged]
      | false =>
          simp only [merged, Bool.false_eq_true, if_false, Option.some.injEq]
          constructor
          · rintro rfl
            exact ⟨e, rfl, merged, rfl⟩
          · rintro ⟨e', rfl, -, rfl⟩
            rfl

/-- The partition after marking a pair, or as it was if that was not to be marked. -/
def marked (p : Partition ι) (old : Handle ι) : Partition ι := (p.markMerged? old).getD p

/-- Marking turns the entry of a pair into one that differs in its mark at most. -/
theorem get?_confirmed_marked (p : Partition ι) (old k : Handle ι) :
    (p.marked old).confirmed.get? k =
      if old = k then (p.confirmed.get? k).map ({ · with merged := true })
      else p.confirmed.get? k := by
  unfold marked
  cases marking : p.markMerged? old with
  | some p' =>
      obtain ⟨e, found, -, rfl⟩ := markMerged?_eq_some_iff.mp marking
      rw [Option.getD_some, SortedMap.get?_insert]
      split_ifs with same
      · rw [← same, found]
        rfl
      · rfl
  | none =>
      rw [Option.getD_none]
      split_ifs with same
      · subst same
        cases found : p.confirmed.get? old with
        | none => rfl
        | some e =>
            cases merged : e.merged with
            | true =>
                have same : { e with merged := true } = e := by
                  rw [← merged]
                exact congrArg some same.symm
            | false =>
                rw [markMerged?_eq_some_iff.mpr ⟨e, found, merged, rfl⟩] at marking
                cases marking
      · rfl

omit [DecidableEq ι] in
@[simp]
theorem pending_marked (p : Partition ι) (old : Handle ι) : (p.marked old).pending = p.pending := by
  unfold marked
  cases marking : p.markMerged? old with
  | some p' =>
      obtain ⟨e, -, -, rfl⟩ := markMerged?_eq_some_iff.mp marking
      rfl
  | none => rfl

omit [DecidableEq ι] in
@[simp]
theorem inverse_marked (p : Partition ι) (old : Handle ι) : (p.marked old).inverse = p.inverse := by
  unfold marked
  cases marking : p.markMerged? old with
  | some p' =>
      obtain ⟨e, -, -, rfl⟩ := markMerged?_eq_some_iff.mp marking
      rfl
  | none => rfl

/-- Every confirmed entry after marking comes from one before that differs in its mark at most. -/
theorem exists_of_get?_confirmed_marked {p : Partition ι} {old k : Handle ι} {e : MatchEntry ι}
    (found : (p.marked old).confirmed.get? k = some e) :
    ∃ e', p.confirmed.get? k = some e' ∧ (e = e' ∨ e = { e' with merged := true }) := by
  rw [get?_confirmed_marked] at found
  split_ifs at found
  · obtain ⟨e', present, rfl⟩ := Option.map_eq_some_iff.mp found
    exact ⟨e', present, .inr rfl⟩
  · exact ⟨e, found, .inl rfl⟩

@[simp]
theorem target?_marked (p : Partition ι) (old k : Handle ι) :
    (p.marked old).target? k = p.target? k := by
  rw [target?, get?_confirmed_marked, target?]
  split_ifs
  · cases p.confirmed.get? k <;> rfl
  · rfl

@[simp]
theorem isConfirmed_marked (p : Partition ι) (old k : Handle ι) :
    (p.marked old).isConfirmed k = p.isConfirmed k := by
  rw [isConfirmed, SortedMap.contains, get?_confirmed_marked, isConfirmed, SortedMap.contains]
  split_ifs
  · rw [Option.isSome_map]
  · rfl

theorem Sound.marked {p : Partition ι} (sound : p.Sound) (old : Handle ι) :
    (p.marked old).Sound where
  pendingKey {k e} found := by
    rw [pending_marked] at found
    exact sound.pendingKey found
  confirmedKey {k e} found := by
    obtain ⟨e', present, rfl | rfl⟩ := exists_of_get?_confirmed_marked found
    · exact sound.confirmedKey present
    · have key : e'.old = k := sound.confirmedKey present
      exact key
  apart {k} confirmed := by
    rw [isConfirmed_marked] at confirmed
    rw [pending_marked]
    exact sound.apart confirmed
  settled {k e} found := by
    obtain ⟨e', present, rfl | rfl⟩ := exists_of_get?_confirmed_marked found
    · exact sound.settled present
    · have target : ∃ t, e'.target = some t := sound.settled present
      exact target
  bare {k e} found := by
    obtain ⟨e', present, rfl | rfl⟩ := exists_of_get?_confirmed_marked found
    · exact sound.bare present
    · obtain ⟨votes, highest, highestVotes, secondVotes⟩ := sound.bare present
      exact ⟨votes, highest, highestVotes, secondVotes⟩
  holder_iff {k t} := by
    rw [holder?, inverse_marked, target?_marked]
    exact sound.holder_iff
  unclaimed {k e t} found voted := by
    rw [pending_marked] at found
    rw [isClaimed, inverse_marked]
    exact sound.unclaimed found voted
  leader {k e} found := by
    rw [pending_marked] at found
    exact sound.leader found
  unmerged {k e} found := by
    rw [pending_marked] at found
    exact sound.unmerged found

end Namesake.Partition
