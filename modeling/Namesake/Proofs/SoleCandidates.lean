import Mathlib.Data.List.Nodup
import Namesake.Merge.Expansion
import Namesake.Merge.NestedTypes

/-! # Candidates without rivals

Interfaces are paired by their sizes, and nested enums by the constants they share. Both go through
the new types once, keep one tentative answer, and give it up when a rival shows. In the end the
answer is the candidate that stands alone (`StandsAlone`): it is at one place of the list, and what
is at the other places is no rival. For interfaces a rival is whatever is not far off in size
(`mem_pairInterfaces_iff`), for enums whatever shares as many constants (`mem_pairNested_iff`).
-/

namespace Namesake

/-- An item stands at one place of a list, and what stands at the other places meets a condition. -/
def StandsAlone {α : Type} (l : List α) (a : α) (others : α → Prop) : Prop :=
  ∃ before after, l = before ++ a :: after ∧ ∀ b ∈ before ++ after, others b

section

variable {α : Type} {l l' : List α} {a : α}

theorem StandsAlone.mem {others : α → Prop} (alone : StandsAlone l a others) : a ∈ l := by
  obtain ⟨before, after, rfl, -⟩ := alone
  exact List.mem_append_right before List.mem_cons_self

/-- An item stands alone among those that pass a test exactly if it is all that passes. -/
theorem filter_eq_singleton_iff {test : α → Bool} :
    l.filter test = [a] ↔ test a = true ∧ StandsAlone l a (test · = false) := by
  simp only [List.filter_eq_cons_iff, List.filter_eq_nil_iff, StandsAlone, List.mem_append,
    Bool.not_eq_true]
  constructor
  · rintro ⟨before, after, rfl, passed, passes, failed⟩
    exact ⟨passes, before, after, rfl, fun b member => member.elim (passed b) (failed b)⟩
  · rintro ⟨passes, before, after, rfl, failed⟩
    exact ⟨before, after, rfl, fun b member => failed b (.inl member), passes,
      fun b member => failed b (.inr member)⟩

/-- What stands alone does so in any order. -/
theorem StandsAlone.perm {others : α → Prop} (order : l'.Perm l) (alone : StandsAlone l a others) :
    StandsAlone l' a others := by
  obtain ⟨before, after, rfl, apart⟩ := alone
  obtain ⟨before', after', rfl⟩ := List.append_of_mem
    (order.mem_iff.mpr (List.mem_append_right before List.mem_cons_self))
  have rest : (before' ++ after').Perm (before ++ after) :=
    ((List.perm_middle.symm.trans order).trans List.perm_middle).cons_inv
  exact ⟨before', after', rfl, fun b member => apart b (rest.mem_iff.mp member)⟩

/-- In a list without repetitions the other places are the other items. -/
theorem standsAlone_iff_of_nodup {others : α → Prop} (distinct : l.Nodup) :
    StandsAlone l a others ↔ a ∈ l ∧ ∀ b ∈ l, b ≠ a → others b := by
  constructor
  · intro alone
    refine ⟨alone.mem, ?_⟩
    obtain ⟨before, after, rfl, apart⟩ := alone
    intro b member differs
    rw [List.mem_append, List.mem_cons] at member
    exact apart b (List.mem_append.mpr (member.imp_right fun later => later.resolve_left differs))
  · rintro ⟨member, apart⟩
    obtain ⟨before, after, rfl⟩ := List.append_of_mem member
    have fresh : a ∉ before ++ after := (List.nodup_middle.mp distinct).notMem
    refine ⟨before, after, rfl, fun b other => ?_⟩
    refine apart b ?_ fun same => fresh (same ▸ other)
    rw [List.mem_append, List.mem_cons]
    exact (List.mem_append.mp other).imp_right .inr

end

/-! ## Interfaces of about the same size -/

/-- The interfaces that are close enough in size to be the answer, or to make it hard to tell. -/
def nearby (size : Nat) (sized : List (TypeId × Nat)) : List (TypeId × Nat) :=
  sized.filter fun e => distance size e.2 < ambiguousDistance

/-- Going through interfaces, one already found is the answer if none is nearby; with none found
yet, it is the only one nearby, if that is close. -/
theorem soleClose_eq_some_iff {size : Nat} {found : Option TypeId} {sized : List (TypeId × Nat)}
    {j : TypeId} : soleClose size found sized = some j ↔
      found = some j ∧ nearby size sized = [] ∨
        found = none ∧ ∃ k, nearby size sized = [(j, k)] ∧ distance size k ≤ closeDistance := by
  induction sized generalizing found with
  | nil => simp [soleClose, nearby]
  | cons first rest ih =>
      obtain ⟨i, other⟩ := first
      unfold soleClose
      by_cases close : distance size other ≤ closeDistance
      · have near : distance size other < ambiguousDistance := Nat.lt_of_le_of_lt close (by decide)
        have head : nearby size ((i, other) :: rest) = (i, other) :: nearby size rest := by
          simp [nearby, near]
        rw [if_pos close, head]
        cases found with
        | some before => simp
        | none => simp [ih, close]
      · rw [if_neg close]
        by_cases near : distance size other < ambiguousDistance
        · have head : nearby size ((i, other) :: rest) = (i, other) :: nearby size rest := by
            simp [nearby, near]
          rw [if_pos near, head]
          simp [close]
        · have head : nearby size ((i, other) :: rest) = nearby size rest := by
            simp [nearby, near]
          rw [if_neg near, ih, head]

/-- Next to an interface of three methods one of four is found; one of eight makes it hard to tell
wherever it stands, one of nine does not. -/
example : soleClose 3 none [(⟨0⟩, 9), (⟨1⟩, 4)] = some ⟨1⟩ ∧
    soleClose 3 none [(⟨0⟩, 8), (⟨1⟩, 4)] = none ∧
    soleClose 3 none [(⟨1⟩, 4), (⟨0⟩, 8)] = none := by
  decide

/-- Starting without one, the interface found is close in size, and all others are far off. -/
theorem soleClose_map_eq_some_iff {size : Nat} {sizeOf : TypeId → Nat} {candidates : List TypeId}
    {j : TypeId} : soleClose size none (candidates.map fun i => (i, sizeOf i)) = some j ↔
      distance size (sizeOf j) ≤ closeDistance ∧
        StandsAlone candidates j fun other => ambiguousDistance ≤ distance size (sizeOf other) := by
  have only (k : Nat) : nearby size (candidates.map fun i => (i, sizeOf i)) = [(j, k)] ↔
      sizeOf j = k ∧ distance size (sizeOf j) < ambiguousDistance ∧
        StandsAlone candidates j fun other => ambiguousDistance ≤ distance size (sizeOf other) := by
    rw [nearby, List.filter_map, List.map_eq_singleton_iff]
    simp only [Function.comp_def, Prod.mk.injEq, filter_eq_singleton_iff, decide_eq_true_eq,
      decide_eq_false_iff_not, Nat.not_lt]
    constructor
    · rintro ⟨i, alone, rfl, rfl⟩
      exact ⟨rfl, alone⟩
    · rintro ⟨rfl, alone⟩
      exact ⟨j, alone, rfl, rfl⟩
  rw [soleClose_eq_some_iff]
  constructor
  · rintro (⟨impossible, -⟩ | ⟨-, k, nearest, close⟩)
    · cases impossible
    · obtain ⟨rfl, -, alone⟩ := (only k).mp nearest
      exact ⟨close, alone⟩
  · rintro ⟨close, alone⟩
    have near : distance size (sizeOf j) < ambiguousDistance :=
      Nat.lt_of_le_of_lt close (by decide)
    exact .inr ⟨rfl, sizeOf j, (only _).mpr ⟨rfl, near, alone⟩, close⟩

namespace Context

variable (c : Context) (l : Ledger)

/-- By how many methods an old and a new type differ. -/
def sizeDistance (i j : TypeId) : Nat :=
  distance (c.old.program.type i).methods.length (c.new.program.type j).methods.length

/-- The interfaces of a new type that are not claimed. -/
def unclaimedInterfaces (n : TypeId) : List TypeId :=
  (c.new.program.interfaces n).filter fun j => !l.types.isClaimed j

/-- Of the unclaimed interfaces of a new type, one is within two methods of an old interface, and
whatever is listed at another place differs from that by six or more. -/
def IsSoleClose (n i j : TypeId) : Prop :=
  c.sizeDistance i j ≤ 2 ∧ StandsAlone (c.unclaimedInterfaces l n) j fun other =>
    6 ≤ c.sizeDistance i other

end Context

theorem mem_pairInterfaces_iff {c : Context} {l : Ledger} {o n : TypeId} {b : Ballot} :
    b ∈ pairInterfaces c l o n ↔ ∃ i j, b = .type i j ∧ i ∈ c.old.program.interfaces o ∧
      l.types.target? (.real i) = none ∧ c.IsSoleClose l n i j := by
  simp only [pairInterfaces, List.mem_filterMap, Option.ite_none_left_eq_some,
    Option.map_eq_some_iff, soleClose_map_eq_some_iff, Bool.not_eq_true,
    Option.isSome_eq_false_iff, Option.isNone_iff_eq_none]
  constructor
  · rintro ⟨i, listed, unconfirmed, j, sole, rfl⟩
    exact ⟨i, j, rfl, listed, unconfirmed, sole⟩
  · rintro ⟨i, j, rfl, listed, unconfirmed, sole⟩
    exact ⟨i, listed, unconfirmed, j, sole, rfl⟩

/-! ## Enums by the constants they share -/

section

variable {new : Program} {old : TypeEntry} {candidates : List TypeId} {n : TypeId}

/-- Whether a type is an enum that shares as many constants with an old one as another type. -/
def rivals (new : Program) (old : TypeEntry) (n other : TypeId) : Bool :=
  (new.type other).isEnum &&
    decide (sharedConstants old (new.type n) ≤ sharedConstants old (new.type other))

theorem rivals_eq_false_iff {other : TypeId} : rivals new old n other = false ↔
    ((new.type other).isEnum = true →
      sharedConstants old (new.type other) < sharedConstants old (new.type n)) := by
  cases enum : (new.type other).isEnum <;> simp [rivals, enum]

/-- Of some new types, one is an enum that shares constants with an old one, and whatever enum is
listed at another place shares fewer. -/
structure IsBestEnum (new : Program) (old : TypeEntry) (candidates : List TypeId)
    (n : TypeId) : Prop where
  enum : (new.type n).isEnum = true
  shares : 0 < sharedConstants old (new.type n)
  alone : StandsAlone candidates n fun other => (new.type other).isEnum = true →
    sharedConstants old (new.type other) < sharedConstants old (new.type n)

/-- A type that is behind another one is none of its rivals. -/
theorem filter_rivals_cons {m : TypeId} {rest : List TypeId}
    (behind : (new.type m).isEnum = true →
      sharedConstants old (new.type m) < sharedConstants old (new.type n)) :
    (m :: rest).filter (rivals new old n) = rest.filter (rivals new old n) :=
  List.filter_cons_of_neg (Bool.eq_false_iff.mp (rivals_eq_false_iff.mpr behind))

/-- Going through types, the best enum so far is the answer if all others share fewer constants than
it; else it is the one that shares more, if it has no rival but itself. -/
theorem bestEnum_eq_some_iff {best : Option TypeId} {shared : Nat} :
    bestEnum new old best shared candidates = some n ↔
      (best = some n ∧ ∀ m ∈ candidates, (new.type m).isEnum = true →
        sharedConstants old (new.type m) < shared) ∨
      (shared < sharedConstants old (new.type n) ∧ candidates.filter (rivals new old n) = [n]) := by
  induction candidates generalizing best shared with
  | nil => simp [bestEnum]
  | cons m rest ih =>
      -- what does not exceed the best so far is no rival of what does
      have passed (within : (new.type m).isEnum = true →
          sharedConstants old (new.type m) ≤ shared) :
          (shared < sharedConstants old (new.type n) ∧
              (m :: rest).filter (rivals new old n) = [n]) ↔
            (shared < sharedConstants old (new.type n) ∧ rest.filter (rivals new old n) = [n]) :=
        and_congr_right fun more => by
          rw [filter_rivals_cons fun enum => Nat.lt_of_le_of_lt (within enum) more]
      unfold bestEnum
      simp only [List.forall_mem_cons]
      by_cases enum : (new.type m).isEnum = true
      · simp only [enum, Bool.not_true, Bool.false_eq_true, if_false, true_implies]
        by_cases more : shared < sharedConstants old (new.type m)
        · rw [if_pos more, ih]
          by_cases lower : sharedConstants old (new.type m) < sharedConstants old (new.type n)
          · have differ : m ≠ n := by
              rintro rfl
              exact Nat.lt_irrefl _ lower
            simp [filter_rivals_cons fun _ => lower, Nat.lt_asymm more, lower,
              Nat.lt_trans more lower, differ]
          · have ahead : rivals new old n m = true := by
              simpa [rivals, enum] using lower
            simp only [List.filter_cons_of_pos ahead, Nat.lt_asymm more, lower, false_and,
              and_false, or_false, false_or, Option.some.injEq, List.cons.injEq,
              List.filter_eq_nil_iff, Bool.not_eq_true, rivals_eq_false_iff]
            constructor
            · rintro ⟨rfl, apart⟩
              exact ⟨more, rfl, apart⟩
            · rintro ⟨-, rfl, apart⟩
              exact ⟨rfl, apart⟩
        · rw [if_neg more, passed fun _ => Nat.le_of_not_lt more]
          by_cases tie : sharedConstants old (new.type m) = shared
          · rw [if_pos tie, ih]
            simp [tie]
          · have lower : sharedConstants old (new.type m) < shared := by omega
            rw [if_neg tie, ih]
            simp [lower]
      · rw [passed fun enum' => absurd enum' enum]
        simp [enum, ih]

theorem isBestEnum_iff : IsBestEnum new old candidates n ↔
    0 < sharedConstants old (new.type n) ∧ candidates.filter (rivals new old n) = [n] := by
  simp only [filter_eq_singleton_iff, rivals_eq_false_iff]
  constructor
  · intro best
    exact ⟨best.shares, by simp [rivals, best.enum], best.alone⟩
  · rintro ⟨shares, own, alone⟩
    exact ⟨(Bool.and_eq_true_iff.mp own).1, shares, alone⟩

/-- Starting without one, the answer is the best enum. -/
theorem bestEnum_none_eq_some_iff :
    bestEnum new old none 0 candidates = some n ↔ IsBestEnum new old candidates n := by
  rw [bestEnum_eq_some_iff, isBestEnum_iff]
  simp

theorem IsBestEnum.perm {candidates' : List TypeId} (order : candidates'.Perm candidates)
    (best : IsBestEnum new old candidates n) : IsBestEnum new old candidates' n where
  enum := best.enum
  shares := best.shares
  alone := best.alone.perm order

/-- In a list without repetitions, the best enum shares more constants than any other. -/
theorem isBestEnum_iff_of_nodup (distinct : candidates.Nodup) :
    IsBestEnum new old candidates n ↔ n ∈ candidates ∧ (new.type n).isEnum = true ∧
      0 < sharedConstants old (new.type n) ∧ ∀ other ∈ candidates, other ≠ n →
        (new.type other).isEnum = true →
          sharedConstants old (new.type other) < sharedConstants old (new.type n) := by
  constructor
  · intro best
    have alone := (standsAlone_iff_of_nodup distinct).mp best.alone
    exact ⟨alone.1, best.enum, best.shares, alone.2⟩
  · rintro ⟨listed, enum, shares, apart⟩
    exact ⟨enum, shares, (standsAlone_iff_of_nodup distinct).mpr ⟨listed, apart⟩⟩

/-- Two enums of some new types share equally many constants with an old one, and no enum shares
more. -/
structure IsTied (new : Program) (old : TypeEntry) (candidates : List TypeId)
    (first second : TypeId) (rest : List TypeId) : Prop where
  order : candidates.Perm (first :: second :: rest)
  enum : (new.type first).isEnum = true
  enum' : (new.type second).isEnum = true
  same : sharedConstants old (new.type first) = sharedConstants old (new.type second)
  most : ∀ m ∈ rest, (new.type m).isEnum = true →
    sharedConstants old (new.type m) ≤ sharedConstants old (new.type first)

/-- Two enums that share the most constants leave no best one. -/
theorem IsTied.not_isBestEnum {first second : TypeId} {rest : List TypeId}
    (tied : IsTied new old candidates first second rest) : ¬ IsBestEnum new old candidates n := by
  intro best
  have within : sharedConstants old (new.type n) ≤ sharedConstants old (new.type first) := by
    have member := tied.order.mem_iff.mp best.alone.mem
    simp only [List.mem_cons] at member
    rcases member with rfl | rfl | later
    · exact Nat.le_refl _
    · exact Nat.le_of_eq tied.same.symm
    · exact tied.most n later best.enum
  -- both of them are rivals of whatever is said to be best
  have rival : rivals new old n first = true := by
    simp [rivals, tied.enum, within]
  have rival' : rivals new old n second = true := by
    simp [rivals, tied.enum', tied.same ▸ within]
  have number := (tied.order.filter (rivals new old n)).length_eq
  rw [(isBestEnum_iff.mp best).2, List.filter_cons_of_pos rival, List.filter_cons_of_pos rival']
    at number
  simp at number

end

/-! ## Nested types -/

/-- The anonymous types of a list. -/
def Program.anonymousOf (p : Program) (ts : List TypeId) : List TypeId :=
  ts.filter fun t => (p.type t).isAnonymous

/-- The named types of a list. -/
def Program.namedOf (p : Program) (ts : List TypeId) : List TypeId :=
  ts.filter fun t => !(p.type t).isAnonymous

/-- There is one named type on each side. -/
def Context.HasNamedPair (c : Context) (olds news : List TypeId) : Prop :=
  ∃ o n, c.old.program.namedOf olds = [o] ∧ c.new.program.namedOf news = [n]

/-- Nested types are paired if they are the only anonymous ones, or the only named ones; without a
pair of only named ones, also an enum with the best one for it. -/
theorem mem_pairNested_iff {c : Context} {l : Ledger} {olds news : List TypeId} {o n : TypeId} :
    (o, n) ∈ pairNested c l olds news ↔
      (c.old.program.anonymousOf olds = [o] ∧ c.new.program.anonymousOf news = [n]) ∨
      (c.old.program.namedOf olds = [o] ∧ c.new.program.namedOf news = [n]) ∨
      (¬ c.HasNamedPair olds news ∧ o ∈ c.old.program.namedOf olds ∧
        (c.old.program.type o).isEnum = true ∧ l.types.target? (.real o) = none ∧
        IsBestEnum c.new.program (c.old.program.type o) (c.new.program.namedOf news) n) := by
  have parts (p : Program) (ts : List TypeId) : (ts.partition fun t => (p.type t).isAnonymous) =
      (p.anonymousOf ts, p.namedOf ts) := List.partition_eq_filter_filter ..
  unfold pairNested
  simp only [parts, List.mem_append]
  refine or_congr ?_ ?_
  · split
    · next o' n' alone alone' => simp [alone, alone', eq_comm]
    · next several => simpa using fun alone alone' => several o n alone alone'
  · split
    · next o' n' alone alone' =>
      have pair : c.HasNamedPair olds news := ⟨o', n', alone, alone'⟩
      simp only [alone, alone', pair, not_true_eq_false, false_and, or_false, List.mem_singleton,
        Prod.mk.injEq, List.cons.injEq, and_true]
      exact and_congr eq_comm eq_comm
    · next several =>
      have unpaired : ¬ c.HasNamedPair olds news := by
        rintro ⟨o', n', alone, alone'⟩
        exact several o' n' alone alone'
      have apart : ¬ (c.old.program.namedOf olds = [o] ∧ c.new.program.namedOf news = [n]) :=
        fun both => several o n both.1 both.2
      simp only [unpaired, apart, false_or, not_false_eq_true, true_and, List.mem_filterMap,
        Option.ite_none_left_eq_some, Option.map_eq_some_iff, bestEnum_none_eq_some_iff,
        Bool.not_eq_true, Bool.or_eq_false_iff, Bool.not_eq_false', Option.isSome_eq_false_iff,
        Option.isNone_iff_eq_none, Prod.mk.injEq]
      constructor
      · rintro ⟨o, named, ⟨enum, unconfirmed⟩, n, best, rfl, rfl⟩
        exact ⟨named, enum, unconfirmed, best⟩
      · rintro ⟨named, enum, unconfirmed, best⟩
        exact ⟨o, named, ⟨enum, unconfirmed⟩, n, best, rfl, rfl⟩

end Namesake
