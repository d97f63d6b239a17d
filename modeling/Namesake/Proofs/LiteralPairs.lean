import Namesake.Proofs.Reachable
import Namesake.Proofs.Seeding
import Namesake.Proofs.SoleOwners

/-! # Types that share text constants

A text constant is a type's own if no other type of the program has it, and an old and a new type
share one if it is each one's own. Before counting who claims a new type, the pass drops the old
types that are torn between several, and with them what they say about the types they are torn
between. So it confirms an old type onto the only one it shares constants with, if that is the only
one of no other old type (`literalPairs_eq_some_iff`). Where no torn type shares a constant with the
new one, these are the pairs that correspond one to one, and in general those are the pairs
confirmed both ways (`Pass.literals_confirms_one_to_one`). Next to a torn type the pass confirms a
pair although the new type shares a constant with another old type as well, and the other way round
it does not confirm this pair (`Pass.literals_confirms_contradicted`).
-/

namespace Namesake

/-! ## Whose constants they are -/

namespace Program

/-- A type has a method with the text constant. -/
def HasLiteral (p : Program) (t : TypeId) (text : String) : Prop :=
  p.HasType t ∧ ∃ m ∈ (p.type t).methods, text ∈ p.literalsOf m

/-- A text constant is a type's own: the type has it, and no other one does. -/
def OwnsLiteral (p : Program) (t : TypeId) (text : String) : Prop :=
  p.HasLiteral t text ∧ ∀ other, p.HasLiteral other text → other = t

variable {p : Program} {t : TypeId} {text : String}

theorem typeLiterals_eq_some_iff : p.typeLiterals.get? text = some t ↔ p.OwnsLiteral t text := by
  have listed (other : TypeId) : (text, other) ∈ (p.typeIds.flatMap fun t =>
      (p.type t).methods.flatMap fun m => (p.literalsOf m).map fun text => (text, t)) ↔
      p.HasLiteral other text := by
    simp only [List.mem_flatMap, List.mem_map, Prod.mk.injEq, mem_typeIds]
    constructor
    · rintro ⟨t, present, m, declared, text, inside, rfl, rfl⟩
      exact ⟨present, m, declared, inside⟩
    · rintro ⟨present, m, declared, inside⟩
      exact ⟨other, present, m, declared, text, inside, rfl, rfl⟩
  rw [typeLiterals, get?_soleOwners_eq_some_iff_alone]
  simp only [listed, OwnsLiteral]

end Program

/-! ## Which types share them -/

section

variable (old new : Program)

/-- An old and a new type share a text constant that is each one's own. -/
def SharesLiteral (o n : TypeId) : Prop := ∃ text, old.OwnsLiteral o text ∧ new.OwnsLiteral n text

/-- A type shares text constants with one type only. -/
def OnlyShares (o n : TypeId) : Prop := ∀ m, SharesLiteral old new o m ↔ m = n

/-- An old type shares text constants with one new type only, and no other old type with that one
only. -/
structure SoleClaim (o n : TypeId) : Prop where
  only : OnlyShares old new o n
  alone : ∀ o', OnlyShares old new o' n → o' = o

/-- A type shares text constants with several types. -/
def IsTorn (o : TypeId) : Prop :=
  ∃ n m, SharesLiteral old new o n ∧ SharesLiteral old new o m ∧ n ≠ m

/-- Two types correspond one to one: they share a text constant, and every constant that is one
type's own in both programs, and belongs to either of the two, belongs to the other. -/
structure CorrespondOneToOne (o n : TypeId) : Prop where
  shared : SharesLiteral old new o n
  toNew : ∀ text t, old.OwnsLiteral o text → new.OwnsLiteral t text → new.OwnsLiteral n text
  toOld : ∀ text t, old.OwnsLiteral t text → new.OwnsLiteral n text → old.OwnsLiteral o text

end

variable {old new : Program} {o n : TypeId}

theorem Program.OwnsLiteral.unique {p : Program} {t t' : TypeId} {text : String}
    (own : p.OwnsLiteral t text) (own' : p.OwnsLiteral t' text) : t = t' :=
  own'.2 t own.1

theorem SharesLiteral.symm (shared : SharesLiteral old new o n) : SharesLiteral new old n o := by
  obtain ⟨text, own, own'⟩ := shared
  exact ⟨text, own', own⟩

theorem OnlyShares.shares (only : OnlyShares old new o n) : SharesLiteral old new o n :=
  (only n).mpr rfl

/-- What is not torn shares constants with one type only, if it shares any. -/
theorem SharesLiteral.onlyShares (shared : SharesLiteral old new o n)
    (whole : ¬ IsTorn old new o) : OnlyShares old new o n := by
  intro m
  constructor
  · intro shared'
    by_contra differ
    exact whole ⟨m, n, shared', shared, differ⟩
  · rintro rfl
    exact shared

theorem OnlyShares.not_isTorn (only : OnlyShares old new o n) : ¬ IsTorn old new o := by
  rintro ⟨m, m', shared, shared', differ⟩
  exact differ (((only m).mp shared).trans ((only m').mp shared').symm)

theorem CorrespondOneToOne.symm (correspond : CorrespondOneToOne old new o n) :
    CorrespondOneToOne new old n o where
  shared := correspond.shared.symm
  toNew text t own own' := correspond.toOld text t own' own
  toOld text t own own' := correspond.toNew text t own' own

/-- A type shares no constants with a third one if it corresponds one to one. -/
theorem CorrespondOneToOne.onlyShares (correspond : CorrespondOneToOne old new o n) :
    OnlyShares old new o n := by
  intro m
  constructor
  · rintro ⟨text, own, own'⟩
    exact own'.unique (correspond.toNew text m own own')
  · rintro rfl
    exact correspond.shared

/-- Types correspond one to one exactly if neither shares constants with a third one. -/
theorem correspondOneToOne_iff :
    CorrespondOneToOne old new o n ↔ OnlyShares old new o n ∧ OnlyShares new old n o := by
  constructor
  · intro correspond
    exact ⟨correspond.onlyShares, correspond.symm.onlyShares⟩
  · rintro ⟨onlyNew, onlyOld⟩
    refine ⟨onlyNew.shares, ?_, ?_⟩
    · intro text t own own'
      obtain rfl := (onlyNew t).mp ⟨text, own, own'⟩
      exact own'
    · intro text t own own'
      obtain rfl := (onlyOld t).mp ⟨text, own', own⟩
      exact own

/-- Types that correspond one to one claim one another. -/
theorem correspondOneToOne_iff_soleClaim :
    CorrespondOneToOne old new o n ↔ SoleClaim old new o n ∧ SoleClaim new old n o := by
  rw [correspondOneToOne_iff]
  constructor
  · rintro ⟨onlyNew, onlyOld⟩
    refine ⟨⟨onlyNew, ?_⟩, ⟨onlyOld, ?_⟩⟩
    · intro o' onlyNew'
      exact (onlyOld o').mp onlyNew'.shares.symm
    · intro n' onlyOld'
      exact (onlyNew n').mp onlyOld'.shares.symm
  · rintro ⟨claim, claim'⟩
    exact ⟨claim.only, claim'.only⟩

/-- Where no torn type shares a constant with it, a new type that is claimed corresponds one to
one: all types it shares constants with would claim it. -/
theorem SoleClaim.correspondOneToOne (claim : SoleClaim old new o n)
    (whole : ∀ o', SharesLiteral old new o' n → ¬ IsTorn old new o') :
    CorrespondOneToOne old new o n := by
  refine correspondOneToOne_iff.mpr ⟨claim.only, claim.only.shares.symm.onlyShares ?_⟩
  rintro ⟨o₁, o₂, shared₁, shared₂, differ⟩
  have claim₁ : o₁ = o := claim.alone o₁ (shared₁.symm.onlyShares (whole o₁ shared₁.symm))
  have claim₂ : o₂ = o := claim.alone o₂ (shared₂.symm.onlyShares (whole o₂ shared₂.symm))
  exact differ (claim₁.trans claim₂.symm)

/-! ## The pairs of the pass -/

/-- An old type is paired with the new one of its claim. -/
theorem literalPairs_eq_some_iff :
    (literalPairs old new).get? o = some n ↔ SoleClaim old new o n := by
  unfold literalPairs
  extract_lets partners pairs
  have sole (o n : TypeId) : pairs.get? o = some n ↔ OnlyShares old new o n := by
    rw [get?_soleOwners_eq_some_iff]
    refine forall_congr' fun m => iff_congr ?_ .rfl
    simp only [List.mem_filterMap, Option.map_eq_some_iff, Prod.mk.injEq, Prod.exists,
      SortedMap.mem_toList, Program.typeLiterals_eq_some_iff, partners]
    constructor
    · rintro ⟨text, o, own, n, own', rfl, rfl⟩
      exact ⟨text, own, own'⟩
    · rintro ⟨text, own, own'⟩
      exact ⟨text, o, own, m, own', rfl, rfl⟩
  have claimed (only : OnlyShares old new o n) :
      (pairs.values.count n == 1) = true ↔ ∀ o', OnlyShares old new o' n → o' = o := by
    rw [beq_iff_eq, SortedMap.count_values_eq_one_iff ((sole o n).mpr only)]
    simp only [sole]
  rw [SortedMap.get?_filter, Option.filter_eq_some_iff, sole]
  constructor
  · rintro ⟨only, once⟩
    exact ⟨only, (claimed only).mp once⟩
  · rintro ⟨only, alone⟩
    exact ⟨only, (claimed only).mpr alone⟩

namespace Pass

/-- From an empty ledger the pass confirms all its pairs and nothing else. -/
theorem literals_confirms_claims (c : Context) (count : Nat) :
    ∃ s, Pass.literals.run c ⟨∅, count⟩ = .ok () s ∧ ∀ k n, s.ledger.types.target? k = some n ↔
      ∃ o, k = .real o ∧ SoleClaim c.old.program c.new.program o n := by
  let pairs : List (Handle TypeId × TypeId) :=
    (literalPairs c.old.program c.new.program).toList.map fun e => (.real e.1, e.2)
  have mem_pairs (k : Handle TypeId) (n : TypeId) :
      (k, n) ∈ pairs ↔ ∃ o, k = .real o ∧ SoleClaim c.old.program c.new.program o n := by
    simp only [pairs, List.mem_map, Prod.exists, Prod.mk.injEq, SortedMap.mem_toList,
      literalPairs_eq_some_iff]
    constructor
    · rintro ⟨o, n, claim, rfl, rfl⟩
      exact ⟨o, rfl, claim⟩
    · rintro ⟨o, rfl, claim⟩
      exact ⟨o, n, claim, rfl, rfl⟩
  have apart : pairs.Pairwise fun a b => a.1 ≠ b.1 ∧ a.2 ≠ b.2 := by
    rw [List.pairwise_map]
    refine (SortedMap.sorted _).imp_of_mem ?_
    rintro ⟨o, n⟩ ⟨o', n'⟩ listed listed' sorted
    have differ : o ≠ o' := KeyOrder.ne_of_before sorted
    refine ⟨fun same => differ (Handle.real.inj same), ?_⟩
    rintro rfl
    rw [SortedMap.mem_toList, literalPairs_eq_some_iff] at listed listed'
    exact differ (listed'.alone o listed.only)
  have plan : Pass.literals.plan? c (∅ : Ledger) =
      some (pairs.map fun e => .confirmType e.1 e.2) := by
    rw [List.map_map]
    rfl
  refine ⟨_, run_of_plan? plan, ?_⟩
  intro k n
  rw [← mem_pairs]
  constructor
  · intro confirmed
    exact (mem_pairs_of_target? confirmed).resolve_left nofun
  · intro listed
    exact target?_of_mem_pairs apart (fun _ _ => rfl) (k, n) listed

/-! ## Both ways -/

/-- **Matching by text constants is one to one, but for torn types.** The pass always succeeds, and
from an empty ledger it confirms exactly the sole claims. The pairs that correspond one to one are
those that are confirmed whichever program is the old one. A run confirms no others onto a new type
that no torn type shares a constant with; and where the same holds of the old type, the run with the
programs exchanged confirms the pair exactly if this one does. -/
theorem literals_confirms_one_to_one (old new : Program) (names names' : MappingSet)
    (settings settings' : MergeSettings) (count count' : Nat) :
    let c := Context.of old names new settings
    let d := Context.of new names' old settings'
    ∃ s t, Pass.literals.run c ⟨∅, count⟩ = .ok () s ∧ Pass.literals.run d ⟨∅, count'⟩ = .ok () t ∧
      (∀ k n, s.ledger.types.target? k = some n ↔ ∃ o, k = .real o ∧ SoleClaim old new o n) ∧
      (∀ o n, CorrespondOneToOne old new o n ↔ s.ledger.types.target? (.real o) = some n ∧
        t.ledger.types.target? (.real n) = some o) ∧
      ∀ o n, (∀ o', SharesLiteral old new o' n → ¬ IsTorn old new o') →
        (s.ledger.types.target? (.real o) = some n ↔ CorrespondOneToOne old new o n) ∧
        ((∀ n', SharesLiteral new old n' o → ¬ IsTorn new old n') →
          (s.ledger.types.target? (.real o) = some n ↔
            t.ledger.types.target? (.real n) = some o)) := by
  intro c d
  obtain ⟨s, done, confirms⟩ := literals_confirms_claims c count
  obtain ⟨t, done', confirms'⟩ := literals_confirms_claims d count'
  have pairs (o n : TypeId) :
      s.ledger.types.target? (.real o) = some n ↔ SoleClaim old new o n := by
    simp only [confirms, Handle.real.injEq, exists_eq_left']
    exact .rfl
  have pairs' (o n : TypeId) :
      t.ledger.types.target? (.real n) = some o ↔ SoleClaim new old n o := by
    simp only [confirms', Handle.real.injEq, exists_eq_left']
    exact .rfl
  refine ⟨s, t, done, done', confirms, ?_, ?_⟩
  · intro o n
    rw [pairs, pairs', correspondOneToOne_iff_soleClaim]
  · intro o n whole
    rw [pairs, pairs']
    have here : SoleClaim old new o n ↔ CorrespondOneToOne old new o n := by
      constructor
      · intro claim
        exact claim.correspondOneToOne whole
      · intro correspond
        exact (correspondOneToOne_iff_soleClaim.mp correspond).1
    refine ⟨here, fun whole' => ?_⟩
    rw [here]
    constructor
    · intro correspond
      exact (correspondOneToOne_iff_soleClaim.mp correspond).2
    · intro claim
      exact (claim.correspondOneToOne whole').symm

end Pass

/-! ### A torn type -/

/-- Two classes with a method each that gives some texts. -/
def Program.telling (first second : String) (texts texts' : List String) : Program where
  types := [{ name := first, kind := .plain, superclass := none, interfaces := [],
              signature := none, enumConstants := [], methods := [⟨0⟩], fields := [] },
            { name := second, kind := .plain, superclass := none, interfaces := [],
              signature := none, enumConstants := [], methods := [⟨1⟩], fields := [] }]
  methods := [(⟨0⟩, texts), (⟨1⟩, texts')].map fun (owner, texts) =>
    { name := "m", descriptor := "()Ljava/lang/String;", isStatic := false, isSynthetic := false,
      signature := ⟨[], .class "java/lang/String" []⟩,
      body := some (texts.map fun text => .returnValue (some (.stringConstant text))), owner }
  fields := []
  byName := .ofList [(first, ⟨0⟩), (second, ⟨1⟩)]

/-- A class whose texts are parted among two. -/
def Program.beforeParting : Program := .telling "a" "b" ["one", "two"] ["three"]

/-- One of the two classes has a text of another class as well. -/
def Program.afterParting : Program := .telling "x" "y" ["one", "three"] ["two"]

namespace Pass

/-- **Next to a torn type a pair is confirmed that is contradicted.** The text `one` is told by `a`
alone and by `x` alone, and still `b` is confirmed onto `x`, for the text `three`: as `a` is torn
between `x` and `y`, what it says about `x` is dropped. With the programs exchanged, `x` is torn
between `a` and `b`, and is confirmed onto neither. -/
theorem literals_confirms_contradicted :
    let old := Program.beforeParting
    let new := Program.afterParting
    let c := Context.of old ∅ new .default
    let d := Context.of new ∅ old .default
    old.validate = .ok () ∧ new.validate = .ok () ∧
      old.OwnsLiteral ⟨0⟩ "one" ∧ new.OwnsLiteral ⟨0⟩ "one" ∧
      ¬ CorrespondOneToOne old new ⟨1⟩ ⟨0⟩ ∧
      ∃ s t, Pass.literals.run c .initial = .ok () s ∧ Pass.literals.run d .initial = .ok () t ∧
        s.ledger.types.target? (.real ⟨1⟩) = some ⟨0⟩ ∧
        t.ledger.types.target? (.real ⟨0⟩) = none := by
  intro old new c d
  have own : old.OwnsLiteral ⟨0⟩ "one" := Program.typeLiterals_eq_some_iff.mp (by decide +kernel)
  have own' : new.OwnsLiteral ⟨0⟩ "one" := Program.typeLiterals_eq_some_iff.mp (by decide +kernel)
  have contradicted : ¬ CorrespondOneToOne old new ⟨1⟩ ⟨0⟩ := by
    intro correspond
    exact absurd (own.unique (correspond.toOld "one" ⟨0⟩ own own')) (by decide)
  have claim : SoleClaim old new ⟨1⟩ ⟨0⟩ := literalPairs_eq_some_iff.mp (by decide +kernel)
  have unpaired : (literalPairs new old).get? ⟨0⟩ = none := by decide +kernel
  obtain ⟨s, done, confirms⟩ := literals_confirms_claims c 0
  obtain ⟨t, done', confirms'⟩ := literals_confirms_claims d 0
  refine ⟨rfl, rfl, own, own', contradicted, s, t, done, done',
    (confirms _ _).mpr ⟨⟨1⟩, rfl, claim⟩, ?_⟩
  rw [Option.eq_none_iff_forall_ne_some]
  intro n confirmed
  obtain ⟨o, same, claim'⟩ := (confirms' _ n).mp confirmed
  obtain rfl := Handle.real.inj same
  have paired : (literalPairs new old).get? ⟨0⟩ = some n := literalPairs_eq_some_iff.mpr claim'
  rw [unpaired] at paired
  cases paired

/-- Classes that have kept their texts are confirmed both ways, whatever they have in common with
others. -/
theorem literals_confirms_one_to_one_of_kept :
    let old := Program.telling "a" "b" ["one", "also", "common"] ["two", "common"]
    let new := Program.telling "x" "y" ["two"] ["also", "one", "common"]
    (∀ o', SharesLiteral old new o' ⟨1⟩ → ¬ IsTorn old new o') ∧
      (∀ n', SharesLiteral new old n' ⟨0⟩ → ¬ IsTorn new old n') ∧
      CorrespondOneToOne old new ⟨0⟩ ⟨1⟩ ∧
      ∃ s t, Pass.literals.run (.of old ∅ new .default) .initial = .ok () s ∧
        Pass.literals.run (.of new ∅ old .default) .initial = .ok () t ∧
        s.ledger.types.target? (.real ⟨0⟩) = some ⟨1⟩ ∧
        t.ledger.types.target? (.real ⟨1⟩) = some ⟨0⟩ := by
  intro old new
  have claim : SoleClaim old new ⟨0⟩ ⟨1⟩ := literalPairs_eq_some_iff.mp (by decide +kernel)
  have claim' : SoleClaim new old ⟨1⟩ ⟨0⟩ := literalPairs_eq_some_iff.mp (by decide +kernel)
  have whole : ∀ o', SharesLiteral old new o' ⟨1⟩ → ¬ IsTorn old new o' := by
    intro o' shared
    obtain rfl := (claim'.only o').mp shared.symm
    exact claim.only.not_isTorn
  have whole' : ∀ n', SharesLiteral new old n' ⟨0⟩ → ¬ IsTorn new old n' := by
    intro n' shared
    obtain rfl := (claim.only n').mp shared.symm
    exact claim'.only.not_isTorn
  obtain ⟨s, t, done, done', claims, -, settled⟩ :=
    literals_confirms_one_to_one old new ∅ ∅ .default .default 0 0
  have confirmed := (claims (.real ⟨0⟩) ⟨1⟩).mpr ⟨⟨0⟩, rfl, claim⟩
  obtain ⟨one, both⟩ := settled ⟨0⟩ ⟨1⟩ whole
  exact ⟨whole, whole', one.mp confirmed, s, t, done, done', confirmed, (both whole').mp confirmed⟩

end Pass

end Namesake
