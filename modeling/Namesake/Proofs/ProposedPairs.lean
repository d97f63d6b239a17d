import Namesake.Proofs.ProgramBuilding
import Namesake.Proofs.SoleCandidates

/-! # Pairs proposed whatever the order

Which interfaces and nested enums are paired is said of the places of a list, not of their order. A
new interface is proposed if it is the one close in size and no other is near
(`pairInterfaces_propose_sole_close`), a new enum if it shares more constants than any other
(`pairNested_proposes_best_enum`). So a type that lists its interfaces in another order, or nested
types in another order, are paired the same.
-/

namespace Namesake

/-! ## Interfaces -/

/-- The pairs do not change if the new type lists its interfaces in another order. -/
theorem pairInterfaces_perm {c d : Context} (l : Ledger) (o : TypeId) {n : TypeId}
    (olds : d.old = c.old)
    (methods : ∀ j, (d.new.program.type j).methods = (c.new.program.type j).methods)
    (order : (d.new.program.interfaces n).Perm (c.new.program.interfaces n)) :
    pairInterfaces d l o n = pairInterfaces c l o n := by
  have same (size : Nat) (unclaimed : TypeId → Bool) :
      soleClose size none (((d.new.program.interfaces n).filter unclaimed).map fun j =>
        (j, (d.new.program.type j).methods.length)) =
      soleClose size none (((c.new.program.interfaces n).filter unclaimed).map fun j =>
        (j, (c.new.program.type j).methods.length)) := by
    apply Option.ext
    intro j
    have listed := order.filter unclaimed
    rw [soleClose_map_eq_some_iff, soleClose_map_eq_some_iff]
    simp only [methods]
    exact and_congr_right fun _ => ⟨.perm listed.symm, .perm listed⟩
  rw [pairInterfaces, pairInterfaces, olds]
  simp only [same]

/-- The program in which a type lists its interfaces as given. -/
def Program.relisted (p : Program) (t : TypeId) (names : List String) : Program :=
  { p with types := p.types.modify t.index fun e => { e with interfaces := names } }

theorem Program.methods_relisted (p : Program) (t u : TypeId) (names : List String) :
    ((p.relisted t names).type u).methods = (p.type u).methods := by
  rw [type, type, relisted, List.getD_eq_getElem?_getD, List.getD_eq_getElem?_getD,
    List.getElem?_modify]
  by_cases same : t.index = u.index <;> cases p.types[u.index]? <;> simp [same]

theorem Program.interfaces_relisted {p : Program} {t : TypeId} {names : List String}
    (order : names.Perm (p.type t).interfaces) :
    ((p.relisted t names).interfaces t).Perm (p.interfaces t) := by
  refine List.Perm.filterMap _ ?_
  by_cases inside : p.HasType t
  · rw [type_of_modify inside rfl, if_pos rfl]
    exact order
  · have outside : ¬ (p.relisted t names).HasType t := by
      rwa [hasType_of_modify rfl]
    rw [type_eq_default inside, type_eq_default outside]

/-- **Interfaces are paired where there is one close in size and no other near it.** For an
interface of the old type that is not confirmed, a new interface is proposed exactly if one place of
the unclaimed interfaces of the new type holds it, it differs by at most two methods, and the
interface at any other place differs by six or more. Nothing is proposed for others, and listing
the interfaces of the new type in another order changes nothing. -/
theorem pairInterfaces_propose_sole_close (c : Context) (l : Ledger) (o n : TypeId) :
    (∀ i ∈ c.old.program.interfaces o, l.types.target? (.real i) = none →
      ∀ j, Ballot.type i j ∈ pairInterfaces c l o n ↔ c.IsSoleClose l n i j) ∧
    (∀ b ∈ pairInterfaces c l o n, ∃ i ∈ c.old.program.interfaces o,
      l.types.target? (.real i) = none ∧ ∃ j, b = .type i j) ∧
    ∀ names, names.Perm (c.new.program.type n).interfaces →
      pairInterfaces { c with new := .of (c.new.program.relisted n names) } l o n =
        pairInterfaces c l o n := by
  refine ⟨?_, ?_, ?_⟩
  · intro i listed unconfirmed j
    rw [mem_pairInterfaces_iff]
    constructor
    · rintro ⟨i', j', same, -, -, sole⟩
      obtain ⟨rfl, rfl⟩ := Ballot.type.inj same
      exact sole
    · intro sole
      exact ⟨i, j, rfl, listed, unconfirmed, sole⟩
  · intro b proposed
    obtain ⟨i, j, same, listed, unconfirmed, -⟩ := mem_pairInterfaces_iff.mp proposed
    exact ⟨i, listed, unconfirmed, j, same⟩
  · intro names order
    exact pairInterfaces_perm l o rfl (fun j => Program.methods_relisted _ n j names)
      (Program.interfaces_relisted order)

/-! ## Nested types -/

/-- The nested types in another order are paired the same. -/
theorem mem_pairNested_perm {c : Context} {l : Ledger} {olds news olds' news' : List TypeId}
    (order : olds'.Perm olds) (order' : news'.Perm news) {pair : TypeId × TypeId} :
    pair ∈ pairNested c l olds' news' ↔ pair ∈ pairNested c l olds news := by
  obtain ⟨o, n⟩ := pair
  have sole (test : TypeId → Bool) {ts ts' : List TypeId} (order : ts'.Perm ts) (t : TypeId) :
      ts'.filter test = [t] ↔ ts.filter test = [t] := by
    rw [← List.perm_singleton, ← List.perm_singleton]
    exact ⟨(order.filter test).symm.trans, (order.filter test).trans⟩
  have named : (c.old.program.namedOf olds').Perm (c.old.program.namedOf olds) := order.filter _
  have named' : (c.new.program.namedOf news').Perm (c.new.program.namedOf news) := order'.filter _
  have best (old : TypeEntry) :
      IsBestEnum c.new.program old (c.new.program.namedOf news') n ↔
        IsBestEnum c.new.program old (c.new.program.namedOf news) n :=
    ⟨.perm named'.symm, .perm named'⟩
  rw [mem_pairNested_iff, mem_pairNested_iff, named.mem_iff, best]
  simp only [Context.HasNamedPair, Program.anonymousOf, Program.namedOf, sole _ order,
    sole _ order']

/-- **A nested enum is paired with the one that shares most constants.** Where the nested types are
not just one named type on each side, take a named enum of the old ones that is not confirmed. A new
type is proposed for it exactly if it is a named enum that shares constants with it, more than any
named enum at another place; in a list without repetitions, more than any other. If two share the
most, nothing is proposed. The order of the lists makes no difference. -/
theorem pairNested_proposes_best_enum (c : Context) (l : Ledger) {olds news : List TypeId}
    (several : ¬ c.HasNamedPair olds news) :
    (∀ o ∈ c.old.program.namedOf olds, (c.old.program.type o).isEnum = true →
      l.types.target? (.real o) = none →
      (∀ n, (o, n) ∈ pairNested c l olds news ↔
        IsBestEnum c.new.program (c.old.program.type o) (c.new.program.namedOf news) n) ∧
      (news.Nodup → ∀ n, (o, n) ∈ pairNested c l olds news ↔
        n ∈ c.new.program.namedOf news ∧ (c.new.program.type n).isEnum = true ∧
          0 < sharedConstants (c.old.program.type o) (c.new.program.type n) ∧
          ∀ other ∈ c.new.program.namedOf news, other ≠ n →
            (c.new.program.type other).isEnum = true →
              sharedConstants (c.old.program.type o) (c.new.program.type other) <
                sharedConstants (c.old.program.type o) (c.new.program.type n)) ∧
      ∀ first second rest, IsTied c.new.program (c.old.program.type o)
        (c.new.program.namedOf news) first second rest → ∀ n, (o, n) ∉ pairNested c l olds news) ∧
    ∀ olds' news', olds'.Perm olds → news'.Perm news → ∀ pair,
      pair ∈ pairNested c l olds' news' ↔ pair ∈ pairNested c l olds news := by
  refine ⟨?_, fun olds' news' order order' pair => mem_pairNested_perm order order'⟩
  intro o named enum unconfirmed
  have best (n : TypeId) : (o, n) ∈ pairNested c l olds news ↔
      IsBestEnum c.new.program (c.old.program.type o) (c.new.program.namedOf news) n := by
    rw [mem_pairNested_iff]
    have notAnonymous : c.old.program.anonymousOf olds ≠ [o] := by
      intro only
      have anonymous : o ∈ c.old.program.anonymousOf olds := only ▸ List.mem_singleton_self o
      simp [Program.namedOf, (List.mem_filter.mp anonymous).2] at named
    have notAlone : ¬ (c.old.program.namedOf olds = [o] ∧ c.new.program.namedOf news = [n]) :=
      fun both => several ⟨o, n, both⟩
    simp only [notAnonymous, notAlone, several, named, enum, unconfirmed, false_and, false_or,
      not_false_eq_true, true_and]
  refine ⟨best, ?_, ?_⟩
  · intro distinct n
    exact (best n).trans (isBestEnum_iff_of_nodup (distinct.filter _))
  · intro first second rest tied n proposed
    exact tied.not_isBestEnum ((best n).mp proposed)

/-! ### Nested enums -/

/-- Types without members, each with its kind and its constants. -/
def Program.bare (entries : List (String × TypeKind × List String)) : Program where
  types := entries.map fun (name, kind, enumConstants) =>
    { name, kind, superclass := none, interfaces := [], signature := none, enumConstants,
      methods := [], fields := [] }
  methods := []
  fields := []
  byName := .ofList ((entries.map Prod.fst).zipIdx.map fun (name, index) => (name, ⟨index⟩))

/-- A class with two enums and another class in it, of which the first enum has gained a constant
and the second is parted in two. -/
def Context.nesting : Context :=
  .of (.bare [("a", .plain, []), ("a$b", .enum, ["ONE", "TWO"]), ("a$c", .plain, ["ONE"]),
      ("a$d", .enum, ["RED", "BLUE"])]) ∅
    (.bare [("x", .plain, []), ("x$v", .enum, ["RED", "ONE"]), ("x$w", .plain, ["ONE", "TWO"]),
      ("x$y", .enum, ["ONE", "TWO", "THREE"]), ("x$z", .enum, ["BLUE"])]) .default

/-- The enum that has gained a constant is found, although a class and another enum have some of
them, too; for the one that is parted two share the most. -/
theorem pairNested_proposes_best_enum_of_nesting :
    let olds := [⟨1⟩, ⟨2⟩, ⟨3⟩]
    let news := [⟨1⟩, ⟨2⟩, ⟨3⟩, ⟨4⟩]
    ¬ Context.nesting.HasNamedPair olds news ∧
      (⟨1⟩, ⟨3⟩) ∈ pairNested Context.nesting ∅ olds news ∧
      ∀ n, (⟨3⟩, n) ∉ pairNested Context.nesting ∅ olds news := by
  intro olds news
  have named : Context.nesting.old.program.namedOf olds = olds := by decide +kernel
  have named' : Context.nesting.new.program.namedOf news = news := by decide +kernel
  have several : ¬ Context.nesting.HasNamedPair olds news := by
    rintro ⟨o, n, single, -⟩
    have number : olds.length = 1 := congrArg List.length (named.symm.trans single)
    exact absurd number (by decide)
  obtain ⟨enums, -⟩ := pairNested_proposes_best_enum Context.nesting ∅ several
  obtain ⟨best, -, -⟩ := enums ⟨1⟩ (by decide +kernel) (by decide +kernel) rfl
  obtain ⟨-, -, tied⟩ := enums ⟨3⟩ (by decide +kernel) (by decide +kernel) rfl
  refine ⟨several, (best ⟨3⟩).mpr ⟨by decide +kernel, by decide +kernel, ?_⟩,
    tied ⟨1⟩ ⟨4⟩ [⟨2⟩, ⟨3⟩] ⟨?_, by decide +kernel, by decide +kernel, by decide +kernel,
      by decide +kernel⟩⟩
  · rw [named']
    exact ⟨[⟨1⟩, ⟨2⟩], [⟨4⟩], rfl, by decide +kernel⟩
  · rw [named']
    decide +kernel

end Namesake
