import Namesake.Proofs.CycleLimits
import Namesake.Proofs.LiteralOwners
import Namesake.Proofs.Pairings

/-! # Constructors

A constructor never belongs to a plain method. Elimination keeps to that, as names in angle brackets
are part of the key, and so do overrides and the link between static initializers, as constructors
are none. But some rules bring methods together by what they contain or by what is around them, and
do not look at what they are called (`Ledger.PairsBlindly`). All along a merge of valid programs, a
constructor is confirmed for another kind of method only where such a rule says so
(`Session.merge_matches_constructors`). It does happen: a lone constructor is confirmed for a lone
method (`Session.lone_constructor_mismatched`).
-/

namespace Namesake

namespace Context

/-- Both of two methods are constructors, or neither is. -/
def SameKind (c : Context) (m n : MethodId) : Prop :=
  (c.old.program.method m).isConstructor = (c.new.program.method n).isConstructor

/-- A name that goes on after that of a constructor as a key does, so that their keys may be the
same. No class file has such a name. -/
def RunsOn (name : String) : Prop := ∃ rest, name = "<init>(" ++ rest

/-- One of two methods is a constructor, and the name of the other may be taken for it. -/
def Lookalikes (c : Context) (m n : MethodId) : Prop :=
  (c.old.program.method m).isConstructor = true ∧ RunsOn (c.new.program.method n).name ∨
    (c.new.program.method n).isConstructor = true ∧ RunsOn (c.old.program.method m).name

end Context

/-- Two methods are brought together by a rule that does not look at what they are called: each is
the lone method of a confirmed type, or the only one there with some text, or they are what two
confirmed methods refer to or register. -/
inductive Ledger.PairsBlindly (c : Context) (l : Ledger) (m n : MethodId) : Prop
  | lone {o t : TypeId} (confirmed : l.types.target? (.real o) = some t)
      (old : c.old.program.loneMethod? o = some m) (new : c.new.program.loneMethod? t = some n)
  | literal {o t : TypeId} {text : String} (confirmed : l.types.target? (.real o) = some t)
      (old : (c.old.program.methodLiterals o).get? text = some m)
      (new : (c.new.program.methodLiterals t).get? text = some n)
  | compared {m₀ n₀ : MethodId} (confirmed : l.methods.target? (.real m₀) = some n₀)
      (check : Check.ballot (.method m n) ∈ Comparison.methods c.old.program c.new.program
        (c.old.program.method m₀) (c.new.program.method n₀))
  | registered {m₀ n₀ : MethodId} {handler : RegistrationHandler} {before : Ledger}
      (confirmed : l.methods.target? (.real m₀) = some n₀)
      (read : registry.get? (oldMethodKey c m₀) = some handler)
      (voted : Ballot.method m n ∈ handler.ballots c before m₀ n₀)

variable {c : Context}

theorem Ledger.PairsBlindly.mono {l l' : Ledger} (extends_ : l.Extends l') {m n : MethodId}
    (blind : l.PairsBlindly c m n) : l'.PairsBlindly c m n := by
  cases blind with
  | lone confirmed old new => exact .lone (extends_.types _ _ confirmed) old new
  | literal confirmed old new => exact .literal (extends_.types _ _ confirmed) old new
  | compared confirmed check => exact .compared (extends_.methods _ _ confirmed) check
  | registered confirmed read voted =>
      exact .registered (extends_.methods _ _ confirmed) read voted

/-- Where the old methods have no code, only lone methods are brought together like this. -/
theorem Ledger.PairsBlindly.lone_of_bodiless {l : Ledger} {m n : MethodId}
    (bodiless : ∀ m, (c.old.program.method m).body = none) (blind : l.PairsBlindly c m n) :
    ∃ o t, c.old.program.loneMethod? o = some m ∧ c.new.program.loneMethod? t = some n := by
  have silent (m : MethodId) : (c.old.program.method m).statements = [] := by
    rw [MethodEntry.statements, bodiless]
    rfl
  cases blind with
  | lone confirmed old new => exact ⟨_, _, old, new⟩
  | literal confirmed old new =>
      have text := (Program.methodLiterals_eq_some_iff.mp old).1.2
      rw [Program.literalsOf, silent] at text
      cases text
  | compared confirmed check =>
      have types {a b : TypeSig} (check : Check.ballot (.method m n) ∈
          Comparison.typeSigs c.old.program c.new.program a b) : False := by
        obtain ⟨o, t, ballot⟩ := Comparison.eq_type_of_mem_typeSigs check
        cases ballot
      rw [Comparison.methods, silent, List.mem_append, List.mem_append] at check
      obtain (result | params) | statements := check
      · exact (types result).elim
      · split_ifs at params
        · obtain ⟨_, -, param⟩ := List.mem_flatMap.mp params
          exact (types param).elim
        · cases params
      · cases statements
  | registered confirmed read voted =>
      rw [RegistrationHandler.ballots, bodiless] at voted
      cases voted

/-- Methods of the same kind may be brought together, and others where names do not tell. -/
def Pairing.ofKind (c : Context) : Pairing where
  placeholders _ _ := True
  methods l k n := ∀ m, k = .real m → l.PairsBlindly c m n ∨ c.Lookalikes m n ∨ c.SameKind m n
  fields _ _ _ := True
  methods_mono extends_ fits m key := (fits m key).imp_left (.mono extends_)
  fields_mono _ _ := trivial

/-! ## Elimination -/

/-- Where a first part does not contain the character after it, the first part of the same text
goes at least as far. -/
private theorem eq_or_longer_of_append_eq {before before' rest rest' : List Char} {mark : Char}
    (apart : mark ∉ before) (same : before ++ mark :: rest = before' ++ mark :: rest') :
    before' = before ∨ ∃ further, before' = before ++ mark :: further := by
  rcases List.append_eq_append_iff.mp same with ⟨further, rfl, splits⟩ | ⟨further, rfl, splits⟩
  · cases further with
    | nil => exact .inl (List.append_nil _)
    | cons first further =>
        obtain ⟨rfl, -⟩ := List.cons.inj splits
        exact .inr ⟨further, rfl⟩
  · cases further with
    | nil => exact .inl (List.append_nil _).symm
    | cons first further =>
        obtain ⟨rfl, -⟩ := List.cons.inj splits
        exact (apart (List.mem_append_right _ List.mem_cons_self)).elim

/-- The key of a constructor is that of another method only if the other one's name may be taken
for a constructor's. -/
theorem eq_or_runsOn_of_methodKey_eq {classKey? classKey?' : String → Option String}
    {name descriptor descriptor' : String}
    (same : methodKey classKey? "<init>" descriptor = methodKey classKey?' name descriptor') :
    name = "<init>" ∨ Context.RunsOn name := by
  have special : ("<init>".toList.head? == some '<') = true := rfl
  have bracket : "(".toList = ['('] := rfl
  have chars := congrArg String.toList same
  simp only [methodKey, special, if_true, String.toList_append, List.append_assoc, bracket,
    List.singleton_append] at chars
  split_ifs at chars
  · have apart : '(' ∉ "<init>".toList := by decide
    rcases eq_or_longer_of_append_eq apart chars with all | ⟨rest, longer⟩
    · exact .inl (String.toList_inj.mp all)
    · refine .inr ⟨String.ofList rest, String.toList_inj.mp ?_⟩
      have kept : (String.ofList rest).toList = rest := String.toList_ofList
      rw [longer, String.toList_append, kept]
      rfl
  · cases chars

/-- Elimination leaves over methods of the same kind, or lookalikes. -/
theorem sameKind_of_eliminateMethods {l : Ledger} {olds news : List MethodId} {m n : MethodId}
    (member : Ballot.method m n ∈ eliminateMethods c l olds news) :
    c.Lookalikes m n ∨ c.SameKind m n := by
  obtain ⟨⟨m', n'⟩, pair, same⟩ := List.mem_map.mp member
  obtain ⟨rfl, rfl⟩ := Ballot.method.inj same
  obtain ⟨-, -, keys⟩ := mem_of_discretePairs pair
  unfold Context.Lookalikes Context.SameKind MethodEntry.isConstructor
  simp only [decide_eq_true_eq, decide_eq_decide]
  by_cases old : (c.old.program.method m').name = "<init>"
  · rw [old] at keys ⊢
    rcases eq_or_runsOn_of_methodKey_eq keys with new | new
    · exact .inr (iff_of_true rfl new)
    · exact .inl (.inl ⟨rfl, new⟩)
  · by_cases new : (c.new.program.method n').name = "<init>"
    · rw [new] at keys ⊢
      rcases eq_or_runsOn_of_methodKey_eq keys.symm with old' | old'
      · exact (old old').elim
      · exact .inl (.inr ⟨rfl, old'⟩)
    · exact .inr (iff_of_false old new)

/-! ## Overrides -/

/-- A group of several methods has no constructors. -/
theorem not_isConstructor_of_several {p : Program} (coherent : p.Coherent) {m n : MethodId}
    {group : OverrideGroup} (found : (OverrideGroups.build p).group? m = some group)
    (member : n ∈ group.members) (several : ∃ other ∈ group.members, other ≠ n) :
    (p.method n).isConstructor = false := by
  obtain ⟨other, listed, different⟩ := several
  have inStep := OverrideGroups.inStep_build p
  have together := ((inStep.mem_group?_iff found).mp member).symm.trans
    ((inStep.mem_group?_iff found).mp listed)
  rcases OverrideGroups.eq_or_same_name_of_together coherent together with same | ⟨-, dispatched⟩
  · exact (different same.symm).elim
  · exact decide_eq_false fun named => dispatched (.inl named)

/-- The overrides of a confirmed method are brought together with plain methods, if at all. -/
theorem sameKind_of_overrideBallots (coherent : c.Coherent) {l : Ledger} {o n m m' : MethodId}
    {group : OverrideGroup} (found : c.old.groups.group? o = some group)
    (several : 1 < group.members.length) (member : Ballot.method m m' ∈ overrideBallots c l group n)
    (other : m' ≠ n) : c.SameKind m m' := by
  obtain ⟨group', sibling, owner, candidate, found', listed, -, -, override, same⟩ :=
    mem_overrideBallots.mp member
  obtain ⟨rfl, rfl⟩ := Ballot.method.inj same
  rw [c.old.groups_eq] at found
  rw [c.new.groups_eq] at found'
  have inside : n ∈ group'.members :=
    ((OverrideGroups.inStep_build c.new.program).group?_eq_some_iff.mp found').2
  have another : ∃ other ∈ group.members, other ≠ m := by
    by_contra alone
    push Not at alone
    rw [List.eq_replicate_of_mem alone, List.length_replicate] at several
    have distinct : group.members.Nodup := OverrideGroup.nodup_members
    rw [List.eq_replicate_of_mem alone, List.nodup_replicate] at distinct
    exact Nat.not_le_of_lt several distinct
  have old := not_isConstructor_of_several coherent.old found listed another
  have new := not_isConstructor_of_several coherent.new found'
    (List.mem_of_find?_eq_some override) ⟨n, inside, other.symm⟩
  exact old.trans new.symm

/-! ## Whatever is planned -/

/-- Static initializers are no constructors. -/
theorem not_isConstructor_of_staticInitializer? {p : Program} {t : TypeId} {m : MethodId}
    (found : p.staticInitializer? t = some m) : (p.method m).isConstructor = false := by
  unfold Program.staticInitializer? at found
  have named := List.find?_some found
  rw [MethodEntry.isStaticInitializer, decide_eq_true_eq] at named
  rw [MethodEntry.isConstructor, named]
  rfl

/-- **What is planned brings methods of the same kind together, where names are looked at.** -/
theorem Pairing.takesInPlans_ofKind (coherent : c.Coherent) :
    (Pairing.ofKind c).TakesInPlans c := by
  intro l l' a extends_ sound planned
  cases planned with
  | @vote b planned =>
      cases b with
      | type o n => trivial
      | field f g => exact fun _ => trivial
      | method m n =>
          rintro unclaimed m ⟨rfl⟩
          cases planned with
          | eliminated member => exact .inr (sameKind_of_eliminateMethods member)
          | @overriding o n' group _ confirmed found several member =>
              have other : n ≠ n' := by
                rintro rfl
                have claimed := sound.methods.isClaimed_iff.mpr ⟨_, extends_.methods _ _ confirmed⟩
                rw [unclaimed] at claimed
                cases claimed
              exact .inr (.inr (sameKind_of_overrideBallots coherent found several member other))
          | literal confirmed old new =>
              exact .inl (.mono extends_ (.literal confirmed old new))
          | compared confirmed check => exact .inl (.mono extends_ (.compared confirmed check))
          | registered confirmed read member =>
              exact .inl (.mono extends_ (.registered confirmed read member))
  | type o n => exact Pairing.types_real _ o n
  | initializers confirmed old new =>
      rintro m ⟨rfl⟩
      exact .inr (.inr ((not_isConstructor_of_staticInitializer? old).trans
        (not_isConstructor_of_staticInitializer? new).symm))
  | lone confirmed old new =>
      rintro m ⟨rfl⟩
      exact .inl (.mono extends_ (.lone confirmed old new))
  | bridge listed leads =>
      intro m key
      cases key
  | constants found => trivial
  | mergedType o => trivial
  | mergedMethod m => trivial
  | mergedField f => trivial

/-! ## Merges -/

/-- A program of one class, with instance methods without code that take nothing. -/
def Program.declaring (type : String) (methods : List (String × TypeSig)) : Program where
  types := [{ name := type, kind := .plain, superclass := none, interfaces := [], signature := none,
              enumConstants := [], methods := (List.range methods.length).map .mk, fields := [] }]
  methods := methods.map fun (name, result) =>
    { name, descriptor := "()" ++ result.descriptor, isStatic := false, isSynthetic := false,
      signature := ⟨[], result⟩, body := none, owner := ⟨0⟩ }
  fields := []
  byName := .ofList [(type, ⟨0⟩)]

theorem Program.body_declaring (type : String) (methods : List (String × TypeSig)) (m : MethodId) :
    ((declaring type methods).method m).body = none := by
  rw [method, declaring, List.getD_eq_getElem?_getD, List.getElem?_map]
  cases methods[m.index]? <;> rfl

/-- The smallest program with an instance method: one class that declares it. -/
def Program.alone (type method : String) : Program := .declaring type [(method, .primitive 'V')]

namespace Session

/-- **Constructors are matched with constructors wherever names are looked at.** A merge of valid
programs succeeds, and from its start and after every action of every pass, two methods that are
confirmed for each other are both constructors or neither is, unless a rule that does not look at
names brought them together, or the name of one may be taken for a constructor's. -/
theorem merge_matches_constructors (old : Program) (names : MappingSet) (new : Program)
    (known : MappingSet) (settings : MergeSettings) (validOld : old.validate = .ok ())
    (validNew : new.validate = .ok ()) :
    let session := (start old names new known settings).withDefaultSteps
    let c := session.context
    let begun := (session.afterCall .seed).state.ledger
    ∃ log s', session.merge = .ok log s' ∧ AllAlong c begun log fun l =>
      ∀ m n, l.methods.target? (.real m) = some n → ¬ l.PairsBlindly c m n → ¬ c.Lookalikes m n →
        c.SameKind m n := by
  intro session c begun
  have coherent : c.Coherent :=
    ⟨Program.coherent_of_validate validOld, Program.coherent_of_validate validNew⟩
  have seeds : ∀ a ∈ seedActions c known, ∀ l, a.KeepsTo (.ofKind c) l := by
    intro a member l
    rw [seedActions_eq] at member
    obtain ⟨e, -, rfl⟩ := List.mem_map.mp member
    exact fun _ _ => trivial
  obtain ⟨log, s', merged, -, -, abides⟩ := merge_abidesBy old names new known settings
  refine ⟨log, s', merged, ?_⟩
  apply (abides (.ofKind c) (Pairing.takesInPlans_ofKind coherent) seeds).1.imp
  intro l abides m n confirmed sighted distinct
  rcases abides.methods.pair confirmed m rfl with blind | lookalikes | same
  · exact (sighted blind).elim
  · exact (distinct lookalikes).elim
  · exact same

/-- Two classes that declare a constructor and another method each: neither is alone, and no code
speaks for them, so the constructors are confirmed for each other by what they are called. -/
theorem merge_matches_constructors_of_declared :
    let old := Program.declaring "a" [("<init>", .primitive 'V'), ("run", .primitive 'V')]
    let new := Program.declaring "x" [("<init>", .primitive 'V'), ("go", .primitive 'I')]
    let names := (∅ : MappingSet).addType "a" "Known"
    let known := (∅ : MappingSet).addType "x" "Known"
    let session := (start old names new known .default).withDefaultSteps
    let c := session.context
    old.validate = .ok () ∧ new.validate = .ok () ∧ ∃ log s', session.merge = .ok log s' ∧
      let l := s'.state.ledger
      l.methods.target? (.real ⟨0⟩) = some ⟨0⟩ ∧ ¬ l.PairsBlindly c ⟨0⟩ ⟨0⟩ ∧
        ¬ c.Lookalikes ⟨0⟩ ⟨0⟩ ∧ c.SameKind ⟨0⟩ ⟨0⟩ ∧ (old.method ⟨0⟩).isConstructor = true := by
  intro old new names known session c
  have validOld : old.validate = .ok () := rfl
  have validNew : new.validate = .ok () := rfl
  have reachable : session.state.Reachable c := reachable_start old names new known .default
  have round : (session.afterCalls (.seed :: Pass.all.map .pass)).state.ledger.methods.target?
      (.real ⟨0⟩) = some ⟨0⟩ := by
    decide +kernel
  obtain ⟨log, s', merged, along⟩ :=
    merge_matches_constructors old names new known .default validOld validNew
  obtain ⟨_, _, again, extends_⟩ := merge_extends_round (s := session) rfl reachable
  cases merged.symm.trans again
  obtain ⟨_, _, again, -, -, latest, -⟩ := merge_account (s := session) rfl reachable
  cases merged.symm.trans again
  have confirmed := extends_.methods _ _ round
  have sighted : ¬ s'.state.ledger.PairsBlindly c ⟨0⟩ ⟨0⟩ := by
    intro blind
    obtain ⟨⟨o⟩, -, lone, -⟩ := blind.lone_of_bodiless (Program.body_declaring "a" _)
    cases o with
    | zero => exact absurd lone (by decide)
    | succ o => cases lone
  have distinct : ¬ c.Lookalikes ⟨0⟩ ⟨0⟩ := by
    have ended : ¬ Context.RunsOn "<init>" := by
      rintro ⟨rest, same⟩
      have sized : 6 = 7 + rest.length :=
        (congrArg String.length same).trans (String.length_append "<init>(" rest)
      omega
    rintro (⟨-, longer⟩ | ⟨-, longer⟩)
    · exact ended longer
    · exact ended longer
  have kind : c.SameKind ⟨0⟩ ⟨0⟩ := by
    rw [latest] at confirmed sighted
    exact along.last _ _ confirmed sighted distinct
  exact ⟨validOld, validNew, log, s', merged, confirmed, sighted, distinct, kind, rfl⟩

/-- A lone constructor is confirmed for a lone method of another name. -/
theorem lone_constructor_mismatched :
    let old := Program.alone "a" "<init>"
    let new := Program.alone "x" "run"
    let names := (∅ : MappingSet).addType "a" "Known"
    let known := (∅ : MappingSet).addType "x" "Known"
    let session := (start old names new known .default).withDefaultSteps
    old.validate = .ok () ∧ new.validate = .ok () ∧ ∃ log s', session.merge = .ok log s' ∧
      s'.state.ledger.methods.target? (.real ⟨0⟩) = some ⟨0⟩ ∧
      (old.method ⟨0⟩).isConstructor = true ∧ (new.method ⟨0⟩).isConstructor = false := by
  intro old new names known session
  have validOld : old.validate = .ok () := rfl
  have validNew : new.validate = .ok () := rfl
  have round : (session.afterCalls (.seed :: Pass.all.map .pass)).state.ledger.methods.target?
      (.real ⟨0⟩) = some ⟨0⟩ := by
    decide +kernel
  obtain ⟨log, s', merged, extends_⟩ :=
    merge_extends_round (s := session) rfl (reachable_start old names new known .default)
  exact ⟨validOld, validNew, log, s', merged, extends_.methods _ _ round, by decide, by decide⟩

end Session

end Namesake
