import Namesake.Proofs.Chronicle
import Namesake.Proofs.Projection
import Namesake.Proofs.Ranges

/-! # The names of the new build

What a merge carries over, seen from outside: the names there were stay, every confirmed pair whose
old side has a plain name hands it on unless one of those is in the way, and no other name appears
(`Session.merge_carries_names`). That two pairs never compete for a name is because pairs share no
side, types and members are known by their names, and plain names are not shared.
-/

namespace Namesake

/-! ## Complete -/

section

variable {c : Context} {coherent : c.new.program.Coherent} {l : Ledger} {known : MappingSet}
  (validNew : c.new.program.validate = .ok ()) (lawful : l.Lawful c (.inside coherent))

include validNew lawful

/-- A confirmed pair of types hands on the plain name of the old one, if the new one has no name and
nothing else has that one. -/
theorem mapType?_project_of_confirmed (validOld : c.old.program.validate = .ok ())
    (invertible : c.names.Invertible) {o n : TypeId} {p : String}
    (confirmed : l.types.target? (.real o) = some n)
    (plain : c.names.mapType? (c.old.program.type o).name = some p)
    (free : known.IsFree (c.new.program.type n).name p) :
    (project c l known).mapType? (c.new.program.type n).name = some p := by
  obtain ⟨inOld, inNew⟩ := lawful.hasType_of_target? confirmed
  have told : c.toldType? (.real o) n = some ((c.new.program.type n).name, p) :=
    Context.toldType?_eq_some_iff.mpr ⟨rfl, plain⟩
  obtain ⟨before, after, split, others⟩ := lawful.types.sound.told_split confirmed told
  have carried : ((carriedTypes c l).foldl (fun s e => s.addType e.1 e.2) known).mapType?
      (c.new.program.type n).name = some p := by
    rw [carriedTypes_eq, split]
    apply MappingSet.mapType?_foldl_addType free
    intro e member
    obtain ⟨o', n', other, confirmed', told'⟩ := others e member
    obtain ⟨inOld', inNew'⟩ := lawful.hasType_of_target? confirmed'
    obtain ⟨name, plain'⟩ := Context.toldType?_eq_some_iff.mp told'
    constructor
    · intro same
      -- types of one name are the same, and no two old ones are confirmed onto it
      rw [← name] at same
      have targets : n' = n := Program.eq_of_name validNew inNew' inNew same
      rw [targets] at confirmed'
      exact other (Handle.real.inj (lawful.types.sound.target?_injective confirmed' confirmed))
    · intro same
      rw [same] at plain'
      exact other (Program.eq_of_name validOld inOld' inOld
        (invertible.eq_of_mapType? plain' plain))
  rw [mapType?_project, namedTypes_eq]
  exact (MappingSet.Extends.foldl extends_nameAnonymous _ _).type carried

/-- A confirmed pair of fields hands on the plain name of the old one, if there was none. -/
theorem mapField?_project_of_confirmed (distinct : c.new.program.DistinctMembers)
    {f g : FieldId} {q : String} (confirmed : l.fields.target? (.real f) = some g)
    (plain : c.names.mapField? (c.old.program.fieldOwnerName f) (c.old.program.field f).name =
      some q)
    (unknown : known.mapField? (c.new.program.fieldOwnerName g) (c.new.program.field g).name =
      none) :
    (project c l known).mapField? (c.new.program.fieldOwnerName g)
      (c.new.program.field g).name = some q := by
  rw [mapField?_project, unknown, Option.none_or]
  apply lawful.fields.sound.find?_told confirmed
  · exact Context.toldField?_eq_some_iff.mpr ⟨rfl, rfl, plain⟩
  · intro k g' q' confirmed' told
    obtain ⟨owner, name, -⟩ := Context.toldField?_eq_some_iff.mp told
    exact distinct.eq_of_fieldNames validNew (lawful.fields.follows.pair confirmed').1
      (lawful.fields.follows.pair confirmed).1 owner name

/-- A confirmed pair of methods hands on the plain name of the old one, if there was none. -/
theorem mapMethod?_project_of_confirmed (distinct : c.new.program.DistinctMembers)
    {m n : MethodId} {q : String} (confirmed : l.methods.target? (.real m) = some n)
    (plain : c.names.mapMethod? (c.old.program.methodOwnerName m) (c.old.program.method m).name
      (c.old.program.method m).descriptor = some q)
    (unknown : known.mapMethod? (c.new.program.methodOwnerName n) (c.new.program.method n).name
      (c.new.program.method n).descriptor = none) :
    (project c l known).mapMethod? (c.new.program.methodOwnerName n)
      (c.new.program.method n).name (c.new.program.method n).descriptor = some q := by
  rw [mapMethod?_project, unknown, Option.none_or]
  apply lawful.methods.sound.find?_told confirmed
  · exact Context.toldMethod?_eq_some_iff.mpr ⟨rfl, rfl, rfl, plain⟩
  · intro k n' q' confirmed' told
    obtain ⟨owner, name, descriptor, -⟩ := Context.toldMethod?_eq_some_iff.mp told
    exact distinct.eq_of_methodNames validNew (lawful.methods.follows.pair confirmed').1
      (lawful.methods.follows.pair confirmed).1 owner name descriptor

end

/-! ## Nothing else -/

section

variable {c : Context} {l : Ledger} {known : MappingSet}

/-- A type that has a name in the end had it before, has it from a confirmed pair, or is an
anonymous one that was numbered. -/
theorem mapType?_project_cases (sound : l.types.Sound) {x p : String}
    (named : (project c l known).mapType? x = some p) :
    known.mapType? x = some p ∨
      (∃ k n, l.types.target? k = some n ∧ (c.new.program.type n).name = x ∧
        c.typeNameOf? k = some p) ∨
      c.settings.nameAnonymousClasses = true ∧ x ∈ c.new.program.anonymousNames ∧
        (project c l known).IsNumbered x p := by
  have same := mapType?_project c l known
  rw [same, namedTypes_eq] at named
  rcases isNumbered_of_mapType?_foldl named with before | ⟨member, numbered⟩
  · rcases MappingSet.mem_of_mapType?_foldl before with before | told
    · exact .inl before
    · rw [carriedTypes_eq] at told
      obtain ⟨k, n, confirmed, told⟩ := sound.mem_told.mp told
      exact .inr (.inl ⟨k, n, confirmed, Context.toldType?_eq_some_iff.mp told⟩)
  · rw [← namedTypes_eq] at numbered
    have numbered' : (project c l known).IsNumbered x p := by
      unfold MappingSet.IsNumbered at numbered ⊢
      simp only [same]
      exact numbered
    split_ifs at member with numbering
    · exact .inr (.inr ⟨numbering, member, numbered'⟩)
    · cases member

theorem namesType_eq (c : Context) (l : Ledger) (known : MappingSet) :
    namesType c l known = fun x => ((project c l known).mapType? x).isSome := by
  funext x
  rw [mapType?_project, namesType]

/-- A field that has a name in the end had it before or has it from a confirmed pair. -/
theorem mapField?_project_cases (sound : l.fields.Sound) {owner name q : String}
    (named : (project c l known).mapField? owner name = some q) :
    known.mapField? owner name = some q ∨ ∃ k g, l.fields.target? k = some g ∧
      c.new.program.fieldOwnerName g = owner ∧ (c.new.program.field g).name = name ∧
      c.fieldNameOf? (fun x => ((project c l known).mapType? x).isSome) owner k = some q := by
  rw [mapField?_project, Option.or_eq_some_iff] at named
  rcases named with before | ⟨-, told⟩
  · exact .inl before
  · obtain ⟨k, g, confirmed, told⟩ := sound.told_of_find? told
    rw [namesType_eq] at told
    exact .inr ⟨k, g, confirmed, Context.toldField?_eq_some_iff.mp told⟩

/-- A method that has a name in the end had it before or has it from a confirmed pair. -/
theorem mapMethod?_project_cases (sound : l.methods.Sound) {owner name descriptor q : String}
    (named : (project c l known).mapMethod? owner name descriptor = some q) :
    known.mapMethod? owner name descriptor = some q ∨ ∃ k n, l.methods.target? k = some n ∧
      c.new.program.methodOwnerName n = owner ∧ (c.new.program.method n).name = name ∧
      (c.new.program.method n).descriptor = descriptor ∧
      c.methodNameOf? (fun x => ((project c l known).mapType? x).isSome) owner k = some q := by
  rw [mapMethod?_project, Option.or_eq_some_iff] at named
  rcases named with before | ⟨-, told⟩
  · exact .inl before
  · obtain ⟨k, n, confirmed, told⟩ := sound.told_of_find? told
    rw [namesType_eq] at told
    exact .inr ⟨k, n, confirmed, Context.toldMethod?_eq_some_iff.mp told⟩

end

namespace Session

/-- What a call names is part of the programs. -/
def Call.InRange (old new : Program) : Call → Prop
  | vote b => b.InRange old new
  | confirmType k n => (∀ o, k = .real o → old.HasType o) ∧ new.HasType n
  | seed | pass _ => True

theorem Call.InRange.isWellFormed {c : Context} {coherent : c.new.program.Coherent} {call : Call}
    (inRange : call.InRange c.old.program c.new.program) :
    call.IsWellFormed c (.inside coherent) := by
  cases call with
  | vote b =>
      cases b with
      | type o n => exact inRange
      | method o n => exact inRange
      | field o n => exact inRange
  | confirmType k n => exact inRange
  | seed | pass => trivial

/-- **The names of the new build.** Let valid programs be given, the new one without members that
are declared alike, and any calls made on a new session before it merges with the usual pipeline. In
the end the names there were are all there; every confirmed pair of types, fields or methods whose
old side has a plain name handed it on, unless a name there was is in the way; and every other name
comes from a confirmed pair or is a number. -/
theorem merge_carries_names (old : Program) (names : MappingSet) (new : Program)
    (known : MappingSet) (settings : MergeSettings) (validOld : old.validate = .ok ())
    (validNew : new.validate = .ok ()) (distinct : new.DistinctMembers)
    (namesInvertible : names.Invertible) (knownInvertible : known.Invertible) (calls : List Call)
    (inRange : ∀ call ∈ calls, call.InRange old new) :
    let c := Context.of old names new settings
    let plain := names.excludingPackages settings.excludedPackages
    let s := ((start old names new known settings).withDefaultSteps).afterCalls calls
    ∃ log s', s.merge = .ok log s' ∧
      let l := s'.state.ledger
      let output := s'.output
      let isNamed (name : String) : Bool := (output.mapType? name).isSome
      known.Extends output ∧
      (∀ o n p, l.types.target? (.real o) = some n → plain.mapType? (old.type o).name = some p →
        output.mapType? (new.type n).name = some p ∨
          (∃ q, known.mapType? (new.type n).name = some q) ∨ ∃ x, known.mapType? x = some p) ∧
      (∀ f g p, l.fields.target? (.real f) = some g →
        plain.mapField? (old.fieldOwnerName f) (old.field f).name = some p →
        output.mapField? (new.fieldOwnerName g) (new.field g).name = some p ∨
          ∃ q, known.mapField? (new.fieldOwnerName g) (new.field g).name = some q) ∧
      (∀ m n p, l.methods.target? (.real m) = some n →
        plain.mapMethod? (old.methodOwnerName m) (old.method m).name (old.method m).descriptor =
          some p →
        output.mapMethod? (new.methodOwnerName n) (new.method n).name (new.method n).descriptor =
          some p ∨
          ∃ q, known.mapMethod? (new.methodOwnerName n) (new.method n).name
            (new.method n).descriptor = some q) ∧
      (∀ x p, output.mapType? x = some p → known.mapType? x = some p ∨
        (∃ k n, l.types.target? k = some n ∧ (new.type n).name = x ∧ c.typeNameOf? k = some p) ∨
        settings.nameAnonymousClasses = true ∧ x ∈ new.anonymousNames ∧ output.IsNumbered x p) ∧
      (∀ owner name p, output.mapField? owner name = some p →
        known.mapField? owner name = some p ∨ ∃ k g, l.fields.target? k = some g ∧
          new.fieldOwnerName g = owner ∧ (new.field g).name = name ∧
          c.fieldNameOf? isNamed owner k = some p) ∧
      ∀ owner name descriptor p, output.mapMethod? owner name descriptor = some p →
        known.mapMethod? owner name descriptor = some p ∨ ∃ k n, l.methods.target? k = some n ∧
          new.methodOwnerName n = owner ∧ (new.method n).name = name ∧
          (new.method n).descriptor = descriptor ∧ c.methodNameOf? isNamed owner k = some p := by
  intro c plain s
  have coherent : c.Coherent := coherent_of_validate validOld validNew names settings
  have invertible : c.names.Invertible :=
    namesInvertible.excludingPackages settings.excludedPackages
  have lawful : (start old names new known settings).withDefaultSteps.state.ledger.Lawful c
      (.inside coherent.new) := start_lawful old names new known settings (.inside coherent.new)
  obtain ⟨about, lawful', -⟩ := lawful_afterCalls coherent rfl lawful fun call member =>
    (inRange call member).isWellFormed
  have usual : s.steps = defaultSteps := steps_afterCalls _ calls
  obtain ⟨log, s', merged, begun, chronicle, latest, output⟩ :=
    merge_chronicle coherent about usual lawful'
  have ended : s'.state.ledger.Lawful c (.inside coherent.new) := by
    rw [latest]
    exact chronicle.lawful coherent.old begun
  have carried : s'.output = project c s'.state.ledger known := by
    rw [output, output_afterCall]
    exact congrArg (project c s'.state.ledger) (output_afterCalls _ calls)
  refine ⟨log, s', merged, ?_⟩
  dsimp only
  rw [carried]
  refine ⟨extends_project c _ known, ?types, ?fields, ?methods,
    fun x p => mapType?_project_cases ended.types.sound,
    fun owner name p => mapField?_project_cases ended.fields.sound,
    fun owner name descriptor p => mapMethod?_project_cases ended.methods.sound⟩
  case types =>
    intro o n p confirmed mapped
    by_cases free : known.IsFree (new.type n).name p
    · exact .inl (mapType?_project_of_confirmed validNew ended validOld invertible confirmed mapped
        free)
    · right
      by_contra open_
      rw [not_or] at open_
      obtain ⟨unnamed, unused⟩ := open_
      apply free
      constructor
      · exact Option.eq_none_iff_forall_ne_some.mpr fun q named => unnamed ⟨q, named⟩
      · apply Option.eq_none_iff_forall_ne_some.mpr
        intro x bearer
        exact unused ⟨x, (knownInvertible x p).mpr bearer⟩
  case fields =>
    intro f g p confirmed mapped
    cases former : known.mapField? (new.fieldOwnerName g) (new.field g).name with
    | some q => exact .inr ⟨q, rfl⟩
    | none => exact .inl (mapField?_project_of_confirmed validNew ended distinct confirmed mapped
        former)
  case methods =>
    intro m n p confirmed mapped
    cases former : known.mapMethod? (new.methodOwnerName n) (new.method n).name
        (new.method n).descriptor with
    | some q => exact .inr ⟨q, rfl⟩
    | none => exact .inl (mapMethod?_project_of_confirmed validNew ended distinct confirmed mapped
        former)

/-- Two classes that are confirmed by hand merge; the name that was known stays. -/
theorem merge_carries_names_of_single :
    let old := Program.single "a" "b"
    let new := Program.single "x" "y"
    let names := ((∅ : MappingSet).addType "a" "Known").addField "a" "b" "size"
    let known := (∅ : MappingSet).addType "x" "Known"
    let calls : List Call := [.confirmType (.real ⟨0⟩) ⟨0⟩, .vote (.field ⟨0⟩ ⟨0⟩)]
    let s := ((start old names new known .default).withDefaultSteps).afterCalls calls
    old.validate = .ok () ∧ new.validate = .ok () ∧ new.DistinctMembers ∧ names.Invertible ∧
      known.Invertible ∧ (∀ call ∈ calls, call.InRange old new) ∧
      s.state.ledger.types.target? (.real ⟨0⟩) = some ⟨0⟩ ∧
      ∃ log s', s.merge = .ok log s' ∧ s'.output.mapType? "x" = some "Known" := by
  intro old new names known calls s
  have validOld := Program.validate_single "a" "b"
  have validNew := Program.validate_single "x" "y"
  have distinct := Program.distinctMembers_single "x" "y"
  have namesInvertible : names.Invertible :=
    (MappingSet.Invertible.empty.addType "a" "Known").addField "a" "b" "size"
  have knownInvertible : known.Invertible := MappingSet.Invertible.empty.addType "x" "Known"
  have inRange : ∀ call ∈ calls, call.InRange old new := by
    intro call member
    simp only [calls, List.mem_cons, List.not_mem_nil, or_false] at member
    rcases member with rfl | rfl
    · exact ⟨fun o same => Handle.real.inj same ▸ Nat.zero_lt_one, Nat.zero_lt_one⟩
    · exact ⟨Nat.zero_lt_one, Nat.zero_lt_one⟩
  have confirmed : s.state.ledger.types.target? (.real ⟨0⟩) = some ⟨0⟩ := by decide +kernel
  obtain ⟨log, s', merged, kept, -⟩ := merge_carries_names old names new known .default validOld
    validNew distinct namesInvertible knownInvertible calls inRange
  exact ⟨validOld, validNew, distinct, namesInvertible, knownInvertible, inRange, confirmed, log,
    s', merged, kept.type (by decide)⟩

end Session

end Namesake
