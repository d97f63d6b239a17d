import Mathlib.Data.List.Count
import Namesake.Proofs.OpenLedgers
import Namesake.Proofs.RenamedPrograms

/-! # Comparing with a renamed copy

A program and a copy of it under other names lead to the same things by number. Code compared with
its copy therefore agrees, every vote is for a thing and the same thing in the copy, and each type
gets as many votes as there are references to it (`Work.compare_renamed`), as long as nothing is
confirmed yet and no target is fixed (`Ledger.IsOpen`).
-/

namespace Namesake

/-! ## Votes for the same thing -/

/-- The ballot on the member a mention leads to, for that member itself. -/
def Mention.memberBallot? (p : Program) : Mention → Option Ballot
  | .type _ | .descriptor _ => none
  | .field ref =>
    (p.typeNamed? ref.owner >>= fun t => p.findField? t ref.name).map fun f => .field f f
  | .method isStatic ref =>
    (p.typeNamed? ref.owner >>= fun t => p.findCalled? isStatic t ref.name ref.descriptor).map
      fun m => .method m m

theorem Mention.memberBallot?_cases {p : Program} {m : Mention} {b : Ballot}
    (found : m.memberBallot? p = some b) : (∃ f, b = .field f f) ∨ ∃ m, b = .method m m := by
  cases m with
  | type name => cases found
  | descriptor text => cases found
  | field ref =>
      obtain ⟨f, -, rfl⟩ := Option.map_eq_some_iff.mp found
      exact .inl ⟨f, rfl⟩
  | method isStatic ref =>
      obtain ⟨m, -, rfl⟩ := Option.map_eq_some_iff.mp found
      exact .inr ⟨m, rfl⟩

/-- The ballots on what a mention leads to, each for the same thing on both sides. -/
def Mention.ballots (p : Program) (m : Mention) : List Ballot :=
  (m.referents.filterMap p.typeNamed?).map (fun t => .type t t) ++ (m.memberBallot? p).toList

/-- Whether both sides of a ballot have the same number. -/
def Ballot.IsAlike : Ballot → Prop
  | type old new => old = new
  | method old new => old = new
  | field old new => old = new

theorem Mention.isAlike_of_mem_ballots {p : Program} {m : Mention} {b : Ballot}
    (member : b ∈ m.ballots p) : b.IsAlike := by
  rcases List.mem_append.mp member with types | members
  · obtain ⟨t, -, rfl⟩ := List.mem_map.mp types
    exact rfl
  · obtain ⟨f, rfl⟩ | ⟨m, rfl⟩ := memberBallot?_cases (Option.mem_toList.mp members)
    · exact rfl
    · exact rfl

/-- Comparing a list with one made of it compares the images of each item. -/
theorem Comparison.zip_map {α β γ : Type} (checks : β → γ → Comparison) (f : α → β) (g : α → γ)
    (as : List α) : zip checks (as.map f) (as.map g) = as.flatMap fun a => checks (f a) (g a) := by
  rw [zip, List.zip_map', List.flatMap_map]

namespace Program.IsRenaming

variable {p : Program} {naming : String → String} {mentions : List Mention}
  (faithful : p.IsRenaming naming mentions) (valid : p.validate = .ok ())

include faithful valid

theorem typePair?_rename {name : String} (used : name ∈ p.usedNames mentions) :
    Comparison.typePair? p (p.rename naming) name (naming name) =
      (p.typeNamed? name).map fun t => (t, t) := by
  rw [Comparison.typePair?, faithful.typeNamed?_rename valid used]
  cases p.typeNamed? name <;> rfl

/-- A type is voted for as its own counterpart; an external name is the same in the copy. -/
theorem typeNames_rename {name : String} (used : name ∈ p.usedNames mentions) :
    Comparison.typeNames p (p.rename naming) name (naming name) =
      (p.typeNamed? name).toList.map fun t => .ballot (.type t t) := by
  rw [Comparison.typeNames, faithful.typePair?_rename valid used]
  cases found : p.typeNamed? name with
  | some t => rfl
  | none =>
      rw [faithful.fixed used found]
      exact Comparison.same_self name

/-- So it is for the class in the descriptor of a type, if there is one. -/
theorem descriptors_rename {s : TypeSig} (spelled : s.IsSpelled)
    (spelled' : (s.rename naming).IsSpelled)
    (used : ∀ name ∈ s.classNames, name ∈ p.usedNames mentions) :
    Comparison.descriptors p (p.rename naming) s.descriptor (s.rename naming).descriptor =
      (s.classNames.filterMap p.typeNamed?).map fun t => .ballot (.type t t) := by
  obtain ⟨depth, leaf, shape⟩ : ∃ depth leaf, s.element = (depth, leaf) := ⟨_, _, rfl⟩
  have names : s.classNames = leaf.toList := by rw [spelled.erased.classNames_eq, shape]
  -- what leads to no ballot is compared as text, which only external names and primitives keep
  have unchanged : (∀ name ∈ s.classNames, naming name = name) →
      Comparison.same s.descriptor (s.rename naming).descriptor = [] := by
    intro fixed
    rw [(TypeSig.rename_of_fixed naming).1 s fixed, Comparison.same_self]
  rw [Comparison.descriptors, TypeSig.elementClass_descriptor spelled.isReadable,
    TypeSig.elementClass_descriptor spelled'.isReadable, TypeSig.element_rename, shape]
  cases leaf with
  | none =>
      have nothing := unchanged (by simp [names])
      simpa [names] using nothing
  | some name =>
      have named := used name (by simp [names])
      have pair := faithful.typePair?_rename valid named
      cases found : p.typeNamed? name with
      | some t =>
          rw [found] at pair
          simp [names, pair, found]
      | none =>
          rw [found] at pair
          have nothing := unchanged (by simp [names, faithful.fixed named found])
          simp [names, pair, found, nothing]

/-- The comparison of two method descriptors is that of the types they spell. -/
theorem methodDescriptors_rename {text : String}
    (mentioned : text ∈ mentions.flatMap Mention.descriptors) :
    Comparison.methodDescriptors p (p.rename naming) text (Descriptor.rename naming text) =
      ((Descriptor.classNames text).filterMap p.typeNamed?).map
        fun t => .ballot (.type t t) := by
  obtain ⟨s, rfl, names, spelled, renamed, spelled'⟩ := (faithful.mentioned mentioned).spelled
  have used : ∀ name ∈ s.classNames, name ∈ p.usedNames mentions := by
    rw [names]
    exact fun name => mem_usedNames_of_descriptor mentioned
  have params : Comparison.zip (Comparison.descriptors p (p.rename naming))
      (s.params.map TypeSig.descriptor) ((s.rename naming).params.map TypeSig.descriptor) =
      ((s.params.flatMap TypeSig.classNames).filterMap p.typeNamed?).map
        fun t => .ballot (.type t t) := by
    rw [MethodSignature.rename, List.map_map, Comparison.zip_map, List.filterMap_flatMap,
      List.map_flatMap]
    apply List.flatMap_congr
    intro param member
    apply faithful.descriptors_rename valid (spelled.params param member)
    · exact spelled'.params _ (List.mem_map_of_mem member)
    · intro name inside
      exact used name (List.mem_append_left _ (List.mem_flatMap.mpr ⟨param, member, inside⟩))
  have ret := faithful.descriptors_rename valid spelled.ret spelled'.ret
    fun name inside => used name (List.mem_append_right _ inside)
  rw [renamed, Comparison.methodDescriptors, Descriptor.splitParams_descriptor spelled.isReadable,
    Descriptor.splitParams_descriptor spelled'.isReadable,
    Descriptor.returnPart_descriptor spelled, Descriptor.returnPart_descriptor spelled', params,
    ← names, MethodSignature.classNames]
  simp [ret, MethodSignature.rename]

theorem fieldRefs_rename {ref : MemberRef} (used : ref.owner ∈ p.usedNames mentions) :
    Comparison.fieldRefs p (p.rename naming) ref (ref.renameField naming) =
      ((Mention.field ref).ballots p).map .ballot := by
  rw [Comparison.fieldRefs, MemberRef.renameField, faithful.typePair?_rename valid used]
  cases found : p.typeNamed? ref.owner with
  | none =>
      simp [faithful.fixed used found, Mention.ballots, Mention.referents, Mention.memberBallot?,
        found]
  | some t =>
      have member := faithful.findField?_rename valid t ref.name
      cases lookup : p.findField? t ref.name <;>
        simp [member, lookup, Mention.ballots, Mention.referents, Mention.memberBallot?, found]

theorem methodRefs_rename {isStatic : Bool} {ref : MemberRef}
    (used : ref.owner ∈ p.usedNames mentions)
    (mentioned : ref.descriptor ∈ mentions.flatMap Mention.descriptors) :
    Comparison.methodRefs p (p.rename naming) (p.findCalled? isStatic)
      ((p.rename naming).findCalled? isStatic) ref (ref.renameMethod naming) =
      ((Mention.method isStatic ref).ballots p).map .ballot := by
  rw [Comparison.methodRefs, MemberRef.renameMethod, faithful.typePair?_rename valid used]
  cases found : p.typeNamed? ref.owner with
  | none =>
      simp [faithful.fixed used found, Mention.ballots, Mention.referents, Mention.memberBallot?,
        found]
  | some t =>
      have member : (p.rename naming).findCalled? isStatic t ref.name
          (Descriptor.rename naming ref.descriptor) = _ :=
        faithful.findCalled?_rename valid mentioned isStatic t
      cases lookup : p.findCalled? isStatic t ref.name ref.descriptor <;>
        simp [member, lookup, Mention.ballots, Mention.referents, Mention.memberBallot?, found]

/-- **A mention and its copy lead to the same things.** -/
theorem renamed_eq {m : Mention} (mentioned : m ∈ mentions) :
    Comparison.renamed p (p.rename naming) naming m = (m.ballots p).map .ballot := by
  have used : ∀ name ∈ m.referents, name ∈ p.usedNames mentions :=
    fun name => mem_usedNames_of_referent mentioned
  have spelled : ∀ text ∈ m.descriptors, text ∈ mentions.flatMap Mention.descriptors :=
    fun text member => List.mem_flatMap.mpr ⟨m, mentioned, member⟩
  cases m with
  | type name =>
      have checks := faithful.typeNames_rename valid (used name List.mem_cons_self)
      cases found : p.typeNamed? name <;>
        simp [Comparison.renamed, checks, Mention.ballots, Mention.referents,
          Mention.memberBallot?, found]
  | descriptor text =>
      have checks := faithful.methodDescriptors_rename valid (spelled text List.mem_cons_self)
      simp [Comparison.renamed, checks, Mention.ballots, Mention.referents, Mention.memberBallot?]
  | field ref => exact faithful.fieldRefs_rename valid (used ref.owner List.mem_cons_self)
  | method isStatic ref =>
      exact faithful.methodRefs_rename valid (used ref.owner List.mem_cons_self)
        (spelled ref.descriptor List.mem_cons_self)

/-- All that a statement of the code is compared by are ballots for what it mentions. -/
theorem statements_eq {s : Statement} (comparable : s.IsComparable)
    (among : s.mentions ⊆ mentions) :
    Comparison.statements p (p.rename naming) s (s.rename naming) =
      (s.mentions.flatMap (Mention.ballots p)).map .ballot := by
  rw [Comparison.statements_rename comparable, Comparison.allRenamed, List.map_flatMap]
  exact List.flatMap_congr fun m member => faithful.renamed_eq valid (among member)

end Program.IsRenaming

/-! ## Counting references -/

/-- The number of references to a type: classes in the signatures and descriptors that are compared,
owners of fields, methods and closures, and exceptions that are caught. -/
def Program.referenceCount (p : Program) (mentions : List Mention) (t : TypeId) : Nat :=
  ((mentions.flatMap Mention.referents).filterMap p.typeNamed?).count t

/-- A type has as many ballots as there are references to it. -/
theorem Mention.count_ballots (p : Program) (m : Mention) (o n : TypeId) :
    (m.ballots p).count (.type o n) = if o = n then p.referenceCount [m] o else 0 := by
  have members : (m.memberBallot? p).toList.count (.type o n) = 0 := by
    apply List.count_eq_zero.mpr
    intro listed
    obtain ⟨f, same⟩ | ⟨m, same⟩ := memberBallot?_cases (Option.mem_toList.mp listed)
    · cases same
    · cases same
  rw [ballots, List.count_append, members, Nat.add_zero]
  split_ifs with same
  · subst same
    have injective : Function.Injective fun t => Ballot.type t t := by
      intro t u same
      exact (Ballot.type.inj same).1
    rw [List.count_map_of_injective _ _ injective]
    simp [Program.referenceCount]
  · apply List.count_eq_zero.mpr
    intro listed
    obtain ⟨t, -, same'⟩ := List.mem_map.mp listed
    obtain ⟨rfl, rfl⟩ := Ballot.type.inj same'
    exact same rfl

theorem Program.count_ballots (p : Program) (mentions : List Mention) (o n : TypeId) :
    (mentions.flatMap (Mention.ballots p)).count (.type o n) =
      if o = n then p.referenceCount mentions o else 0 := by
  induction mentions with
  | nil => simp [referenceCount]
  | cons m rest ih =>
      rw [List.flatMap_cons, List.count_append, ih, m.count_ballots p]
      split_ifs with same
      · simp [referenceCount, List.filterMap_append, List.count_append]
      · rfl

/-! ## Comparing a statement with its copy -/

/-- Static members are static in the copy, too. -/
theorem Ballot.IsAlike.isFair {p : Program} {names : MappingSet} {naming : String → String}
    {settings : MergeSettings} {b : Ballot} (alike : b.IsAlike) :
    b.IsFair (.of p names (p.rename naming) settings) := by
  cases b with
  | type old new => trivial
  | method old new =>
      obtain rfl := alike
      exact (p.methodIsStatic_rename naming old).symm
  | field old new =>
      obtain rfl := alike
      exact (p.fieldIsStatic_rename naming old).symm

/-- **Code agrees with its renamed copy**, and votes for what it refers to, once for each
reference. -/
theorem Work.compare_renamed {p : Program} (names : MappingSet) (settings : MergeSettings)
    {naming : String → String} {body : List Statement} (valid : p.validate = .ok ())
    (faithful : p.IsRenaming naming (Statement.listMentions body))
    (comparable : Statement.AllComparable body) {s : Statement} (member : s ∈ body)
    {before : State} (isOpen : before.ledger.IsOpen) :
    let c := Context.of p names (p.rename naming) settings
    let checks := Comparison.statements p (p.rename naming) s (s.rename naming)
    (∀ b ∈ triedBallots c before.ledger checks, b.IsAlike) ∧
    ∃ after, Work.compare c checks before = .ok true after ∧ after.ledger.IsOpen ∧
      ∀ o n, after.ledger.types.tally (.real o) n = before.ledger.types.tally (.real o) n +
        if o = n then p.referenceCount s.mentions o else 0 := by
  intro c checks
  have listed : checks = (s.mentions.flatMap (Mention.ballots p)).map .ballot :=
    faithful.statements_eq valid (comparable.of_mem member) (Statement.mentions_subset member)
  have alike : ∀ b ∈ s.mentions.flatMap (Mention.ballots p), b.IsAlike := by
    intro b cast
    obtain ⟨m, -, inside⟩ := List.mem_flatMap.mp cast
    exact Mention.isAlike_of_mem_ballots inside
  have fair : ∀ b ∈ s.mentions.flatMap (Mention.ballots p), b.IsFair c := by
    intro b cast
    exact Ballot.IsAlike.isFair (alike b cast)
  have verdict : checks.verdict (Ballot.accepted c before.ledger) =
      ⟨true, s.mentions.flatMap (Mention.ballots p)⟩ := by
    rw [listed]
    exact Comparison.verdict_of_accepted fun b cast => (isOpen.accepted (fair b cast)).2
  have compared := Work.compare_eq c checks before
  rw [triedBallots, verdict] at compared
  rw [triedBallots, verdict]
  obtain ⟨openAfter, counted⟩ := isOpen.castAll fair
  refine ⟨alike, _, compared, openAfter, ?_⟩
  intro o n
  rw [← p.count_ballots]
  exact counted o n

/-- A class is renamed together with a statement that refers to it four times. -/
theorem Work.compare_renamed_single :
    let p := Program.single "foo" "f"
    let naming := fun name => if name = "foo" then "bar" else name
    let make : MethodSignature := ⟨[.class "foo" []], .array (.class "foo" [])⟩
    let s : Statement := .localAssignment ⟨1, some (.class "foo" [])⟩
      (.staticInvoke ⟨"lib", "make", make.descriptor⟩
        [.instanceFieldAccess ⟨"foo", "f", "I"⟩ .nullConstant])
    let c := Context.of p ∅ (p.rename naming) default
    let checks := Comparison.statements p (p.rename naming) s (s.rename naming)
    p.validate = .ok () ∧ p.IsRenaming naming (Statement.listMentions [s]) ∧
      Statement.AllComparable [s] ∧ State.initial.ledger.IsOpen ∧
      ∃ after, Work.compare c checks .initial = .ok true after ∧
        after.ledger.types.tally (.real ⟨0⟩) ⟨0⟩ = 4 := by
  intro p naming make s c checks
  have valid := Program.validate_single "foo" "f"
  have foo : Descriptor.CanSpell "foo" := ⟨by decide, by decide, by decide⟩
  have bar : Descriptor.CanSpell "bar" := ⟨by decide, by decide, by decide⟩
  have names : make.classNames = ["foo", "foo"] := rfl
  have spelled : (TypeSig.class "foo" []).IsSpelled :=
    ⟨rfl, by simp [TypeSig.classNames, TypeArg.listClassNames, foo]⟩
  have spelledMake : make.IsSpelled :=
    ⟨by simp [make, spelled], spelled.erased, spelled.names⟩
  obtain ⟨named, survives⟩ : _ ∧ Descriptor.Survives naming make.descriptor :=
    Descriptor.survives_descriptor spelledMake (by simp [names, naming, bar])
  have mentions : Statement.listMentions [s] =
      [.type "foo", .method true ⟨"lib", "make", make.descriptor⟩, .descriptor make.descriptor,
        .field ⟨"foo", "f", "I"⟩] := rfl
  have faithful : p.IsRenaming naming (Statement.listMentions [s]) := by
    rw [mentions]
    apply Program.isRenaming_single
    · simp [Mention.names, Mention.referents, Mention.descriptors, named, names]
    · simpa [Mention.descriptors] using survives
  have comparable : Statement.AllComparable [s] := ⟨trivial, trivial⟩
  have isOpen : State.initial.ledger.IsOpen := Ledger.empty_isOpen
  obtain ⟨-, after, compared, -, counted⟩ :=
    compare_renamed ∅ default valid faithful comparable List.mem_cons_self isOpen
  refine ⟨valid, faithful, comparable, isOpen, after, compared, ?_⟩
  have known : p.typeNamed? "foo" = some ⟨0⟩ := by decide
  have unknown : p.typeNamed? "lib" = none := by decide
  have four : p.referenceCount s.mentions ⟨0⟩ = 4 := by
    change p.referenceCount (Statement.listMentions [s]) ⟨0⟩ = 4
    rw [mentions]
    simp [Program.referenceCount, Mention.referents, known, unknown, named, names]
  rw [counted, if_pos rfl, four]
  rfl

end Namesake
