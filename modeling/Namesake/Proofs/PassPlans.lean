import Namesake.Proofs.Accounts
import Namesake.Proofs.PassWarrants

/-! # What passes plan

Passes that decide beforehand follow few rules about methods and placeholders, whatever the two
programs are. A ballot for methods is cast where elimination leaves two of them with the same key,
where they override two confirmed ones, where they share text constants or are what two confirmed
ones refer to, or where a registration method tells so (`Ballot.IsPlanned`). Only initializers and
lone methods are confirmed without a vote, and only fields with the constants of an enum and targets
of bridges are confirmed for placeholders (`Action.IsPlanned`).

So what passes keep is shown by going through these ways once (`Pass.isPlanned_or_isCalledFor`).
-/

namespace Namesake

variable {c : Context} {l : Ledger}

/-- Why a ballot is cast about a ledger. Types and fields are voted for in many ways that all come
to the same here. -/
inductive Ballot.IsPlanned (c : Context) (l : Ledger) : Ballot → Prop
  | type (o n : TypeId) : IsPlanned c l (.type o n)
  | field (f g : FieldId) : IsPlanned c l (.field f g)
  | eliminated {olds news : List MethodId} {b : Ballot}
      (member : b ∈ eliminateMethods c l olds news) : IsPlanned c l b
  | overriding {m n : MethodId} {group : OverrideGroup} {b : Ballot}
      (confirmed : l.methods.target? (.real m) = some n)
      (found : c.old.groups.group? m = some group) (several : 1 < group.members.length)
      (member : b ∈ overrideBallots c l group n) : IsPlanned c l b
  | literal {o n : TypeId} {text : String} {m m' : MethodId}
      (confirmed : l.types.target? (.real o) = some n)
      (old : (c.old.program.methodLiterals o).get? text = some m)
      (new : (c.new.program.methodLiterals n).get? text = some m') : IsPlanned c l (.method m m')
  | compared {m n : MethodId} {b : Ballot} (confirmed : l.methods.target? (.real m) = some n)
      (check : Check.ballot b ∈ Comparison.methods c.old.program c.new.program
        (c.old.program.method m) (c.new.program.method n)) : IsPlanned c l b
  | registered {m n : MethodId} {handler : RegistrationHandler} {b : Ballot}
      (confirmed : l.methods.target? (.real m) = some n)
      (read : registry.get? (oldMethodKey c m) = some handler)
      (member : b ∈ handler.ballots c l m n) : IsPlanned c l b

/-- Why something is done about a ledger. -/
inductive Action.IsPlanned (c : Context) (l : Ledger) : Action → Prop
  | vote {b : Ballot} (planned : b.IsPlanned c l) : IsPlanned c l (.vote b)
  | type (o n : TypeId) : IsPlanned c l (.confirmType (.real o) n)
  | initializers {o n : TypeId} {m m' : MethodId} (confirmed : l.types.target? (.real o) = some n)
      (old : c.old.program.staticInitializer? o = some m)
      (new : c.new.program.staticInitializer? n = some m') :
      IsPlanned c l (.confirmMethod (.real m) m')
  | lone {o n : TypeId} {m m' : MethodId} (confirmed : l.types.target? (.real o) = some n)
      (old : c.old.program.loneMethod? o = some m) (new : c.new.program.loneMethod? n = some m') :
      IsPlanned c l (.confirmMethod (.real m) m')
  | bridge {t : TypeId} {bridge m : MethodId} (listed : bridge ∈ c.new.program.instanceMethods t)
      (leads : c.new.program.bridgeTarget? t bridge = some m) :
      IsPlanned c l (.confirmMethod (.synthetic ⟨some (c.new.program.type t).name,
        (c.new.program.method bridge).name, some (c.new.program.method m).descriptor⟩) m)
  | constants {t : TypeId} {f : FieldId} (found : c.new.program.constantsField? t = some f) :
      IsPlanned c l (.confirmField (.synthetic ⟨some (c.new.program.type t).name, "$VALUES",
        some (c.new.program.field f).descriptor⟩) f)
  | mergedType (o : TypeId) : IsPlanned c l (.mergedType o)
  | mergedMethod (m : MethodId) : IsPlanned c l (.mergedMethod m)
  | mergedField (f : FieldId) : IsPlanned c l (.mergedField f)

/-! ## Ballots -/

theorem isPlanned_eliminateFields {olds news : List FieldId} {b : Ballot}
    (member : b ∈ eliminateFields c l olds news) : b.IsPlanned c l := by
  obtain ⟨⟨f, g⟩, -, rfl⟩ := List.mem_map.mp member
  exact .field f g

theorem isPlanned_matchDiscreteFields {b : Ballot} (member : b ∈ matchDiscreteFields c l) :
    b.IsPlanned c l := by
  obtain ⟨⟨o, n⟩, -, member⟩ := List.mem_flatMap.mp member
  rcases List.mem_append.mp member with instances | statics
  · exact isPlanned_eliminateFields instances
  · exact isPlanned_eliminateFields statics

theorem isPlanned_matchDiscreteMethods {b : Ballot} (member : b ∈ matchDiscreteMethods c l) :
    b.IsPlanned c l := by
  obtain ⟨⟨o, n⟩, -, member⟩ := List.mem_flatMap.mp member
  rcases List.mem_append.mp member with instances | statics
  · exact .eliminated instances
  · exact .eliminated statics

theorem isPlanned_compareReferrers {olds news : List MethodId} {b : Ballot}
    (member : b ∈ compareReferrers c l olds news) : b.IsPlanned c l := by
  unfold compareReferrers at member
  dsimp only at member
  rcases List.mem_append.mp member with owners | eliminated
  · split at owners
    · obtain rfl := List.mem_singleton.mp owners
      exact .type _ _
    · cases owners
  · obtain ⟨⟨t, methods⟩, -, member⟩ := List.mem_flatMap.mp eliminated
    dsimp only at member
    split at member
    · cases member
    · split at member
      · cases member
      · exact .eliminated member

theorem isPlanned_matchReferences {b : Ballot} (member : b ∈ matchReferences c l) :
    b.IsPlanned c l := by
  unfold matchReferences at member
  dsimp only at member
  rcases List.mem_append.mp member with external | internal
  · obtain ⟨⟨r, referrers⟩, -, here⟩ := List.mem_flatMap.mp external
    exact isPlanned_compareReferrers here
  obtain ⟨⟨o, n⟩, -, member⟩ := List.mem_flatMap.mp internal
  rcases List.mem_append.mp member with member | methods
  · rcases List.mem_append.mp member with created | fields
    · rcases List.mem_append.mp created with member | member
      · exact isPlanned_compareReferrers member
      · exact isPlanned_compareReferrers member
    · obtain ⟨f, -, member⟩ := List.mem_flatMap.mp fields
      split at member
      · cases member
      · rcases List.mem_append.mp member with member | member
        · exact isPlanned_compareReferrers member
        · exact isPlanned_compareReferrers member
  · obtain ⟨m, -, member⟩ := List.mem_flatMap.mp methods
    split at member
    · cases member
    · rcases List.mem_append.mp member with sites | member
      · split at sites
        · obtain rfl := List.mem_singleton.mp sites
          exact .type _ _
        · cases sites
      · exact isPlanned_compareReferrers member

theorem isPlanned_matchEnums {b : Ballot} (member : b ∈ matchEnums c) : b.IsPlanned c l := by
  obtain ⟨n, -, member⟩ := List.mem_flatMap.mp member
  obtain ⟨o, -, voted⟩ := List.mem_filterMap.mp member
  dsimp only at voted
  split_ifs at voted
  obtain rfl := Option.some.inj voted
  exact .type o n

theorem isPlanned_matchNested {b : Ballot} (member : b ∈ matchNested c l) : b.IsPlanned c l := by
  obtain ⟨⟨o, n⟩, -, member⟩ := List.mem_flatMap.mp member
  obtain ⟨⟨o', n'⟩, -, rfl⟩ := List.mem_map.mp member
  exact .type o' n'

theorem isPlanned_overridesFrom {met : List MethodId} {pairs : List (MethodId × MethodId)}
    (confirmed : ∀ m n, (m, n) ∈ pairs → l.methods.target? (.real m) = some n) {b : Ballot}
    (member : b ∈ overridesFrom c l met pairs) : b.IsPlanned c l := by
  induction pairs generalizing met with
  | nil => cases member
  | cons pair rest ih =>
      obtain ⟨m, n⟩ := pair
      have later : ∀ m n, (m, n) ∈ rest → l.methods.target? (.real m) = some n :=
        fun m n listed => confirmed m n (List.mem_cons_of_mem _ listed)
      unfold overridesFrom at member
      split at member
      · exact ih later member
      next group found =>
      split_ifs at member with skipped
      · exact ih later member
      · rw [Bool.or_eq_true, not_or, decide_eq_true_eq, Nat.not_le] at skipped
        rcases List.mem_append.mp member with here | member
        · exact .overriding (confirmed m n List.mem_cons_self) found skipped.1 here
        · exact ih later member

theorem isPlanned_pairInterfaces {o n : TypeId} {b : Ballot} (member : b ∈ pairInterfaces c l o n) :
    b.IsPlanned c l := by
  obtain ⟨i, j, rfl, -⟩ := mem_pairInterfaces_iff.mp member
  exact .type i j

/-! ## Following up on confirmed pairs -/

theorem isPlanned_expandTypes {o n : TypeId} (confirmed : l.types.target? (.real o) = some n)
    {a : Action} (member : a ∈ expandTypes c l o n) : a.IsPlanned c l := by
  unfold expandTypes at member
  dsimp only at member
  rcases List.mem_append.mp member with member | speaking
  · rcases List.mem_append.mp member with types | lone
    · obtain ⟨b, ballot, rfl⟩ := List.mem_map.mp types
      rcases List.mem_append.mp ballot with superclasses | interfaces
      · split at superclasses
        · obtain rfl := List.mem_singleton.mp superclasses
          exact .vote (.type _ _)
        · cases superclasses
      · exact .vote (isPlanned_pairInterfaces interfaces)
    · split at lone
      · next m m' old new =>
        obtain rfl := List.mem_singleton.mp lone
        exact .lone confirmed old new
      · cases lone
  · obtain ⟨b, ballot, rfl⟩ := List.mem_map.mp speaking
    obtain ⟨⟨text, m⟩, old, voted⟩ := List.mem_filterMap.mp ballot
    obtain ⟨m', new, rfl⟩ := Option.map_eq_some_iff.mp voted
    exact .vote (.literal confirmed (SortedMap.mem_toList.mp old) new)

theorem isPlanned_mergeTypes (sound : l.types.Sound) {a : Action} (member : a ∈ mergeTypes c l) :
    a.IsPlanned c l := by
  obtain ⟨⟨o, n⟩, pair, member⟩ := List.mem_flatMap.mp member
  rcases List.mem_cons.mp member with rfl | expansion
  · exact .mergedType o
  · exact isPlanned_expandTypes (sound.mem_unmergedPairs.mp pair).1 expansion

theorem isPlanned_mergeMethods (sound : l.methods.Sound) {a : Action}
    (member : a ∈ mergeMethods c l) : a.IsPlanned c l := by
  obtain ⟨⟨m, n⟩, pair, member⟩ := List.mem_flatMap.mp member
  rcases List.mem_cons.mp member with rfl | tried
  · exact .mergedMethod m
  · obtain ⟨b, ballot, rfl⟩ := List.mem_map.mp tried
    have confirmed := (sound.mem_unmergedPairs.mp pair).1
    exact .vote (.compared confirmed (Comparison.mem_of_mem_verdict ballot))

/-- Two types are compared by ballots for types. -/
theorem Comparison.eq_type_of_mem_typeSigs {old new : Program} {a b : TypeSig} {ballot : Ballot}
    (check : Check.ballot ballot ∈ typeSigs old new a b) : ∃ o n, ballot = .type o n := by
  have names (a b : String) (check : Check.ballot ballot ∈ typeNames old new a b) :
      ∃ o n, ballot = .type o n := by
    unfold typeNames at check
    split at check
    · next o n _ => exact ⟨o, n, Check.ballot.inj (List.mem_singleton.mp check)⟩
    · unfold same at check
      split_ifs at check <;> simp at check
  have agree {α : Type} [DecidableEq α] (a b : α) : Check.ballot ballot ∉ same a b := by
    unfold same
    split_ifs <;> simp
  have all : (∀ a b, Check.ballot ballot ∈ typeSigs old new a b → ∃ o n, ballot = .type o n) ∧
      ∀ as bs, Check.ballot ballot ∈ typeArgs old new as bs → ∃ o n, ballot = .type o n := by
    apply typeSigs.mutual_induct
    all_goals
      intros
      grind [typeSigs, typeArgs]
  exact all.1 a b check

theorem isPlanned_mergeFields {a : Action} (member : a ∈ mergeFields c l) : a.IsPlanned c l := by
  obtain ⟨⟨f, g⟩, -, member⟩ := List.mem_flatMap.mp member
  rcases List.mem_cons.mp member with rfl | tried
  · exact .mergedField f
  · obtain ⟨b, ballot, rfl⟩ := List.mem_map.mp tried
    obtain ⟨o, n, rfl⟩ := Comparison.eq_type_of_mem_typeSigs (Comparison.mem_of_mem_verdict ballot)
    exact .vote (.type o n)

theorem isPlanned_mergeRegistrations (sound : l.methods.Sound) {a : Action}
    (member : a ∈ mergeRegistrations c l) : a.IsPlanned c l := by
  obtain ⟨⟨m, n⟩, pair, member⟩ := List.mem_flatMap.mp member
  dsimp only at member
  split at member
  · cases member
  next handler read =>
  rcases List.mem_cons.mp member with rfl | handled
  · exact .mergedMethod m
  · obtain ⟨b, ballot, rfl⟩ := List.mem_map.mp handled
    exact .vote (.registered (sound.mem_unmergedPairs.mp pair).1 read ballot)

/-! ## Confirmations -/

theorem isPlanned_matchLiterals {a : Action} (member : a ∈ matchLiterals c) : a.IsPlanned c l := by
  obtain ⟨⟨o, n⟩, -, rfl⟩ := List.mem_map.mp member
  exact .type o n

theorem isPlanned_matchBridges {a : Action} (member : a ∈ matchBridges c) : a.IsPlanned c l := by
  obtain ⟨t, -, member⟩ := List.mem_flatMap.mp member
  rcases List.mem_append.mp member with constants | bridges
  · obtain ⟨f, found, rfl⟩ := List.mem_map.mp constants
    exact .constants (Option.mem_toList.mp found)
  · obtain ⟨bridge, listed, target⟩ := List.mem_filterMap.mp bridges
    obtain ⟨m, leads, rfl⟩ := Option.map_eq_some_iff.mp target
    exact .bridge listed leads

theorem isPlanned_linkInitializers (sound : l.types.Sound) {a : Action}
    (member : a ∈ linkInitializers c l) : a.IsPlanned c l := by
  obtain ⟨⟨o, n⟩, pair, linked⟩ := List.mem_filterMap.mp member
  simp only [Option.bind_eq_bind, Option.bind_eq_some_iff, Option.pure_def,
    Option.some.injEq] at linked
  obtain ⟨m, old, m', new, rfl⟩ := linked
  exact .initializers (sound.mem_pairs.mp pair) old new

/-! ## All passes -/

namespace Pass

variable (sound : l.Each Partition.Sound) {pass : Pass}

include sound

/-- **What passes plan.** -/
theorem isPlanned_of_plan? {actions : List Action} (planned : pass.plan? c l = some actions) :
    ∀ a ∈ actions, a.IsPlanned c l := by
  have voted {ballots : List Ballot} (planned : ∀ b ∈ ballots, b.IsPlanned c l) :
      ∀ a ∈ ballots.map Action.vote, a.IsPlanned c l := by
    intro a member
    obtain ⟨b, ballot, rfl⟩ := List.mem_map.mp member
    exact .vote (planned b ballot)
  cases pass with
  | collector => cases planned
  | literals =>
      obtain rfl := Option.some.inj planned
      exact fun a => isPlanned_matchLiterals
  | bridges =>
      obtain rfl := Option.some.inj planned
      exact fun a => isPlanned_matchBridges
  | enums =>
      obtain rfl := Option.some.inj planned
      exact voted fun b => isPlanned_matchEnums
  | initializers =>
      obtain rfl := Option.some.inj planned
      exact fun a => isPlanned_linkInitializers sound.types
  | references =>
      obtain rfl := Option.some.inj planned
      exact voted fun b => isPlanned_matchReferences
  | discreteFields =>
      obtain rfl := Option.some.inj planned
      exact voted fun b => isPlanned_matchDiscreteFields
  | overrides =>
      obtain rfl := Option.some.inj planned
      exact voted fun b => isPlanned_overridesFrom fun m n => sound.methods.mem_pairs.mp
  | discreteMethods =>
      obtain rfl := Option.some.inj planned
      exact voted fun b => isPlanned_matchDiscreteMethods
  | nestedTypes =>
      obtain rfl := Option.some.inj planned
      exact voted fun b => isPlanned_matchNested
  | confirmedTypes =>
      obtain rfl := Option.some.inj planned
      exact fun a => isPlanned_mergeTypes sound.types
  | registrations =>
      obtain rfl := Option.some.inj planned
      exact fun a => isPlanned_mergeRegistrations sound.methods
  | confirmedMethods =>
      obtain rfl := Option.some.inj planned
      exact fun a => isPlanned_mergeMethods sound.methods
  | confirmedFields =>
      obtain rfl := Option.some.inj planned
      exact fun a => isPlanned_mergeFields

/-- **Whatever a pass may do is planned or called for.** -/
theorem isPlanned_or_isCalledFor {a : Action} (may : pass.MayTake c l a) :
    a.IsPlanned c l ∨ a.IsCalledFor c l := by
  unfold MayTake at may
  cases planned : pass.plan? c l with
  | some actions =>
      rw [planned] at may
      exact .inl (isPlanned_of_plan? sound planned a may)
  | none =>
      rw [planned] at may
      exact .inr may

end Pass

end Namesake
