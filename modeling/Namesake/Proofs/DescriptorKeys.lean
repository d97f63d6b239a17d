import Namesake.Proofs.DescriptorParts
import Namesake.Proofs.PassWarrants
import Namesake.Proofs.PropagatedOverrides

/-! # Keys of descriptors

The key of a type tells of what kind its elements are, and it tells its dimensions unless its class
has no counterpart: all types over such classes have one key, whatever their dimensions
(`fieldKey_eq_iff`). So elimination votes only for fields of types of the same shape, or of types
whose classes both lack a counterpart (`Pass.discreteFields_keeps_shape`), and there it can vote for
an array where the other field is none (`Pass.discreteFields_loses_depth`).
-/

namespace Namesake

/-! ## What a key tells -/

namespace TypeSig

/-- Two types have the same dimensions, over elements that are both primitive or both of a class. -/
structure SameShape (s t : TypeSig) : Prop where
  depth : s.element.1 = t.element.1
  kind : s.element.2.isSome = t.element.2.isSome

/-- A readable type over primitive elements is spelled by brackets and a letter. -/
theorem IsReadable.erasedChars_of_primitive {t : TypeSig} (readable : t.IsReadable)
    (primitive : t.element.2 = none) : ∃ code, isPrimitiveCode code = true ∧
      t.erasedChars = List.replicate t.element.1 '[' ++ [code] := by
  induction t using TypeSig.element.induct with
  | case1 code => exact ⟨code, readable, rfl⟩
  | case2 name => exact readable.elim
  | case3 name args => cases primitive
  | case4 inner ih =>
      obtain ⟨code, letter, spelled⟩ := ih readable primitive
      refine ⟨code, letter, ?_⟩
      rw [erasedChars_array, spelled]
      rfl

end TypeSig

/-- Brackets and what is behind them can be told from the text. -/
theorem bracketed_inj {n m : Nat} {mark mark' : Char} {rest rest' : List Char} (other : mark ≠ '[')
    (other' : mark' ≠ '[') :
    List.replicate n '[' ++ mark :: rest = List.replicate m '[' ++ mark' :: rest' ↔
      n = m ∧ mark = mark' ∧ rest = rest' := by
  induction n generalizing m with
  | zero => cases m <;> simp [List.replicate_succ, other]
  | succ n ih =>
      cases m with
      | zero => simp [List.replicate_succ, Ne.symm other']
      | succ m => simp [List.replicate_succ, ih]

/-- What the key of a type is made of: brackets, the mark behind them, and what follows. Over
primitive elements it is the descriptor, over a class that both builds agree on it spells the name
they use, and otherwise it is a star. -/
inductive KeyForm (classKey? : String → Option String) (t : TypeSig) : Nat → Char → List Char → Prop
  | primitive {code : Char} (element : t.element.2 = none) (letter : isPrimitiveCode code = true)
      (spelled : t.erasedChars = List.replicate t.element.1 '[' ++ [code]) :
      KeyForm classKey? t t.element.1 code []
  | named {name key : String} (element : t.element.2 = some name)
      (known : classKey? name = some key) :
      KeyForm classKey? t t.element.1 'L' (key.toList ++ [';'])
  | star {name : String} (element : t.element.2 = some name) (unknown : classKey? name = none) :
      KeyForm classKey? t 0 '*' []

variable {classKey? classKey?' : String → Option String} {s t : TypeSig}

theorem KeyForm.mark_ne {n : Nat} {mark : Char} {rest : List Char}
    (form : KeyForm classKey? t n mark rest) : mark ≠ '[' := by
  cases form with
  | primitive element letter spelled => exact TypeSig.isPrimitiveCode_ne letter (by decide)
  | named element known => decide
  | star element unknown => decide

/-- The key of a readable type has one of the forms. -/
theorem exists_keyForm (classKey? : String → Option String) (readable : t.IsReadable) :
    ∃ n mark rest, KeyForm classKey? t n mark rest ∧
      (fieldKey classKey? t.descriptor).toList = List.replicate n '[' ++ mark :: rest := by
  have parts : Descriptor.elementClass t.descriptor = (t.element.1, t.element.2) :=
    TypeSig.elementClass_descriptor readable
  rw [fieldKey, parts]
  cases element : t.element.2 with
  | none =>
      obtain ⟨code, letter, spelled⟩ := readable.erasedChars_of_primitive element
      refine ⟨_, _, _, .primitive element letter spelled, ?_⟩
      rw [← spelled]
      exact String.toList_ofList
  | some name =>
      cases known : classKey? name with
      | none =>
          refine ⟨_, _, _, .star element known, ?_⟩
          simp only [known]
          rfl
      | some key =>
          refine ⟨_, _, _, .named element known, ?_⟩
          simp [known]

/-- Two types have one key: they are the same over primitive elements, or arrays of the same
dimensions over classes that both builds agree on, or have classes that both lack a counterpart. -/
inductive KeysAgree (classKey? classKey?' : String → Option String) (s t : TypeSig) : Prop
  | same (primitive : s.element.2 = none) (equal : s = t)
  | agreed {a b key : String} (depth : s.element.1 = t.element.1) (old : s.element.2 = some a)
      (new : t.element.2 = some b) (known : classKey? a = some key)
      (known' : classKey?' b = some key)
  | unmatched {a b : String} (old : s.element.2 = some a) (new : t.element.2 = some b)
      (unknown : classKey? a = none) (unknown' : classKey?' b = none)

/-- **What one key tells about two types.** -/
theorem fieldKey_eq_iff (readable : s.IsReadable) (readable' : t.IsReadable) :
    fieldKey classKey? s.descriptor = fieldKey classKey?' t.descriptor ↔
      KeysAgree classKey? classKey?' s t := by
  constructor
  · intro same
    obtain ⟨n, mark, rest, form, text⟩ := exists_keyForm classKey? readable
    obtain ⟨n', mark', rest', form', text'⟩ := exists_keyForm classKey?' readable'
    rw [← String.toList_inj, text, text', bracketed_inj form.mark_ne form'.mark_ne] at same
    obtain ⟨depth, marks, rests⟩ := same
    cases form with
    | primitive element letter spelled =>
        cases form' with
        | primitive element' letter' spelled' =>
            refine .same element ((TypeSig.descriptor_inj readable readable').mp ?_)
            rw [TypeSig.descriptor, spelled, depth, marks, ← spelled', TypeSig.descriptor]
        | named element' known' => exact (TypeSig.isPrimitiveCode_ne letter (by decide) marks).elim
        | star element' unknown' => exact (TypeSig.isPrimitiveCode_ne letter (by decide) marks).elim
    | named element known =>
        cases form' with
        | primitive element' letter' spelled' =>
            exact (TypeSig.isPrimitiveCode_ne letter' (by decide) marks.symm).elim
        | named element' known' =>
            rw [List.append_cancel_right_eq, String.toList_inj] at rests
            exact .agreed depth element element' known (rests ▸ known')
        | star element' unknown' => exact absurd marks (by decide)
    | star element unknown =>
        cases form' with
        | primitive element' letter' spelled' =>
            exact (TypeSig.isPrimitiveCode_ne letter' (by decide) marks.symm).elim
        | named element' known' => exact absurd marks (by decide)
        | star element' unknown' => exact .unmatched element element' unknown unknown'
  · have parts : Descriptor.elementClass s.descriptor = (s.element.1, s.element.2) :=
      TypeSig.elementClass_descriptor readable
    have parts' : Descriptor.elementClass t.descriptor = (t.element.1, t.element.2) :=
      TypeSig.elementClass_descriptor readable'
    intro agree
    rw [fieldKey, fieldKey, parts, parts']
    cases agree with
    | same primitive equal =>
        subst equal
        simp only [primitive]
    | agreed depth old new known known' => simp only [depth, old, new, known, known']
    | unmatched old new unknown unknown' => simp only [old, new, unknown, unknown']

/-! ## Votes for fields -/

namespace Context

variable (c : Context) (l : Ledger)

/-- A class of the old program that is not confirmed. -/
def IsUnmatchedOld (name : String) : Prop :=
  ∃ o, c.old.program.typeNamed? name = some o ∧ l.types.target? (.real o) = none

/-- A class of the new program that nothing is confirmed onto. -/
def IsUnmatchedNew (name : String) : Prop :=
  ∃ n, c.new.program.typeNamed? name = some n ∧ l.types.holder? n = none

/-- The elements of both types are of classes without a counterpart. -/
def LackCounterparts (s t : TypeSig) : Prop :=
  ∃ a b, s.element.2 = some a ∧ t.element.2 = some b ∧ c.IsUnmatchedOld l a ∧ c.IsUnmatchedNew l b

variable {c l} {name : String}

theorem oldClassKey?_eq_none_iff : oldClassKey? c l name = none ↔ c.IsUnmatchedOld l name := by
  unfold oldClassKey? IsUnmatchedOld
  cases c.old.program.typeNamed? name with
  | none => simp
  | some o => simp

theorem newClassKey?_eq_none_iff : newClassKey? c l name = none ↔ c.IsUnmatchedNew l name := by
  unfold newClassKey? newTypeName? IsUnmatchedNew
  cases found : c.new.program.typeNamed? name with
  | none => simp
  | some n =>
      cases holder : l.types.holder? n with
      | none => simp [holder]
      | some k => cases k <;> simp [holder]

/-- One key on both sides means one shape, but for classes without a counterpart. -/
theorem sameShape_of_fieldKey {s t : TypeSig} (readable : s.IsReadable) (readable' : t.IsReadable)
    (same : fieldKey (oldClassKey? c l) s.descriptor = fieldKey (newClassKey? c l) t.descriptor) :
    s.SameShape t ∨ c.LackCounterparts l s t := by
  cases (fieldKey_eq_iff readable readable').mp same with
  | same primitive equal =>
      subst equal
      exact .inl ⟨rfl, rfl⟩
  | agreed depth old new known known' =>
      refine .inl ⟨depth, ?_⟩
      rw [old, new]
      rfl
  | unmatched old new unknown unknown' =>
      exact .inr ⟨_, _, old, new, oldClassKey?_eq_none_iff.mp unknown,
        newClassKey?_eq_none_iff.mp unknown'⟩

end Context

/-- Elimination votes for fields of one key. -/
theorem fieldKey_of_mem_matchDiscreteFields {c : Context} {l : Ledger} {f g : FieldId}
    (member : Ballot.field f g ∈ matchDiscreteFields c l) :
    fieldKey (oldClassKey? c l) (c.old.program.field f).descriptor =
      fieldKey (newClassKey? c l) (c.new.program.field g).descriptor := by
  have keyed : ∀ olds news, Ballot.field f g ∈ eliminateFields c l olds news →
      fieldKey (oldClassKey? c l) (c.old.program.field f).descriptor =
        fieldKey (newClassKey? c l) (c.new.program.field g).descriptor := by
    intro olds news member
    obtain ⟨⟨o, n⟩, pair, ballot⟩ := List.mem_map.mp member
    obtain ⟨rfl, rfl⟩ := Ballot.field.inj ballot
    exact (mem_of_discretePairs pair).2.2
  obtain ⟨pair, -, member⟩ := List.mem_flatMap.mp member
  rcases List.mem_append.mp member with instances | statics
  · exact keyed _ _ instances
  · exact keyed _ _ statics

namespace Pass

/-- **Keys keep the shape of a type, unless its class is unmatched.** Whatever is confirmed so far,
descriptors of one key spell types of the same dimensions over elements of the same kind, or over
classes that both lack a counterpart. A run of the pass succeeds, and only such fields gain
votes. -/
theorem discreteFields_keeps_shape (c : Context) (before : State) :
    let l := before.ledger
    (∀ d d' s t, TypeSig.ofDescriptor d = .ok s → TypeSig.ofDescriptor d' = .ok t →
      fieldKey (oldClassKey? c l) d = fieldKey (newClassKey? c l) d' →
      s.SameShape t ∨ c.LackCounterparts l s t) ∧
    ∃ after, Pass.discreteFields.run c before = .ok () after ∧
      ∀ f g s t, TypeSig.ofDescriptor (c.old.program.field f).descriptor = .ok s →
        TypeSig.ofDescriptor (c.new.program.field g).descriptor = .ok t →
        l.fields.tally (.real f) g < after.ledger.fields.tally (.real f) g →
        s.SameShape t ∨ c.LackCounterparts l s t := by
  intro l
  have keys : ∀ d d' s t, TypeSig.ofDescriptor d = .ok s → TypeSig.ofDescriptor d' = .ok t →
      fieldKey (oldClassKey? c l) d = fieldKey (newClassKey? c l) d' →
      s.SameShape t ∨ c.LackCounterparts l s t := by
    intro d d' s t read read' same
    rw [TypeSig.ofDescriptor_eq_ok_iff, TypeSig.ofDescriptor?_eq_some_iff] at read read'
    obtain ⟨readable, rfl⟩ := read
    obtain ⟨readable', rfl⟩ := read'
    exact Context.sameShape_of_fieldKey readable readable' same
  refine ⟨keys, _, run_votes rfl, ?_⟩
  intro f g s t read read' gained
  have cast : Ballot.field f g ∈ matchDiscreteFields c l := Ledger.mem_of_tallyOf_lt_castAll gained
  exact keys _ _ s t read read' (fieldKey_of_mem_matchDiscreteFields cast)

end Pass

/-! ### Fields of unmatched classes -/

/-- Two classes, the first of which has a field of a type. -/
def Program.holding (first second : String) (type : TypeSig) : Program where
  types := [{ name := first, kind := .plain, superclass := none, interfaces := [],
              signature := none, enumConstants := [], methods := [], fields := [⟨0⟩] },
            { name := second, kind := .plain, superclass := none, interfaces := [],
              signature := none, enumConstants := [], methods := [], fields := [] }]
  methods := []
  fields := [{ name := "f", descriptor := type.descriptor, type, isStatic := false, owner := ⟨0⟩ }]
  byName := .ofList [(first, ⟨0⟩), (second, ⟨1⟩)]

/-- The merge of a class that has a field of another one, or of an array of it. -/
def Context.holding (before after : TypeSig) : Context :=
  .of (.holding "a" "b" before) ∅ (.holding "x" "y" after) .default

/-- The first types are confirmed in order. -/
def State.withTypes (c : Context) (types : List TypeId) : State :=
  (types.map fun t => Action.confirmType (.real t) t).foldl (State.after c) .initial

namespace Pass

/-- **A star loses the dimensions.** The field of `a` is of the class `b`, and that of `x` an array
of `y`, but neither class has a counterpart, so both fields have the key `*` and are voted for. -/
theorem discreteFields_loses_depth :
    let s := TypeSig.class "b" []
    let t := TypeSig.array (.class "y" [])
    let c := Context.holding s t
    let before := State.withTypes c [⟨0⟩]
    c.old.program.validate = .ok () ∧ c.new.program.validate = .ok () ∧ before.Reachable c ∧
      TypeSig.ofDescriptor "Lb;" = .ok s ∧ TypeSig.ofDescriptor "[Ly;" = .ok t ∧
      fieldKey (oldClassKey? c before.ledger) "Lb;" =
        fieldKey (newClassKey? c before.ledger) "[Ly;" ∧ ¬ s.SameShape t ∧
      ∃ after, Pass.discreteFields.run c before = .ok () after ∧
        before.ledger.fields.tally (.real ⟨0⟩) ⟨0⟩ < after.ledger.fields.tally (.real ⟨0⟩) ⟨0⟩ := by
  intro s t c before
  have differ : ¬ s.SameShape t := by
    intro same
    exact absurd same.depth (by decide)
  exact ⟨rfl, rfl, State.Reachable.initial.foldl_after _, by rfl, by rfl, by rfl, differ, _,
    run_votes rfl, by decide +kernel⟩

/-- Arrays of a class that is confirmed are voted for. -/
theorem discreteFields_keeps_shape_of_confirmed :
    let s := TypeSig.array (.class "b" [])
    let t := TypeSig.array (.class "y" [])
    let c := Context.holding s t
    let before := State.withTypes c [⟨0⟩, ⟨1⟩]
    TypeSig.ofDescriptor "[Lb;" = .ok s ∧ TypeSig.ofDescriptor "[Ly;" = .ok t ∧
      fieldKey (oldClassKey? c before.ledger) "[Lb;" =
        fieldKey (newClassKey? c before.ledger) "[Ly;" ∧
      ∃ after, Pass.discreteFields.run c before = .ok () after ∧
        before.ledger.fields.tally (.real ⟨0⟩) ⟨0⟩ < after.ledger.fields.tally (.real ⟨0⟩) ⟨0⟩ ∧
        s.SameShape t := by
  intro s t c before
  have read : TypeSig.ofDescriptor "[Lb;" = .ok s := by rfl
  have read' : TypeSig.ofDescriptor "[Ly;" = .ok t := by rfl
  have voted : ∃ after, Pass.discreteFields.run c before = .ok () after ∧
      before.ledger.fields.tally (.real ⟨0⟩) ⟨0⟩ <
        after.ledger.fields.tally (.real ⟨0⟩) ⟨0⟩ :=
    ⟨_, run_votes rfl, by decide +kernel⟩
  obtain ⟨-, after, done, shapes⟩ := discreteFields_keeps_shape c before
  obtain ⟨after', done', gained⟩ := voted
  obtain ⟨-, rfl⟩ := EStateM.Result.ok.inj (done.symm.trans done')
  have matched : oldClassKey? c before.ledger "b" ≠ none := by decide +kernel
  have kept : s.SameShape t := by
    refine (shapes ⟨0⟩ ⟨0⟩ s t read read' gained).resolve_right ?_
    rintro ⟨name, -, element, -, unmatched, -⟩
    obtain rfl : "b" = name := Option.some.inj element
    exact matched (Context.oldClassKey?_eq_none_iff.mpr unmatched)
  exact ⟨read, read', by rfl, after, done, gained, kept⟩

end Pass

end Namesake
