import Namesake.Proofs.Descriptors
import Namesake.Proofs.TallyIndependence

/-! # What descriptors are cut into

The keys and the comparison of methods cut a method descriptor into the texts of its parameters and
the text of its result. The parameters are read as the whole is, but the result is cut off behind
the last closing parenthesis, so the parts make up the text again exactly if no class name of the
result holds one (`Descriptor.parts_make_up_text`). A field descriptor is cut into its dimensions
and the class of its elements. Compared by these, two descriptors come out as the types they spell
(`Comparison.descriptors_eq_typeSigs`), in every session (`Session.compare_descriptors_as_types`).
-/

namespace Namesake

/-! ## Methods -/

namespace Descriptor

/-- The text that the parts of a method descriptor make up. -/
def assembled (text : String) : String :=
  "(" ++ String.join (splitParams text) ++ ")" ++ returnPart text

/-- **The parts of a method descriptor make up its text, up to a parenthesis in its result.** With
the result that is read they always do. With the result that is cut off they do exactly if no class
name there holds a closing parenthesis. -/
theorem parts_make_up_text {text : String} {s : MethodSignature}
    (read : MethodSignature.ofDescriptor text = .ok s) :
    "(" ++ String.join (splitParams text) ++ ")" ++ s.ret.descriptor = text ∧
      (assembled text = text ↔ ∀ name ∈ s.ret.classNames, ')' ∉ name.toList) := by
  rw [MethodSignature.ofDescriptor_eq_ok_iff, MethodSignature.ofDescriptor?_eq_some_iff] at read
  obtain ⟨readable, rfl⟩ := read
  have params : (String.join (splitParams s.descriptor)).toList =
      s.params.flatMap TypeSig.erasedChars := by
    rw [splitParams_descriptor readable]
    simp [List.flatMap_map, TypeSig.descriptor]
  have parsed : "(" ++ String.join (splitParams s.descriptor) ++ ")" ++ s.ret.descriptor =
      s.descriptor := by
    rw [← String.toList_inj, String.toList_append, String.toList_append, String.toList_append,
      params]
    simp [MethodSignature.descriptor, TypeSig.descriptor]
  refine ⟨parsed, ?_⟩
  calc assembled s.descriptor = s.descriptor
      ↔ returnPart s.descriptor = s.ret.descriptor := by
        nth_rewrite 2 [← parsed]
        rw [assembled, String.append_right_inj]
    _ ↔ ')' ∉ s.ret.erasedChars := returnPart_descriptor_eq_iff
    _ ↔ ∀ name ∈ s.ret.classNames, ')' ∉ name.toList :=
        TypeSig.not_paren_mem_erasedChars_iff readable.ret

/-- Marks other than the closing parenthesis do not matter, wherever they are. -/
theorem parts_make_up_text_of_marks :
    let text := "([[La(;IL[b;)[L(c/d;"
    let s : MethodSignature :=
      ⟨[.array (.array (.class "a(" [])), .primitive 'I', .class "[b" []],
        .array (.class "(c/d" [])⟩
    MethodSignature.ofDescriptor text = .ok s ∧ assembled text = text := by
  intro text s
  have params : ∀ param ∈ s.params, param.IsReadable := by
    simp [s, TypeSig.IsReadable, isPrimitiveCode]
  have names : ∀ param ∈ s.params, ∀ name ∈ param.classNames, ')' ∉ name.toList := by
    simp [s, TypeSig.classNames, TypeArg.listClassNames]
  have ret : s.ret.IsReadable := by simp [s, TypeSig.IsReadable]
  have read : MethodSignature.ofDescriptor text = .ok s := by
    rw [MethodSignature.ofDescriptor_eq_ok_iff, MethodSignature.ofDescriptor?_eq_some_iff]
    exact ⟨⟨params, names, ret⟩, rfl⟩
  have free : ∀ name ∈ s.ret.classNames, ')' ∉ name.toList := by
    simp [s, TypeSig.classNames, TypeArg.listClassNames]
  exact ⟨read, (parts_make_up_text read).2.mpr free⟩

/-- A parenthesis in the class of the result loses what stands before it. -/
theorem result_cut_inside_name :
    let text := "()La)b;"
    MethodSignature.ofDescriptor text = .ok ⟨[], .class "a)b" []⟩ ∧ assembled text = "()b;" ∧
      assembled text ≠ text := by
  intro text
  have readable : MethodSignature.IsReadable ⟨[], .class "a)b" []⟩ :=
    ⟨by simp, by simp, by simp [TypeSig.IsReadable]⟩
  have spelled : MethodSignature.descriptor ⟨[], .class "a)b" []⟩ = text := rfl
  have params : splitParams text = [] := by
    rw [← spelled, splitParams_descriptor readable]
    rfl
  have parts : assembled text = "()b;" := by
    rw [assembled, params]
    decide
  refine ⟨?_, parts, ?_⟩
  · rw [MethodSignature.ofDescriptor_eq_ok_iff, MethodSignature.ofDescriptor?_eq_some_iff]
    exact ⟨readable, rfl⟩
  · rw [parts]
    decide

end Descriptor

/-! ## Fields -/

/-- Readable types of the same text are the same. -/
theorem TypeSig.descriptor_inj {s t : TypeSig} (readable : s.IsReadable)
    (readable' : t.IsReadable) : s.descriptor = t.descriptor ↔ s = t := by
  refine ⟨?_, congrArg descriptor⟩
  intro same
  have read : ofDescriptor? s.descriptor = some s := ofDescriptor?_eq_some_iff.mpr ⟨readable, rfl⟩
  have read' : ofDescriptor? s.descriptor = some t :=
    ofDescriptor?_eq_some_iff.mpr ⟨readable', same⟩
  exact Option.some.inj (read.symm.trans read')

namespace Comparison

/-- Only whether two things are the same matters. -/
theorem same_congr {α β : Type} [DecidableEq α] [DecidableEq β] {a b : α} {x y : β}
    (alike : a = b ↔ x = y) : same a b = same x y := by
  by_cases equal : a = b
  · rw [same, same, if_pos equal, if_pos (alike.mp equal)]
  · rw [same, same, if_neg equal, if_neg (mt alike.mpr equal)]

variable {old new : Program} {s t : TypeSig}

theorem same_descriptor (readable : s.IsReadable) (readable' : t.IsReadable) :
    same s.descriptor t.descriptor = same s t :=
  same_congr (TypeSig.descriptor_inj readable readable')

/-- Without classes in the same place, nothing but the whole is compared. -/
theorem descriptors_of_apart (readable : s.IsReadable) (readable' : t.IsReadable)
    (apart : s.element.1 = t.element.1 → s.element.2 = none ∨ t.element.2 = none) :
    descriptors old new s.descriptor t.descriptor = same s t := by
  rw [descriptors, TypeSig.elementClass_descriptor readable,
    TypeSig.elementClass_descriptor readable', same_descriptor readable readable']
  revert apart
  obtain ⟨depth, leaf⟩ := s.element
  obtain ⟨depth', leaf'⟩ := t.element
  intro apart
  cases leaf with
  | none => rfl
  | some o =>
      cases leaf' with
      | none => rfl
      | some n =>
          have differ : depth ≠ depth' := by simpa using apart
          simp [differ]

/-- Two classes are compared by their names. -/
theorem descriptors_class {a b : String} (readable : (TypeSig.class a []).IsReadable)
    (readable' : (TypeSig.class b []).IsReadable) :
    descriptors old new (TypeSig.class a []).descriptor (TypeSig.class b []).descriptor =
      typeNames old new a b := by
  have names : same (TypeSig.class a []) (.class b []) = same a b := same_congr (by simp)
  rw [descriptors, TypeSig.elementClass_descriptor readable,
    TypeSig.elementClass_descriptor readable', same_descriptor readable readable', names]
  rfl

/-- Two arrays are compared by their elements. -/
theorem descriptors_array (readable : s.IsReadable) (readable' : t.IsReadable) :
    descriptors old new (TypeSig.array s).descriptor (TypeSig.array t).descriptor =
      descriptors old new s.descriptor t.descriptor := by
  have arrays : (TypeSig.array s).IsReadable := readable
  have arrays' : (TypeSig.array t).IsReadable := readable'
  have elements : same (TypeSig.array s) (.array t) = same s t := same_congr (by simp)
  rw [descriptors, TypeSig.elementClass_descriptor arrays, TypeSig.elementClass_descriptor arrays',
    same_descriptor arrays arrays', elements, descriptors, TypeSig.elementClass_descriptor readable,
    TypeSig.elementClass_descriptor readable', same_descriptor readable readable', TypeSig.element,
    TypeSig.element]
  obtain ⟨depth, leaf⟩ := s.element
  obtain ⟨depth', leaf'⟩ := t.element
  cases leaf <;> cases leaf' <;> simp

/-- **Comparing two descriptors is comparing the types they spell.** -/
theorem descriptors_eq_typeSigs : ∀ {s t : TypeSig}, s.IsReadable → t.IsReadable →
    descriptors old new s.descriptor t.descriptor = typeSigs old new s t
  | .array s, .array t, readable, readable' => by
      have elements := descriptors_eq_typeSigs (s := s) (t := t) readable readable'
      rw [descriptors_array (s := s) (t := t) readable readable', elements, typeSigs]
  | .class a as, .class b bs, readable, readable' => by
      obtain rfl : as = [] := readable.1
      obtain rfl : bs = [] := readable'.1
      rw [descriptors_class readable readable']
      simp [typeSigs, typeArgs, same]
  | .primitive code, .primitive code', readable, readable' => by
      rw [descriptors_of_apart readable readable' (by simp [TypeSig.element]), typeSigs]
      exact same_congr (by simp)
  -- types of different kinds differ as wholes
  | .primitive _, .class .., readable, readable'
  | .primitive _, .array _, readable, readable'
  | .class .., .primitive _, readable, readable'
  | .class .., .array _, readable, readable'
  | .array _, .primitive _, readable, readable'
  | .array _, .class .., readable, readable' => by
      rw [descriptors_of_apart readable readable' (by simp [TypeSig.element])]
      simp [same, typeSigs]
  | .var _, _, readable, _ => readable.elim
  | _, .var _, _, readable => readable.elim

end Comparison

namespace Session

/-- **Descriptors are compared as the types they spell.** Whatever a session has confirmed and voted
so far, it comes to the same answer about two descriptors that can be read and about the types they
are read as, and is left in the same state. -/
theorem compare_descriptors_as_types {a b : String} {s t : TypeSig}
    (readOld : TypeSig.ofDescriptor a = .ok s) (readNew : TypeSig.ofDescriptor b = .ok t)
    (before : Session) :
    ∃ agrees after, compare (.descriptors a b) before = .ok agrees after ∧
      compare (.types s t) before = .ok agrees after := by
  rw [TypeSig.ofDescriptor_eq_ok_iff, TypeSig.ofDescriptor?_eq_some_iff] at readOld readNew
  obtain ⟨readable, rfl⟩ := readOld
  obtain ⟨readable', rfl⟩ := readNew
  let c := before.context
  have checks : (CodePair.descriptors s.descriptor t.descriptor).checks c.old.program
      c.new.program = (CodePair.types s t).checks c.old.program c.new.program :=
    Comparison.descriptors_eq_typeSigs readable readable'
  obtain ⟨state, compared, -⟩ :=
    Work.compare_gains c ((CodePair.types s t).checks c.old.program c.new.program) before.state
  refine ⟨_, { before with state }, perform_eq ?_, perform_eq compared⟩
  rw [checks]
  exact compared

/-- Arrays of a class are voted for, as the text and as the type. -/
theorem compare_descriptors_as_types_of_arrays :
    let p := Program.single "a)b" "f"
    let before := start p ∅ p ∅ default
    let s := TypeSig.array (.array (.class "a)b" []))
    TypeSig.ofDescriptor "[[La)b;" = .ok s ∧
      ∃ after, compare (.descriptors "[[La)b;" "[[La)b;") before = .ok true after ∧
        compare (.types s s) before = .ok true after ∧
        after.state.ledger.tallyOf (.type ⟨0⟩ ⟨0⟩) = 1 := by
  intro p before s
  have read : TypeSig.ofDescriptor "[[La)b;" = .ok s := by
    rw [TypeSig.ofDescriptor_eq_ok_iff, TypeSig.ofDescriptor?_eq_some_iff]
    exact ⟨by simp [s, TypeSig.IsReadable], rfl⟩
  obtain ⟨agrees, after, first, second⟩ := compare_descriptors_as_types read read before
  have voted : ∃ state, compare (.types s s) before = .ok true { before with state } ∧
      state.ledger.tallyOf (.type ⟨0⟩ ⟨0⟩) = 1 := ⟨_, rfl, rfl⟩
  obtain ⟨state, answer, tally⟩ := voted
  obtain ⟨rfl, rfl⟩ := EStateM.Result.ok.inj (second.symm.trans answer)
  exact ⟨read, _, first, second, tally⟩

end Session

end Namesake
