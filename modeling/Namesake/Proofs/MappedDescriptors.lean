import Namesake.MappingSet.Basic
import Namesake.Proofs.Renaming

/-! # Mapping the classes of a descriptor

A mapping set puts plain names into a descriptor without reading it as a signature: it goes through
the characters, cuts the parameters into units and looks at the ends of each unit. On a text that
can be read, the units are the texts of the parameters (`MappingSet.parameterUnits_erasedChars`),
whatever brackets and parentheses a class name holds. So the result is the text of the signature
with every class under its plain name (`MappingSet.mapped_as_signature`).
-/

namespace Namesake.MappingSet

variable {m : MappingSet}

/-! ## One type -/

/-- A bracket in front of a text stays in front of it. -/
theorem mapFieldDescriptor_bracket (m : MappingSet) (text : List Char) :
    m.mapFieldDescriptor (String.ofList ('[' :: text)) =
      "[" ++ m.mapFieldDescriptor (String.ofList text) := by
  have bracket (rest : List Char) : String.ofList ('[' :: rest) = "[" ++ String.ofList rest :=
    @String.ofList_append ['['] rest
  have kept : ('[' :: text).takeWhile (· == '[') = '[' :: text.takeWhile (· == '[') :=
    List.takeWhile_cons_of_pos rfl
  have dropped : ('[' :: text).dropWhile (· == '[') = text.dropWhile (· == '[') :=
    List.dropWhile_cons_of_pos rfl
  rw [mapFieldDescriptor, mapFieldDescriptor, String.toList_ofList, String.toList_ofList, kept,
    dropped]
  cases Descriptor.enclosedName? (text.dropWhile (· == '[')) with
  | none => exact bracket text
  | some name =>
      dsimp only
      rw [bracket]
      simp only [String.append_assoc]

/-- The class between a letter and a semicolon is renamed, whatever its characters. -/
theorem mapFieldDescriptor_class (m : MappingSet) {name : String} (filled : name ≠ "") :
    m.mapFieldDescriptor (String.ofList ('L' :: (name.toList ++ [';']))) =
      String.ofList ('L' :: ((m.mapType name).toList ++ [';'])) := by
  have nonempty : name.toList ≠ [] := by rwa [Ne, String.toList_eq_nil_iff]
  have enclosed : Descriptor.enclosedName? ('L' :: (name.toList ++ [';'])) = some name.toList := by
    simp [Descriptor.enclosedName?, nonempty]
  have bare : ('L' :: (name.toList ++ [';'])).dropWhile (· == '[') =
      'L' :: (name.toList ++ [';']) := List.dropWhile_cons_of_neg (by decide)
  have none : ('L' :: (name.toList ++ [';'])).takeWhile (· == '[') = [] :=
    List.takeWhile_cons_of_neg (by decide)
  rw [mapFieldDescriptor, String.toList_ofList, bare, none, enclosed]
  simp only [String.ofList_toList]
  rw [← String.toList_inj]
  simp

/-- A letter of a primitive type stays. -/
theorem mapFieldDescriptor_primitive (m : MappingSet) {code : Char}
    (primitive : isPrimitiveCode code = true) :
    m.mapFieldDescriptor (String.ofList [code]) = String.ofList [code] := by
  have bracket : code ≠ '[' := TypeSig.isPrimitiveCode_ne primitive (by decide)
  have letter : code ≠ 'L' := TypeSig.isPrimitiveCode_ne primitive (by decide)
  have open_ : Descriptor.enclosedName? [code] = none := by simp [Descriptor.enclosedName?, letter]
  have bare : [code].dropWhile (· == '[') = [code] :=
    List.dropWhile_cons_of_neg (by simpa using bracket)
  rw [mapFieldDescriptor, String.toList_ofList, bare, open_]

/-- **The descriptor of a readable type is mapped to that of the renamed type.** -/
theorem mapFieldDescriptor_descriptor (m : MappingSet) :
    ∀ {s : TypeSig}, s.IsReadable → m.mapFieldDescriptor s.descriptor =
      (s.rename m.mapType).descriptor
  | .primitive _, readable => m.mapFieldDescriptor_primitive readable
  | .class _ _, readable => m.mapFieldDescriptor_class readable.2.1
  | .array element, readable => by
      have inner := mapFieldDescriptor_descriptor m (s := element) readable
      rw [TypeSig.descriptor, TypeSig.erasedChars_array, mapFieldDescriptor_bracket]
      rw [TypeSig.descriptor] at inner
      rw [inner, TypeSig.rename, TypeSig.descriptor, TypeSig.descriptor, TypeSig.erasedChars_array,
        ← List.singleton_append, String.ofList_append]
  | .var _, readable => readable.elim

/-! ## Parameters -/

/-- Inside a class, the unit goes on to the first semicolon. -/
theorem parameterUnits_class {name : List Char} (free : ';' ∉ name) (current rest : List Char) :
    parameterUnits current true (name ++ ';' :: rest) =
      (current.reverse ++ name ++ [';']) :: parameterUnits [] false rest := by
  induction name generalizing current with
  | nil => simp [parameterUnits]
  | cons c name ih =>
      rw [List.mem_cons, not_or] at free
      have later : (c == ';') = false := beq_eq_false_iff_ne.mpr (Ne.symm free.1)
      rw [List.cons_append, parameterUnits, if_pos rfl, later, if_neg Bool.false_ne_true,
        ih free.2]
      simp

/-- The text of a type ends a unit. -/
theorem parameterUnits_append (rest : List Char) :
    ∀ {s : TypeSig}, s.IsReadable → ∀ current : List Char,
      parameterUnits current false (s.erasedChars ++ rest) =
        (current.reverse ++ s.erasedChars) :: parameterUnits [] false rest
  | .primitive code, readable, current => by
      have bracket : (code == '[') = false := by
        simpa using TypeSig.isPrimitiveCode_ne readable (by decide)
      have letter : (code == 'L') = false := by
        simpa using TypeSig.isPrimitiveCode_ne readable (by decide)
      simp [parameterUnits, bracket, letter]
  | .class name _, readable, current => by
      have cut := parameterUnits_class readable.2.2 ('L' :: current) rest
      simp only [TypeSig.erasedChars_class, List.cons_append, List.append_assoc, parameterUnits]
      simpa using cut
  | .array element, readable, current => by
      have inner := parameterUnits_append rest (s := element) readable ('[' :: current)
      simp only [TypeSig.erasedChars_array, List.cons_append, parameterUnits]
      simpa using inner
  | .var _, readable, _ => readable.elim

/-- **The text of several types is cut where one of them ends.** -/
theorem parameterUnits_erasedChars {params : List TypeSig}
    (readable : ∀ param ∈ params, param.IsReadable) :
    parameterUnits [] false (params.flatMap TypeSig.erasedChars) =
      params.map TypeSig.erasedChars := by
  induction params with
  | nil => rfl
  | cons first rest ih =>
      obtain ⟨here, later⟩ := List.forall_mem_cons.mp readable
      rw [List.flatMap_cons, parameterUnits_append _ here, ih later]
      rfl

/-! ## Methods -/

/-- The descriptor of a readable method is mapped to that of the renamed method. -/
theorem mapDescriptor_descriptor (m : MappingSet) {s : MethodSignature} (readable : s.IsReadable) :
    m.mapDescriptor s.descriptor = (s.rename m.mapType).descriptor := by
  have closed : ')' ∉ '(' :: s.params.flatMap TypeSig.erasedChars := by
    rw [List.mem_cons, not_or]
    exact ⟨by decide, (MethodSignature.not_paren_mem_params_iff readable.params).mpr readable.names⟩
  have cut : Text.splitFirst? ')' s.descriptor.toList =
      some ('(' :: s.params.flatMap TypeSig.erasedChars, s.ret.erasedChars) := by
    rw [MethodSignature.descriptor, String.toList_ofList]
    exact Text.splitFirst?_append closed _
  have params : ((s.params.map TypeSig.erasedChars).map (m.mapFieldDescriptor <| String.ofList ·)) =
      s.params.map fun param => (param.rename m.mapType).descriptor := by
    rw [List.map_map]
    apply List.map_congr_left
    intro param listed
    exact m.mapFieldDescriptor_descriptor (readable.params param listed)
  have ret := m.mapFieldDescriptor_descriptor readable.ret
  rw [TypeSig.descriptor] at ret
  have units := parameterUnits_erasedChars readable.params
  simp only [mapDescriptor, cut, units, params, ret]
  rw [← String.toList_inj]
  simp [MethodSignature.descriptor, MethodSignature.rename, TypeSig.descriptor, List.flatMap_map]

/-- **Mapping a text does what mapping its signature does.** A method descriptor that can be read is
mapped to the text of its signature in which every class has its plain name, or its own where it has
none, and likewise a field descriptor. -/
theorem mapped_as_signature (m : MappingSet) :
    (∀ text s, MethodSignature.ofDescriptor text = .ok s →
      m.mapDescriptor text = (s.rename m.mapType).descriptor) ∧
    ∀ text s, TypeSig.ofDescriptor text = .ok s →
      m.mapFieldDescriptor text = (s.rename m.mapType).descriptor := by
  constructor
  · intro text s read
    rw [MethodSignature.ofDescriptor_eq_ok_iff, MethodSignature.ofDescriptor?_eq_some_iff] at read
    obtain ⟨readable, rfl⟩ := read
    exact m.mapDescriptor_descriptor readable
  · intro text s read
    rw [TypeSig.ofDescriptor_eq_ok_iff, TypeSig.ofDescriptor?_eq_some_iff] at read
    obtain ⟨readable, rfl⟩ := read
    exact m.mapFieldDescriptor_descriptor readable

/-- Brackets and parentheses in class names are no marks of the descriptor. -/
theorem mapped_as_signature_of_brackets :
    let m := ((∅ : MappingSet).addType "[é(" "net/Foo").addType "a)b" "net/Bar"
    let text := "(I[[L[é(;J)La)b;"
    let s : MethodSignature :=
      ⟨[.primitive 'I', .array (.array (.class "[é(" [])), .primitive 'J'], .class "a)b" []⟩
    MethodSignature.ofDescriptor text = .ok s ∧
      m.mapDescriptor text = "(I[[Lnet/Foo;J)Lnet/Bar;" := by
  intro m text s
  have params : ∀ param ∈ s.params, param.IsReadable := by
    simp [s, TypeSig.IsReadable, isPrimitiveCode]
  have names : ∀ param ∈ s.params, ∀ name ∈ param.classNames, ')' ∉ name.toList := by
    simp [s, TypeSig.classNames, TypeArg.listClassNames]
  have ret : s.ret.IsReadable := by simp [s, TypeSig.IsReadable]
  have read : MethodSignature.ofDescriptor text = .ok s := by
    rw [MethodSignature.ofDescriptor_eq_ok_iff, MethodSignature.ofDescriptor?_eq_some_iff]
    exact ⟨⟨params, names, ret⟩, rfl⟩
  have foo : m.mapType "[é(" = "net/Foo" := by decide +kernel
  have bar : m.mapType "a)b" = "net/Bar" := by decide +kernel
  have mapped : (s.rename m.mapType).descriptor = "(I[[Lnet/Foo;J)Lnet/Bar;" := by
    simp only [s, MethodSignature.rename, List.map_cons, List.map_nil, TypeSig.rename,
      TypeArg.renameAll, foo, bar]
    decide +kernel
  exact ⟨read, (m.mapped_as_signature.1 text s read).trans mapped⟩

end Namesake.MappingSet
