import Namesake.Signature.Descriptor

/-! # Reading what was written

A signature is readable if it is erased and its class names do not run into the marks behind them.
A text is read as a signature exactly if the signature is readable and the text is its descriptor
(`TypeSig.ofDescriptor?_eq_some_iff`, `MethodSignature.ofDescriptor?_eq_some_iff`); any other text
is refused and named whole (`Descriptor.accepts_spelled_only`). The parts that a comparison cuts a
descriptor into are those of its signature if no class name holds a mark at all.
-/

namespace Namesake

namespace Text

/-- What stands before the first mark is cut off there. -/
theorem splitFirst?_append {mark : Char} {before : List Char} (free : mark ∉ before)
    (after : List Char) : splitFirst? mark (before ++ mark :: after) = some (before, after) := by
  induction before with
  | nil => simp [splitFirst?]
  | cons c rest ih =>
      rw [List.mem_cons, not_or] at free
      rw [List.cons_append, splitFirst?, if_neg (Ne.symm free.1), ih free.2]
      rfl

/-- What stands after the last mark is cut off there. -/
theorem splitLast?_append {mark : Char} (before : List Char) {after : List Char}
    (free : mark ∉ after) : splitLast? mark (before ++ mark :: after) = some (before, after) := by
  induction before with
  | nil => simp [splitLast?, splitLast?_eq_none.mpr free]
  | cons c rest ih => rw [List.cons_append, splitLast?, ih]

end Text

/-! ## Class names -/

mutual

/-- The class names in a signature, each as often as it occurs. -/
def TypeSig.classNames : TypeSig → List String
  | .primitive _ | .var _ => []
  | .array element => element.classNames
  | .class name args => name :: TypeArg.listClassNames args

def TypeArg.listClassNames : List TypeArg → List String
  | [] => []
  | .mk _ none :: rest => TypeArg.listClassNames rest
  | .mk _ (some sig) :: rest => sig.classNames ++ TypeArg.listClassNames rest

end

/-- The class names in the parameters and the result, each as often as it occurs. -/
def MethodSignature.classNames (s : MethodSignature) : List String :=
  s.params.flatMap TypeSig.classNames ++ s.ret.classNames

/-- The class names in a method descriptor; none in a text that is none. -/
def Descriptor.classNames (text : String) : List String :=
  match MethodSignature.ofDescriptor? text with
  | some sig => sig.classNames
  | none => []

/-- A class name that does not run into the marks of a descriptor. -/
structure Descriptor.CanSpell (name : String) : Prop where
  nonempty : name.toList ≠ []
  noParen : ')' ∉ name.toList
  noSemicolon : ';' ∉ name.toList

namespace TypeSig

/-- A signature without arguments and variables, as descriptors spell them. -/
def IsErased : TypeSig → Prop
  | primitive code => isPrimitiveCode code = true
  | .class _ args => args = []
  | array element => element.IsErased
  | var _ => False

/-- An erased signature whose class names can be spelled. -/
structure IsSpelled (s : TypeSig) : Prop where
  erased : s.IsErased
  names : ∀ name ∈ s.classNames, Descriptor.CanSpell name

/-- A signature the way a descriptor can spell it: without arguments and variables, and with class
names that are not empty and end at the first semicolon. -/
def IsReadable : TypeSig → Prop
  | primitive code => isPrimitiveCode code = true
  | .class name args => args = [] ∧ name ≠ "" ∧ ';' ∉ name.toList
  | array element => element.IsReadable
  | var _ => False

theorem IsReadable.isErased : ∀ {s : TypeSig}, s.IsReadable → s.IsErased
  | primitive _, readable => readable
  | .class _ _, readable => readable.1
  | array element, readable => IsReadable.isErased (s := element) readable
  | var _, readable => readable.elim

/-- The class names of a readable type are not empty and hold no semicolon. -/
theorem IsReadable.name : ∀ {s : TypeSig}, s.IsReadable → ∀ name ∈ s.classNames,
    name.toList ≠ [] ∧ ';' ∉ name.toList
  | primitive _, _, _, member => (List.not_mem_nil member).elim
  | .class own _, readable, name, member => by
      obtain rfl := readable.1
      obtain rfl := List.mem_singleton.mp member
      exact ⟨by simpa using readable.2.1, readable.2.2⟩
  | array element, readable, name, member =>
      IsReadable.name (s := element) readable name member

theorem IsSpelled.isReadable : ∀ {s : TypeSig}, s.IsSpelled → s.IsReadable
  | primitive _, spelled => spelled.erased
  | .class name _, spelled => by
      have free := spelled.names name List.mem_cons_self
      refine ⟨spelled.erased, ?_, free.noSemicolon⟩
      rintro rfl
      exact free.nonempty rfl
  | array element, spelled =>
      IsSpelled.isReadable (s := element) ⟨spelled.erased, spelled.names⟩
  | var _, spelled => spelled.erased.elim

theorem isPrimitiveCode_ne {code mark : Char} (primitive : isPrimitiveCode code = true)
    (other : isPrimitiveCode mark = false) : code ≠ mark := by
  intro same
  rw [← same, primitive] at other
  cases other

/-! ## One type -/

@[simp]
theorem erasedChars_primitive (code : Char) : (primitive code).erasedChars = [code] := rfl

@[simp]
theorem erasedChars_class (name : String) (args : List TypeArg) :
    (TypeSig.class name args).erasedChars = 'L' :: (name.toList ++ [';']) := rfl

@[simp]
theorem erasedChars_array (element : TypeSig) :
    (array element).erasedChars = '[' :: element.erasedChars := rfl

theorem erasedChars_ne_nil {s : TypeSig} (erased : s.IsErased) : s.erasedChars ≠ [] := by
  cases s with
  | primitive code => exact List.cons_ne_nil _ _
  | «class» name args => exact List.cons_ne_nil _ _
  | array element => exact List.cons_ne_nil _ _
  | var name => exact erased.elim

/-- What is read off the front of a text is a readable signature, and stands there. -/
theorem eq_of_read? {text after : List Char} {s : TypeSig} (read : read? text = some (s, after)) :
    text = s.erasedChars ++ after ∧ s.IsReadable := by
  fun_induction read? text generalizing s after with
  | case1 => cases read
  | case2 rest ih =>
    obtain ⟨⟨element, after'⟩, found, equal⟩ := Option.map_eq_some_iff.mp read
    obtain ⟨rfl, rfl⟩ := Prod.mk.inj equal
    obtain ⟨rfl, readable⟩ := ih found
    exact ⟨rfl, readable⟩
  | case3 => cases read
  | case4 rest name after' cut filled =>
    obtain ⟨rfl, rfl⟩ := Prod.mk.inj (Option.some.inj read)
    obtain ⟨rfl, free⟩ := Text.splitFirst?_eq_some cut
    constructor
    · rw [erasedChars_class, String.toList_ofList, List.cons_append, List.append_assoc]
      rfl
    · refine ⟨rfl, ?_, by rwa [String.toList_ofList]⟩
      intro empty
      rw [String.ofList_eq_empty_iff] at empty
      exact filled (List.isEmpty_iff.mpr empty)
  | case5 => cases read
  | case6 c rest _ _ primitive =>
    obtain ⟨rfl, rfl⟩ := Prod.mk.inj (Option.some.inj read)
    exact ⟨rfl, primitive⟩
  | case7 => cases read

/-- A readable signature is read off the front of a text that starts with it. -/
theorem read?_erasedChars (after : List Char) :
    ∀ s : TypeSig, s.IsReadable → read? (s.erasedChars ++ after) = some (s, after)
  | primitive code, readable => by
      have primitive : isPrimitiveCode code = true := readable
      rw [erasedChars_primitive, List.cons_append, List.nil_append, read?, if_pos primitive]
      · exact isPrimitiveCode_ne primitive (by decide)
      · exact isPrimitiveCode_ne primitive (by decide)
  | .class name args, readable => by
      obtain ⟨none, filled, noSemicolon⟩ := readable
      subst none
      have nonempty : name.toList ≠ [] := by rwa [Ne, String.toList_eq_nil_iff]
      rw [erasedChars_class, List.cons_append, List.append_assoc, List.cons_append,
        List.nil_append, read?, Text.splitFirst?_append noSemicolon]
      simp only [List.isEmpty_iff, nonempty, ↓reduceIte, String.ofList_toList]
  | array element, readable => by
      rw [erasedChars_array, List.cons_append, read?, read?_erasedChars after element readable]
      rfl
  | var _, readable => readable.elim

/-- **One type is read off the front of a text exactly if its text stands there.** -/
theorem read?_eq_some_iff {text after : List Char} {s : TypeSig} :
    read? text = some (s, after) ↔ s.IsReadable ∧ text = s.erasedChars ++ after := by
  constructor
  · intro read
    exact (eq_of_read? read).symm
  · rintro ⟨readable, rfl⟩
    exact read?_erasedChars after s readable

/-- The text of a readable signature holds a closing parenthesis only where a class name does. -/
theorem not_paren_mem_erasedChars_iff : ∀ {s : TypeSig}, s.IsReadable →
    (')' ∉ s.erasedChars ↔ ∀ name ∈ s.classNames, ')' ∉ name.toList)
  | primitive code, readable => by
      have other : code ≠ ')' := isPrimitiveCode_ne readable (by decide)
      simp [classNames, Ne.symm other]
  | .class name args, readable => by
      have none : args = [] := readable.1
      subst none
      simp [classNames, TypeArg.listClassNames]
  | array element, readable => by
      rw [classNames, ← not_paren_mem_erasedChars_iff (s := element) readable]
      simp
  | var _, readable => readable.elim

theorem not_paren_mem_erasedChars {s : TypeSig} (spelled : s.IsSpelled) : ')' ∉ s.erasedChars :=
  (not_paren_mem_erasedChars_iff spelled.isReadable).mpr fun name member =>
    (spelled.names name member).noParen

/-- **A descriptor is read as a signature exactly if the signature is readable and the text is its
descriptor.** -/
theorem ofDescriptor?_eq_some_iff {text : String} {s : TypeSig} :
    ofDescriptor? text = some s ↔ s.IsReadable ∧ text = s.descriptor := by
  have whole : ofDescriptor? text = some s ↔ read? text.toList = some (s, []) := by
    unfold ofDescriptor?
    split
    · next sig read => simp [read]
    · next other =>
      constructor
      · intro impossible
        cases impossible
      · intro read
        exact absurd read (other s)
  rw [whole, read?_eq_some_iff, List.append_nil, descriptor, ← String.toList_inj,
    String.toList_ofList]

/-- A text is accepted as the signature it is read as. -/
theorem ofDescriptor_eq_ok_iff {text : String} {s : TypeSig} :
    ofDescriptor text = .ok s ↔ ofDescriptor? text = some s := by
  rw [ofDescriptor]
  cases ofDescriptor? text <;> simp

/-! ## The class of the elements -/

/-- The dimensions of a type and the class its elements are of. -/
def element : TypeSig → Nat × Option String
  | primitive _ | var _ => (0, none)
  | .class name _ => (0, some name)
  | array inner => (inner.element.1 + 1, inner.element.2)

/-- The element class of a descriptor is that of its type. -/
theorem elementClass_descriptor {s : TypeSig} (readable : s.IsReadable) :
    Descriptor.elementClass s.descriptor = s.element := by
  rw [Descriptor.elementClass, descriptor, String.toList_ofList]
  induction s using TypeSig.element.induct with
  | case1 code =>
      have bracket : code ≠ '[' := isPrimitiveCode_ne readable (by decide)
      have letter : code ≠ 'L' := isPrimitiveCode_ne readable (by decide)
      simp [element, Descriptor.depth, bracket, Descriptor.enclosedName?, letter]
  | case2 name => exact readable.elim
  | case3 name args =>
      have filled : name ≠ "" := readable.2.1
      simp [element, Descriptor.depth, Descriptor.enclosedName?, filled]
  | case4 inner ih =>
      rw [element, ← ih readable]
      simp [Descriptor.depth]

/-! ## Several types -/

/-- What is read up to the end of a text are readable signatures, and the text is theirs. -/
theorem eq_of_readAll? {text : List Char} {sigs : List TypeSig}
    (read : readAll? text = some sigs) :
    text = sigs.flatMap erasedChars ∧ ∀ s ∈ sigs, s.IsReadable := by
  fun_induction readAll? text generalizing sigs with
  | case1 text empty =>
    obtain rfl := Option.some.inj read
    exact ⟨List.isEmpty_iff.mp empty, fun _ member => nomatch member⟩
  | case2 text _ first after found ih =>
    obtain ⟨rest, readRest, rfl⟩ := Option.map_eq_some_iff.mp read
    obtain ⟨rfl, readable⟩ := eq_of_read? found
    obtain ⟨rfl, readableRest⟩ := ih readRest
    exact ⟨rfl, List.forall_mem_cons.mpr ⟨readable, readableRest⟩⟩
  | case3 => cases read

/-- Readable signatures are read from their text. -/
theorem readAll?_erasedChars {sigs : List TypeSig} (readable : ∀ s ∈ sigs, s.IsReadable) :
    readAll? (sigs.flatMap erasedChars) = some sigs := by
  induction sigs with
  | nil => simp [readAll?]
  | cons first rest ih =>
      obtain ⟨readableFirst, readableRest⟩ := List.forall_mem_cons.mp readable
      have filled : (first.erasedChars ++ rest.flatMap erasedChars).isEmpty ≠ true := by
        simp [erasedChars_ne_nil readableFirst.isErased]
      rw [List.flatMap_cons, readAll?, if_neg filled]
      split
      · next s after found =>
        rw [read?_erasedChars _ first readableFirst] at found
        obtain ⟨rfl, rfl⟩ := Prod.mk.inj (Option.some.inj found)
        rw [ih readableRest]
        rfl
      · next found =>
        rw [read?_erasedChars _ first readableFirst] at found
        cases found

end TypeSig

/-! ## Methods -/

namespace MethodSignature

/-- A method signature that a descriptor can spell. -/
structure IsSpelled (s : MethodSignature) : Prop where
  params : ∀ param ∈ s.params, param.IsSpelled
  ret : s.ret.IsSpelled

/-- A method signature the way a descriptor can spell it: its types are readable, and no class name
of a parameter ends the list of the parameters. -/
structure IsReadable (s : MethodSignature) : Prop where
  params : ∀ param ∈ s.params, param.IsReadable
  names : ∀ param ∈ s.params, ∀ name ∈ param.classNames, ')' ∉ name.toList
  ret : s.ret.IsReadable

/-- The text of the parameters does not end their list. -/
theorem not_paren_mem_params_iff {params : List TypeSig}
    (readable : ∀ param ∈ params, param.IsReadable) :
    ')' ∉ params.flatMap TypeSig.erasedChars ↔
      ∀ param ∈ params, ∀ name ∈ param.classNames, ')' ∉ name.toList := by
  rw [List.mem_flatMap, not_exists]
  refine forall_congr' fun param => ?_
  rw [not_and]
  refine forall_congr' fun member => ?_
  exact TypeSig.not_paren_mem_erasedChars_iff (readable param member)

/-- **A method descriptor is read as a signature exactly if the signature is readable and the text
is its descriptor.** -/
theorem ofDescriptor?_eq_some_iff {text : String} {s : MethodSignature} :
    ofDescriptor? text = some s ↔ s.IsReadable ∧ text = s.descriptor := by
  constructor
  · intro read
    unfold ofDescriptor? at read
    split at read
    · next rest opened =>
      simp only [Option.bind_eq_bind, Option.bind_eq_some_iff] at read
      obtain ⟨⟨before, result⟩, cut, params, readParams, ⟨ret, after⟩, readRet, ended⟩ := read
      dsimp only at readParams readRet ended
      split at ended
      · next same =>
        obtain ⟨rfl, rfl⟩ := Prod.mk.inj same
        obtain rfl := Option.some.inj ended
        obtain ⟨rfl, free⟩ := Text.splitFirst?_eq_some cut
        obtain ⟨rfl, readable⟩ := TypeSig.eq_of_readAll? readParams
        obtain ⟨rfl, readableRet⟩ := TypeSig.eq_of_read? readRet
        refine ⟨⟨readable, (not_paren_mem_params_iff readable).mp free, readableRet⟩, ?_⟩
        rw [descriptor, List.cons_append, ← List.append_nil ret.erasedChars, ← opened,
          String.ofList_toList]
      · cases ended
    · cases read
  · rintro ⟨readable, rfl⟩
    have readRet := TypeSig.read?_erasedChars [] s.ret readable.ret
    have free := (not_paren_mem_params_iff readable.params).mpr readable.names
    rw [List.append_nil] at readRet
    rw [ofDescriptor?, descriptor, String.toList_ofList, List.cons_append]
    split
    · next rest opened =>
      rw [← (List.cons.inj opened).2, Text.splitFirst?_append free]
      simp only [Option.bind_eq_bind, Option.bind_some,
        TypeSig.readAll?_erasedChars readable.params, readRet]
    · next closed => exact (closed _ rfl).elim

/-- A text is accepted as the signature it is read as. -/
theorem ofDescriptor_eq_ok_iff {text : String} {s : MethodSignature} :
    ofDescriptor text = .ok s ↔ ofDescriptor? text = some s := by
  rw [ofDescriptor]
  cases ofDescriptor? text <;> simp

/-- What is read from a text is an erased signature, and the text is its descriptor. -/
theorem eq_of_ofDescriptor? {text : String} {s : MethodSignature}
    (read : ofDescriptor? text = some s) :
    s.descriptor = text ∧ (∀ param ∈ s.params, param.IsErased) ∧ s.ret.IsErased := by
  obtain ⟨readable, rfl⟩ := ofDescriptor?_eq_some_iff.mp read
  exact ⟨rfl, fun param member => (readable.params param member).isErased, readable.ret.isErased⟩

/-- What was read can be spelled if its class names can. -/
theorem isSpelled_of_ofDescriptor? {text : String} {s : MethodSignature}
    (read : ofDescriptor? text = some s)
    (names : ∀ name ∈ s.classNames, Descriptor.CanSpell name) : s.IsSpelled := by
  obtain ⟨-, params, ret⟩ := eq_of_ofDescriptor? read
  constructor
  · intro param member
    refine ⟨params param member, ?_⟩
    intro name inside
    exact names name (List.mem_append_left _ (List.mem_flatMap.mpr ⟨param, member, inside⟩))
  · refine ⟨ret, ?_⟩
    intro name inside
    exact names name (List.mem_append_right _ inside)

theorem IsSpelled.names {s : MethodSignature} (spelled : s.IsSpelled) :
    ∀ name ∈ s.classNames, Descriptor.CanSpell name := by
  intro name member
  rcases List.mem_append.mp member with params | ret
  · obtain ⟨param, listed, inside⟩ := List.mem_flatMap.mp params
    exact (spelled.params param listed).names name inside
  · exact spelled.ret.names name ret

theorem IsSpelled.isReadable {s : MethodSignature} (spelled : s.IsSpelled) : s.IsReadable where
  params param member := (spelled.params param member).isReadable
  names param member name inside := ((spelled.params param member).names name inside).noParen
  ret := spelled.ret.isReadable

/-- A readable signature can be spelled if no class name holds a closing parenthesis. -/
theorem IsReadable.isSpelled {s : MethodSignature} (readable : s.IsReadable)
    (free : ∀ name ∈ s.classNames, ')' ∉ name.toList) : s.IsSpelled := by
  have spelled : ∀ t : TypeSig, t.IsReadable → (∀ name ∈ t.classNames, name ∈ s.classNames) →
      t.IsSpelled := by
    intro t readable among
    refine ⟨readable.isErased, ?_⟩
    intro name member
    obtain ⟨filled, ended⟩ := readable.name name member
    exact ⟨filled, free name (among name member), ended⟩
  constructor
  · intro param member
    exact spelled param (readable.params param member) fun name inside =>
      List.mem_append_left _ (List.mem_flatMap.mpr ⟨param, member, inside⟩)
  · exact spelled s.ret readable.ret fun name inside => List.mem_append_right _ inside

/-- **A spelled signature is read from its descriptor.** -/
theorem ofDescriptor?_descriptor {s : MethodSignature} (spelled : s.IsSpelled) :
    ofDescriptor? s.descriptor = some s :=
  ofDescriptor?_eq_some_iff.mpr ⟨spelled.isReadable, rfl⟩

end MethodSignature

namespace Descriptor

theorem splitParams_descriptor {s : MethodSignature} (readable : s.IsReadable) :
    splitParams s.descriptor = s.params.map TypeSig.descriptor := by
  rw [splitParams, MethodSignature.ofDescriptor?_eq_some_iff.mpr ⟨readable, rfl⟩]

/-- The result is cut off behind the last closing parenthesis, which is the one behind the
parameters unless the result holds another. -/
theorem returnPart_descriptor_eq_iff {s : MethodSignature} :
    returnPart s.descriptor = s.ret.descriptor ↔ ')' ∉ s.ret.erasedChars := by
  have marked : ')' ∈ s.descriptor.toList := by simp [MethodSignature.descriptor]
  constructor
  · intro whole
    cases cut : Text.splitLast? ')' s.descriptor.toList with
    | none => exact absurd marked (Text.splitLast?_eq_none.mp cut)
    | some parts =>
        obtain ⟨before, after⟩ := parts
        have result : returnPart s.descriptor = String.ofList after := by rw [returnPart, cut]
        have same : after = s.ret.erasedChars :=
          String.ofList_injective (result.symm.trans whole)
        rw [← same]
        exact (Text.splitLast?_eq_some cut).2
  · intro free
    rw [returnPart, MethodSignature.descriptor, String.toList_ofList,
      Text.splitLast?_append _ free]
    rfl

theorem returnPart_descriptor {s : MethodSignature} (spelled : s.IsSpelled) :
    returnPart s.descriptor = s.ret.descriptor :=
  returnPart_descriptor_eq_iff.mpr (TypeSig.not_paren_mem_erasedChars spelled.ret)

/-- **Descriptors are the printed form of erased signatures.** A text is accepted as the descriptor
of a type exactly if the type is readable and the text spells it, and likewise as that of a method.
Any other text, whatever its characters, is refused by an error that names all of it. -/
theorem accepts_spelled_only :
    (∀ (text : String) (t : TypeSig),
      TypeSig.ofDescriptor text = .ok t ↔ t.IsReadable ∧ text = t.descriptor) ∧
    (∀ (text : String) (g : MethodSignature),
      MethodSignature.ofDescriptor text = .ok g ↔ g.IsReadable ∧ text = g.descriptor) ∧
    (∀ text : String, TypeSig.ofDescriptor text = .error (.malformedDescriptor text) ↔
      ¬ ∃ t : TypeSig, t.IsReadable ∧ text = t.descriptor) ∧
    ∀ text : String, MethodSignature.ofDescriptor text = .error (.malformedDescriptor text) ↔
      ¬ ∃ g : MethodSignature, g.IsReadable ∧ text = g.descriptor := by
  refine ⟨?_, ?_, ?_, ?_⟩
  · intro text t
    rw [← TypeSig.ofDescriptor?_eq_some_iff, TypeSig.ofDescriptor]
    cases TypeSig.ofDescriptor? text <;> simp
  · intro text g
    rw [← MethodSignature.ofDescriptor?_eq_some_iff, MethodSignature.ofDescriptor]
    cases MethodSignature.ofDescriptor? text <;> simp
  · intro text
    simp only [← TypeSig.ofDescriptor?_eq_some_iff, TypeSig.ofDescriptor]
    cases TypeSig.ofDescriptor? text <;> simp
  · intro text
    simp only [← MethodSignature.ofDescriptor?_eq_some_iff, MethodSignature.ofDescriptor]
    cases MethodSignature.ofDescriptor? text <;> simp

end Descriptor

end Namesake
