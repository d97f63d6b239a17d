import Namesake.Proofs.DescriptorKeys
import Namesake.Proofs.Renaming
import Namesake.Proofs.UniqueNames

/-! # Keys of counterparts

Where every class of a descriptor is confirmed onto a type with a name that a descriptor can spell,
or belongs to neither program (`Context.Corresponds`), both builds have one name for each of them:
the old build finds it through the target of the class, the new one through the holder of its
counterpart (`Context.Corresponds.exists_key`). So the descriptor and the one under the names of the
counterparts have the same key (`State.Reachable.keys_agree`). A type without a name has no
descriptor, and there the keys differ (`Context.nameless_keys_differ`).
-/

namespace Namesake

/-! ## Names both builds agree on -/

namespace Context

variable (c : Context) (l : Ledger)

/-- The name of the type that a class of the old program is confirmed onto; any other name stays. -/
def counterpart (name : String) : String :=
  match c.old.program.typeNamed? name >>= fun o => l.types.target? (.real o) with
  | some n => (c.new.program.type n).name
  | none => name

/-- A class both builds agree on: it is confirmed onto a type whose name a descriptor can spell, or
belongs to neither program. -/
inductive Corresponds (name : String) : Prop
  | confirmed {o n : TypeId} (named : c.old.program.typeNamed? name = some o)
      (target : l.types.target? (.real o) = some n)
      (spelled : Descriptor.CanSpell (c.new.program.type n).name)
  | outside (old : c.old.program.typeNamed? name = none)
      (new : c.new.program.typeNamed? name = none)

variable {c l} {name : String}

/-- Both builds have one name for a class and its counterpart. -/
theorem Corresponds.exists_key (corresponds : c.Corresponds l name)
    (coherent : c.old.program.Coherent) (valid : c.new.program.validate = .ok ())
    (sound : l.types.Sound) : ∃ key, oldClassKey? c l name = some key ∧
      newClassKey? c l (c.counterpart l name) = some key := by
  cases corresponds with
  | outside old new =>
      refine ⟨name, by simp [oldClassKey?, old], ?_⟩
      simp [counterpart, old, newClassKey?, new]
  | @confirmed o n named target spelled =>
      have inside : c.new.program.HasType n := by
        by_contra outside
        rw [Program.type_eq_default outside] at spelled
        exact spelled.nonempty rfl
      have found := Program.typeNamed?_name valid inside
      have holder := sound.holder_iff.mpr target
      have bearer : (c.old.program.type o).name = name := (coherent.named named).2
      refine ⟨c.oldTypeName name, by simp [oldClassKey?, named, target], ?_⟩
      simp [counterpart, named, target, newClassKey?, newTypeName?, found, holder, bearer]

/-- The name of a counterpart is the same, or one that can be spelled. -/
theorem Corresponds.same_or_spelled (corresponds : c.Corresponds l name) :
    c.counterpart l name = name ∨ Descriptor.CanSpell (c.counterpart l name) := by
  cases corresponds with
  | outside old new => exact .inl (by simp [counterpart, old])
  | confirmed named target spelled => exact .inr (by simpa [counterpart, named, target])

end Context

/-! ## Keys under other names -/

variable {classKey? classKey?' : String → Option String} {naming : String → String}

/-- A type under the names of counterparts has the same key. -/
theorem fieldKey_rename {t : TypeSig} (readable : t.IsReadable)
    (readable' : (t.rename naming).IsReadable)
    (keys : ∀ name ∈ t.classNames, ∃ key, classKey? name = some key ∧
      classKey?' (naming name) = some key) :
    fieldKey classKey? t.descriptor = fieldKey classKey?' (t.rename naming).descriptor := by
  rw [fieldKey_eq_iff readable readable']
  have names : t.classNames = t.element.2.toList := readable.isErased.classNames_eq
  have renamed := TypeSig.element_rename naming t
  cases element : t.element.2 with
  | none =>
      rw [element] at names
      have fixed : t.rename naming = t := by
        apply (TypeSig.rename_of_fixed naming).1 t
        rw [names]
        exact nofun
      exact .same element fixed.symm
  | some name =>
      rw [element] at names renamed
      obtain ⟨key, known, known'⟩ := keys name (by simp [names])
      exact .agreed (by rw [renamed]) element (by rw [renamed]; rfl) known known'

/-- The key of a method is made of the keys of its parts. -/
theorem methodKey_descriptor (classKey? : String → Option String) (name : String)
    {s : MethodSignature} (spelled : s.IsSpelled) : methodKey classKey? name s.descriptor =
      (if name.toList.head? == some '<' then name else "") ++ "(" ++
        String.join (s.params.map fun param => fieldKey classKey? param.descriptor) ++ ")" ++
        fieldKey classKey? s.ret.descriptor := by
  rw [methodKey, Descriptor.splitParams_descriptor spelled.isReadable,
    Descriptor.returnPart_descriptor spelled, List.map_map]
  rfl

/-- A method under the names of counterparts has the same key, if it keeps its own name or neither
name is special. -/
theorem methodKey_rename {s : MethodSignature} {a b : String}
    (spelled : s.IsSpelled) (spelled' : (s.rename naming).IsSpelled)
    (keys : ∀ name ∈ s.classNames, ∃ key, classKey? name = some key ∧
      classKey?' (naming name) = some key)
    (special : a = b ∨ a.toList.head? ≠ some '<' ∧ b.toList.head? ≠ some '<') :
    methodKey classKey? a s.descriptor = methodKey classKey?' b (s.rename naming).descriptor := by
  have params : (s.params.map fun param => fieldKey classKey? param.descriptor) =
      (s.rename naming).params.map fun param => fieldKey classKey?' param.descriptor := by
    rw [MethodSignature.rename, List.map_map]
    apply List.map_congr_left
    intro param listed
    have renamed : (param.rename naming).IsSpelled :=
      spelled'.params _ (List.mem_map_of_mem listed)
    refine fieldKey_rename (spelled.params param listed).isReadable renamed.isReadable ?_
    intro name member
    exact keys name (List.mem_append_left _ (List.mem_flatMap.mpr ⟨param, listed, member⟩))
  have ret : fieldKey classKey? s.ret.descriptor =
      fieldKey classKey?' (s.rename naming).ret.descriptor := by
    refine fieldKey_rename spelled.ret.isReadable spelled'.ret.isReadable ?_
    intro name member
    exact keys name (List.mem_append_right _ member)
  have names : (if a.toList.head? == some '<' then a else "") =
      if b.toList.head? == some '<' then b else "" := by
    rcases special with rfl | ⟨plain, plain'⟩
    · rfl
    · simp [plain, plain']
  rw [methodKey_descriptor _ _ spelled, methodKey_descriptor _ _ spelled', params, ret, names]

/-- **Members that correspond have the same key.** Take a reachable state of a merge of valid
programs, and a descriptor whose classes are confirmed onto types with names that can be spelled, or
belong to neither program. On the other side it has the same key under the names of the
counterparts: as the descriptor of a method, if its own class names hold no closing parenthesis, and
the names of the methods are the same or neither is special; and as the descriptor of a field. -/
theorem State.Reachable.keys_agree {c : Context} {st : State} (reachable : st.Reachable c)
    (validOld : c.old.program.validate = .ok ()) (validNew : c.new.program.validate = .ok ()) :
    let l := st.ledger
    (∀ d g a b, MethodSignature.ofDescriptor d = .ok g →
      (∀ name ∈ g.classNames, ')' ∉ name.toList ∧ c.Corresponds l name) →
      a = b ∨ a.toList.head? ≠ some '<' ∧ b.toList.head? ≠ some '<' →
      methodKey (oldClassKey? c l) a d =
        methodKey (newClassKey? c l) b (Descriptor.rename (c.counterpart l) d)) ∧
    ∀ d t, TypeSig.ofDescriptor d = .ok t → (∀ name ∈ t.classNames, c.Corresponds l name) →
      fieldKey (oldClassKey? c l) d =
        fieldKey (newClassKey? c l) (Descriptor.renameType (c.counterpart l) d) := by
  intro l
  have coherent := Program.coherent_of_validate validOld
  have sound : l.types.Sound := (reachable.each Partition.invariant_sound).types
  constructor
  · intro d g a b read names special
    rw [MethodSignature.ofDescriptor_eq_ok_iff] at read
    obtain ⟨readable, written⟩ := MethodSignature.ofDescriptor?_eq_some_iff.mp read
    have spelled : g.IsSpelled := readable.isSpelled fun name member => (names name member).1
    have spelled' : (g.rename (c.counterpart l)).IsSpelled := by
      refine spelled.rename fun name member => ?_
      rcases (names name member).2.same_or_spelled with same | fits
      · rw [same]
        exact spelled.names name member
      · exact fits
    rw [Descriptor.rename, read, written]
    refine methodKey_rename spelled spelled' ?_ special
    intro name member
    exact (names name member).2.exists_key coherent validNew sound
  · intro d t read corresponds
    rw [TypeSig.ofDescriptor_eq_ok_iff] at read
    obtain ⟨readable, written⟩ := TypeSig.ofDescriptor?_eq_some_iff.mp read
    have readable' : (t.rename (c.counterpart l)).IsReadable := by
      refine readable.rename fun name member => ?_
      rcases (corresponds name member).same_or_spelled with same | fits
      · rw [same]
        exact readable.name name member
      · exact ⟨fits.nonempty, fits.noSemicolon⟩
    rw [Descriptor.renameType, read, written]
    refine fieldKey_rename readable readable' ?_
    intro name member
    exact (corresponds name member).exists_key coherent validNew sound

/-! ### A class without a name -/

/-- **A nameless type has no descriptor.** The class `a` is confirmed onto a type whose name is
empty, so the method that takes an `a` has a counterpart whose parameter cannot be read, and another
key. So have the fields of these types. -/
theorem Context.nameless_keys_differ :
    let c := Context.of (.single "a" "f") ∅ (.single "" "f") .default
    let st := State.withTypes c [⟨0⟩]
    let l := st.ledger
    st.Reachable c ∧ c.old.program.validate = .ok () ∧ c.new.program.validate = .ok () ∧
      MethodSignature.ofDescriptor "(La;)V" = .ok ⟨[.class "a" []], .primitive 'V'⟩ ∧
      TypeSig.ofDescriptor "La;" = .ok (.class "a" []) ∧
      c.old.program.typeNamed? "a" = some ⟨0⟩ ∧ l.types.target? (.real ⟨0⟩) = some ⟨0⟩ ∧
      (c.new.program.type ⟨0⟩).name = "" ∧
      methodKey (oldClassKey? c l) "m" "(La;)V" = "(La;)V" ∧
      methodKey (newClassKey? c l) "m" (Descriptor.rename (c.counterpart l) "(La;)V") = "()V" ∧
      fieldKey (oldClassKey? c l) "La;" = "La;" ∧
      fieldKey (newClassKey? c l) (Descriptor.renameType (c.counterpart l) "La;") = "L;" := by
  intro c st l
  have reachable : st.Reachable c := State.Reachable.initial.foldl_after _
  have read : MethodSignature.ofDescriptor "(La;)V" = .ok ⟨[.class "a" []], .primitive 'V'⟩ := by
    decide +kernel
  have key : methodKey (oldClassKey? c l) "m" "(La;)V" = "(La;)V" := by decide +kernel
  have key' : methodKey (newClassKey? c l) "m"
      (Descriptor.rename (c.counterpart l) "(La;)V") = "()V" := by decide +kernel
  have field : fieldKey (oldClassKey? c l) "La;" = "La;" := by decide +kernel
  have field' : fieldKey (newClassKey? c l)
      (Descriptor.renameType (c.counterpart l) "La;") = "L;" := by decide +kernel
  exact ⟨reachable, rfl, rfl, read, by rfl, by rfl, by rfl, rfl, key, key', field, field'⟩

/-- Arrays and results, classes of the program and others: the keys agree. -/
theorem Context.keys_agree_of_confirmed :
    let c := Context.of (.single "a" "f") ∅ (.single "x" "f") .default
    let st := State.withTypes c [⟨0⟩]
    let l := st.ledger
    let g : MethodSignature :=
      ⟨[.primitive 'I', .array (.class "a" []), .class "ext" []], .class "a" []⟩
    st.Reachable c ∧ c.old.program.validate = .ok () ∧ c.new.program.validate = .ok () ∧
      MethodSignature.ofDescriptor "(I[La;Lext;)La;" = .ok g ∧
      (∀ name ∈ g.classNames, ')' ∉ name.toList ∧ c.Corresponds l name) ∧
      methodKey (oldClassKey? c l) "run" "(I[La;Lext;)La;" =
        methodKey (newClassKey? c l) "go" "(I[Lx;Lext;)Lx;" ∧
      fieldKey (oldClassKey? c l) "[La;" = fieldKey (newClassKey? c l) "[Lx;" := by
  intro c st l g
  have reachable : st.Reachable c := State.Reachable.initial.foldl_after _
  have read : MethodSignature.ofDescriptor "(I[La;Lext;)La;" = .ok g := by decide +kernel
  have confirmed : c.Corresponds l "a" :=
    .confirmed (o := ⟨0⟩) (n := ⟨0⟩) rfl (by rfl) ⟨by decide, by decide, by decide⟩
  have outside : c.Corresponds l "ext" := .outside rfl rfl
  have names : ∀ name ∈ g.classNames, ')' ∉ name.toList ∧ c.Corresponds l name := by
    have listed : g.classNames = ["a", "ext", "a"] := by decide +kernel
    rw [listed]
    simp [confirmed, outside]
  have renamed : Descriptor.rename (c.counterpart l) "(I[La;Lext;)La;" = "(I[Lx;Lext;)Lx;" := by
    decide +kernel
  have renamedType : Descriptor.renameType (c.counterpart l) "[La;" = "[Lx;" := by decide +kernel
  obtain ⟨methods, fields⟩ := reachable.keys_agree rfl rfl
  have key := methods _ g "run" "go" read names (.inr ⟨by decide, by decide⟩)
  have field := fields "[La;" (.array (.class "a" [])) (by rfl) (by
    intro name member
    obtain rfl : name = "a" := by simpa [TypeSig.classNames, TypeArg.listClassNames] using member
    exact confirmed)
  rw [renamed] at key
  rw [renamedType] at field
  exact ⟨reachable, rfl, rfl, read, names, key, field⟩

end Namesake
