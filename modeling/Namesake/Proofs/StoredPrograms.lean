import Namesake.Proofs.SortedMap
import Namesake.Proofs.StoredCode

/-! # Storing a program and reading it again

A stored program holds every type, method and field by number, and a number is one of 32 bits
(`Program.IdsFit`). The parts of a program are read back as they were written
(`Program.parts?_toJson`), so what a reader makes of the document of a program is decided by
validation alone (`Program.ofJson_toJson`): a valid program comes back whole
(`Program.read_back_of_valid`), any other is refused for the fault that validation names.
-/

namespace Namesake

open Json (fullRecord?_obj)

/-! ## Entries -/

theorem TypeKind.ofJson?_toJson (k : TypeKind) : ofJson? k.toJson = some k := by
  cases k <;> rfl

/-- Whether a number is one of 32 bits, as the numbers of entries are. -/
abbrev FitsId (number : Nat) : Prop := number < UInt32.size

theorem Json.id?_ofNat {id : Nat} (fits : FitsId id) : (ofNat id).id? = some id :=
  nat?_ofNat fits

/-- A list of ids is read back from the list of their numbers. -/
theorem Json.list?_ids {ι : Type} {index : ι → Nat} {ids : List ι}
    (fits : ∀ id ∈ ids, FitsId (index id)) :
    list? id? (ofList (fun id => ofNat (index id)) ids) = some (ids.map index) := by
  have numbers : ofList (fun id => ofNat (index id)) ids = ofList ofNat (ids.map index) := by
    rw [ofList, ofList, List.map_map]
    rfl
  rw [numbers]
  exact list?_ofList fun i member => by
    obtain ⟨id, listed, rfl⟩ := List.mem_map.mp member
    exact id?_ofNat (fits id listed)

theorem TypeEntry.ofJson?_toJson (t : TypeEntry) (methods : ∀ m ∈ t.methods, FitsId m.index)
    (fields : ∀ f ∈ t.fields, FitsId f.index) : ofJson? t.toJson = some t := by
  have superclass : Json.optional? Json.str? (.ofOption .str t.superclass) = some t.superclass :=
    Json.optional?_ofOption (fun _ _ => nofun) fun _ _ => rfl
  have signature : Json.optional? ClassSignature.ofJson?
      (.ofOption ClassSignature.toJson t.signature) = some t.signature :=
    Json.optional?_ofOption (fun _ _ => nofun) fun s _ => s.ofJson?_toJson
  have sameMethods : t.methods.map (MethodId.mk ∘ MethodId.index) = t.methods := t.methods.map_id
  have sameFields : t.fields.map (FieldId.mk ∘ FieldId.index) = t.fields := t.fields.map_id
  rw [ofJson?, toJson, fullRecord?_obj, Option.bind_eq_bind, Option.bind_some]
  simp [TypeKind.ofJson?_toJson, Json.list?_str, superclass, signature,
    Json.list?_ids methods, Json.list?_ids fields, sameMethods, sameFields]

theorem MethodEntry.ofJson?_toJson (m : MethodEntry) (owner : FitsId m.owner.index) :
    ofJson? m.toJson = some m := by
  have body : Json.optional? Json.body? (.ofOption (.ofList Statement.toJson) m.body) =
      some m.body :=
    Json.optional?_ofOption (fun _ _ => nofun) fun _ _ =>
      Json.list?_ofList fun s _ => s.ofJson?_toJson
  rw [ofJson?, toJson, fullRecord?_obj, Option.bind_eq_bind, Option.bind_some]
  simp [Json.id?_ofNat owner, MethodSignature.ofJson?_toJson, body]

theorem FieldEntry.ofJson?_toJson (f : FieldEntry) (owner : FitsId f.owner.index) :
    ofJson? f.toJson = some f := by
  rw [ofJson?, toJson, fullRecord?_obj, Option.bind_eq_bind, Option.bind_some]
  simp [Json.id?_ofNat owner, TypeSig.ofJson?_toJson]

namespace Program

/-! ## Programs -/

/-- Numbers of entries are of 32 bits: every one the program refers to an entry by is. -/
structure IdsFit (p : Program) : Prop where
  listedMethod : ∀ t ∈ p.types, ∀ m ∈ t.methods, FitsId m.index
  listedField : ∀ t ∈ p.types, ∀ f ∈ t.fields, FitsId f.index
  methodOwner : ∀ m ∈ p.methods, FitsId m.owner.index
  fieldOwner : ∀ f ∈ p.fields, FitsId f.owner.index
  named : ∀ e ∈ p.byName.toList, FitsId e.2.index

/-- The name index is read back from the object of its entries. -/
theorem mapM_names {byName : SortedMap String TypeId}
    (named : ∀ e ∈ byName.toList, FitsId e.2.index) :
    (SortedMap.ofList (byName.toList.map fun e => (e.1, Json.ofNat e.2.index))).toList.mapM
      (fun e => e.2.id?.bind fun id => some (e.1, TypeId.mk id)) = some byName.toList := by
  have stored : SortedMap.ofList (byName.toList.map fun e => (e.1, Json.ofNat e.2.index)) =
      byName.mapValues fun _ id => Json.ofNat id.index :=
    SortedMap.ofList_toList (byName.mapValues fun _ id => Json.ofNat id.index)
  rw [stored]
  exact Json.mapM_map_eq_some fun e member => by
    rw [Json.id?_ofNat (named e member), Option.bind_some]

/-- The parts of a program are read back as they were written, valid or not. -/
theorem parts?_toJson {p : Program} (fit : p.IdsFit) : parts? p.toJson = some p := by
  have types : Json.list? TypeEntry.ofJson? (.ofList TypeEntry.toJson p.types) = some p.types :=
    Json.list?_ofList fun t member =>
      t.ofJson?_toJson (fit.listedMethod t member) (fit.listedField t member)
  have methods : Json.list? MethodEntry.ofJson? (.ofList MethodEntry.toJson p.methods) =
      some p.methods :=
    Json.list?_ofList fun m member => m.ofJson?_toJson (fit.methodOwner m member)
  have fields : Json.list? FieldEntry.ofJson? (.ofList FieldEntry.toJson p.fields) =
      some p.fields :=
    Json.list?_ofList fun f member => f.ofJson?_toJson (fit.fieldOwner f member)
  rw [parts?, toJson]
  simp [types, methods, fields, mapM_names fit.named, SortedMap.ofList_toList]

/-- What is made of the document of a program is decided by validation. -/
theorem ofJson_toJson {p : Program} (fit : p.IdsFit) :
    ofJson p.toJson = match p.validate with
      | .ok () => .ok p
      | .error fault => .error (.invalid fault) := by
  rw [ofJson, parts?_toJson fit]
  dsimp only
  cases p.validate <;> rfl

/-- **A stored program is read back.** A valid program is read from its document just as it was
written: its types, members and name index, their signatures and every tree of a body. The document
holds each node of a body as a named form; of all statements only the end of a loop, and of all
instructions only the constant that is null, stands there by its bare name. -/
theorem read_back_of_valid {p : Program} (valid : p.validate = .ok ()) (fit : p.IdsFit) :
    ofJson p.toJson = .ok p ∧ (∀ s : Statement, s.toJson.Form s.kind (s = .breakLoop)) ∧
      (∀ i : Instruction, i.toJson.Form i.kind (i = .nullConstant)) ∧
      ∀ c : Condition, c.toJson.Form c.kind False := by
  refine ⟨?_, Statement.form_toJson, Instruction.form_toJson, Condition.form_toJson⟩
  rw [ofJson_toJson fit, valid]

/-- A class with a method whose body holds a loop without first step or condition, a branch with an
empty last block, an empty result and a result that is null. -/
def looping : Program where
  types := [{ name := "a", kind := .plain, superclass := none, interfaces := [],
              signature := some ⟨[], none, []⟩, enumConstants := [], methods := [⟨0⟩],
              fields := [⟨0⟩] }]
  methods := [{
    name := "m", descriptor := "()V", isStatic := true, isSynthetic := false, owner := ⟨0⟩
    signature := ⟨[], .primitive 'V'⟩
    body := some [
      .forLoop none none (some .breakLoop) [.returnValue none, .returnValue (some .nullConstant)],
      .ifElse (.and []) [] [.mk (.or []) []] (some []), .ifElse (.and []) [] [] none,
      .localAssignment ⟨0, none⟩ (.newArray (.class "a" [.mk .any none]) (.intConstant 0) none)] }]
  fields := [{ name := "f", descriptor := "La;", type := .class "a" [], isStatic := false,
               owner := ⟨0⟩ }]
  byName := .ofList [("a", ⟨0⟩)]

theorem read_back_of_looping :
    looping.validate = .ok () ∧ looping.IdsFit ∧ ofJson looping.toJson = .ok looping := by
  have valid : looping.validate = .ok () := rfl
  have fit : looping.IdsFit := by
    constructor <;> decide
  exact ⟨valid, fit, (read_back_of_valid valid fit).1⟩

end Program

end Namesake
