import Mathlib.Data.List.Basic
import Namesake.Program.Json

/-! # Reading the forms a writer uses

A value of a choice is written as a named form: its bare name, or an object whose one member carries
the rest (`Json.Form`). Either is recognised again by its name, and neither is `null`, so `null` is
left to stand for an absent value (`Json.optional?_ofOption`). An array reads back item by item, and
a whole number as long as it is in the range of its reader.
-/

namespace Namesake.Json

variable {α β : Type}

/-! ## Named forms -/

/-- A value of a choice, under the name of its kind: by the bare name if the kind has no parts, else
as an object whose one member carries them. -/
inductive Form (name : String) (isUnit : Prop) : Json → Prop where
  | bare (unit : isUnit) : Form name isUnit (.str name)
  | carrying (parts : ¬isUnit) (payload : Json) : Form name isUnit (.obj [(name, payload)])

theorem Form.ne_null {name : String} {isUnit : Prop} {j : Json} (form : Form name isUnit j) :
    j ≠ .null := by
  cases form with
  | bare unit => exact nofun
  | carrying parts payload => exact nofun

theorem choice?_obj (name : String) (payload : Json) :
    (obj [(name, payload)]).choice? = some (.carrying name ⟨payload, by simp; omega⟩) := by
  simp [choice?, member?, lastMember?]

@[simp]
theorem str?_str (text : String) : (str text).str? = some text := rfl

@[simp]
theorem bool?_bool (b : Bool) : (bool b).bool? = some b := rfl

/-! ## Absent values -/

/-- A document other than `null` is read as a present value. -/
theorem optional?_of_ne_null {read : Json → Option α} {j : Json} (present : j ≠ .null) :
    optional? read j = (read j).map some := by
  cases j with
  | null => exact (present rfl).elim
  | bool _ | int _ | decimal _ | str _ | illegible | arr _ | obj _ => rfl

/-- An optional value is read back if `null` is no present one. -/
theorem optional?_ofOption {write : α → Json} {read : Json → Option α} {value : Option α}
    (present : ∀ a ∈ value, write a ≠ .null) (again : ∀ a ∈ value, read (write a) = some a) :
    optional? read (ofOption write value) = some value := by
  cases value with
  | none => rfl
  | some a => rw [ofOption, optional?_of_ne_null (present a rfl), again a rfl, Option.map_some]

/-! ## Arrays -/

/-- Values are read back from the list of what was written. -/
theorem mapM_map_eq_some {write : α → β} {read : β → Option α} {values : List α}
    (again : ∀ a ∈ values, read (write a) = some a) :
    (values.map write).mapM read = some values := by
  induction values with
  | nil => rfl
  | cons a rest ih =>
      rw [List.forall_mem_cons] at again
      rw [List.map_cons, List.mapM_cons, again.1, ih again.2]
      rfl

theorem list?_ofList {write : α → Json} {read : Json → Option α} {values : List α}
    (again : ∀ a ∈ values, read (write a) = some a) :
    list? read (ofList write values) = some values :=
  mapM_map_eq_some again

theorem sizeOf_lt_arr {item : Json} {items : List Json} (member : item ∈ items) :
    sizeOf item < sizeOf (arr items) := by
  have smaller := List.sizeOf_lt_of_mem member
  rw [arr.sizeOf_spec]
  omega

theorem list?_str (l : List String) : list? str? (ofList str l) = some l :=
  list?_ofList fun _ _ => rfl

/-- The items of an array, each as a part of it. -/
def itemParts (items : List Json) : List (Part (arr items)) :=
  items.attach.map fun ⟨item, member⟩ => ⟨item, sizeOf_lt_arr member⟩

@[simp]
theorem items?_arr (items : List Json) : (arr items).items? = some (itemParts items) := rfl

@[simp]
theorem unattach_itemParts (items : List Json) : (itemParts items).unattach = items := by
  rw [List.unattach, itemParts, List.map_map]
  exact items.attach_map_subtype_val

/-! ## Records -/

-- Members of an object that is written out are looked up by evaluation.
attribute [simp] members member? lastMember? required optional Record.required Record.optional

/-- An object is taken by its members, whatever parts an array would have to list. -/
theorem fullRecord?_obj (names : List String) (ms : List (String × Json)) :
    (obj ms).fullRecord? names = some (obj ms).members := rfl

/-! ## Numbers and characters -/

theorem nat?_ofNat {bits n : Nat} (fits : n < Nat.pow 2 bits) : (ofNat n).nat? bits = some n := by
  have inRange : (0 : Int) ≤ n ∧ (n : Int) ≤ .ofNat (Nat.pow 2 bits - 1) := by
    refine ⟨Int.natCast_nonneg n, Int.ofNat_le.mpr ?_⟩
    exact Nat.le_sub_one_of_lt fits
  rw [nat?, ofNat, int?, if_pos inRange, Option.map_some, Int.toNat_natCast]

theorem uint16?_ofNat (n : UInt16) : (ofNat n.toNat).uint16? = some n := by
  rw [uint16?, nat?_ofNat n.toNat_lt, Option.map_some, UInt16.ofNat_toNat]

theorem int32?_int (n : Int32) : (int n.toInt).int32? = some n := by
  have inRange : Int32.minValue.toInt ≤ n.toInt ∧ n.toInt ≤ Int32.maxValue.toInt :=
    ⟨n.minValue_le_toInt, n.toInt_le⟩
  rw [int32?, int?, if_pos inRange, Option.map_some, Int32.ofInt_toInt]

theorem int64?_int (n : Int64) : (int n.toInt).int64? = some n := by
  have inRange : Int64.minValue.toInt ≤ n.toInt ∧ n.toInt ≤ Int64.maxValue.toInt :=
    ⟨n.minValue_le_toInt, n.toInt_le⟩
  rw [int64?, int?, if_pos inRange, Option.map_some, Int64.ofInt_toInt]

theorem char?_singleton (c : Char) : (str (String.singleton c)).char? = some c := by
  rw [char?, str?, Option.map_some, String.toList_singleton]

end Namesake.Json
