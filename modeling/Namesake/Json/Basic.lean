/-! # JSON values

A document keeps whole numbers apart from decimals, the members of an object in their order, and a
repeated member as often as it stands there. Members and items are handed out with a proof that they
are smaller than what holds them, so a reader of nested data recurses on the document itself.

A `Record` is what readers of structured data look into: an object, or an array that lists the parts
of the record in their order.
-/

namespace Namesake

/-- The number `±digits · 10^exponent`. -/
structure Decimal where
  negative : Bool
  digits : Nat
  exponent : Int
deriving DecidableEq, Repr, Inhabited

namespace Decimal

/-- The nearest number of 53 binary digits, between two of them the even one. -/
def nearest53 (n : Nat) : Nat :=
  let unit := Nat.pow 2 (n.log2 - 52)
  let quotient := n / unit
  let twice := 2 * (n % unit)
  (if twice > unit || (twice == unit && quotient % 2 == 1) then quotient + 1 else quotient) * unit

/-- Whether the number has a finite double. The double is the product of two, that of the digits and
that of the power of ten, so the largest decimals are not in range. -/
def isFinite (d : Decimal) : Bool :=
  d.exponent ≤ 0 || d.digits == 0 ||
    (d.exponent ≤ 308 && nearest53 d.digits * nearest53 (Nat.pow 10 d.exponent.toNat) <
      Nat.pow 2 1024 - Nat.pow 2 970)

end Decimal

/-- A JSON document. -/
inductive Json where
  | null
  | bool (value : Bool)
  | int (value : Int)
  | decimal (value : Decimal)
  | str (value : String)
  /-- A text with a lone surrogate, which is no character, or an object with a member of such a
  name. -/
  | illegible
  | arr (items : List Json)
  | obj (members : List (String × Json))
deriving Repr, Inhabited

namespace Json

/-- A document inside another. -/
abbrev Part (whole : Json) := { part : Json // sizeOf part < sizeOf whole }

/-- The last member of a name. -/
def lastMember? (name : String) :
    (members : List (String × Json)) → Option { part : Json // sizeOf part < sizeOf members }
  | [] => none
  | (key, value) :: rest =>
    match lastMember? name rest with
    | some ⟨part, smaller⟩ => some ⟨part, by simp only [List.cons.sizeOf_spec]; omega⟩
    | none =>
      if key = name then
        some ⟨value, by simp only [List.cons.sizeOf_spec, Prod.mk.sizeOf_spec]; omega⟩
      else none

/-- The member of a name; of several, the last one counts. -/
def member? (j : Json) (name : String) : Option (Part j) :=
  match j with
  | obj members =>
    (lastMember? name members).map fun ⟨part, smaller⟩ =>
      ⟨part, by simp only [obj.sizeOf_spec]; omega⟩
  | _ => none

/-- The items of an array. -/
def items? (j : Json) : Option (List (Part j)) :=
  match j with
  | arr items =>
    some (items.attach.map fun ⟨item, mem⟩ =>
      ⟨item, by have := List.sizeOf_lt_of_mem mem; simp only [arr.sizeOf_spec]; omega⟩)
  | _ => none

/-- Whether the document is an object. -/
def isObject : Json → Bool
  | obj _ => true
  | _ => false

/-- A choice among named forms: the bare name, or an object whose one member carries the rest. -/
inductive Choice (j : Json) where
  | bare (name : String)
  | carrying (name : String) (payload : Part j)

/-- The named form a document stands for. Repeated members count once, the last one of them. -/
def choice? (j : Json) : Option (Choice j) :=
  match j with
  | str name => some (.bare name)
  | obj ((name, value) :: rest) =>
    if rest.all fun m => m.1 == name then
      (member? (obj ((name, value) :: rest)) name).map (.carrying name)
    else none
  | _ => none

/-- A choice among names without payload; `null` may stand for the missing payload. -/
def name? (j : Json) : Option String :=
  match j.choice? with
  | some (.bare name) => some name
  | some (.carrying name ⟨null, _⟩) => some name
  | _ => none

def bool? : Json → Option Bool
  | bool b => some b
  | _ => none

def str? : Json → Option String
  | str s => some s
  | _ => none

/-- A text of exactly one character. -/
def char? (j : Json) : Option Char :=
  match j.str?.map String.toList with
  | some [c] => some c
  | _ => none

/-- A whole number in a range. -/
def int? (low high : Int) : Json → Option Int
  | int n => if low ≤ n ∧ n ≤ high then some n else none
  | _ => none

/-- A whole number of at most so many binary digits. -/
def nat? (bits : Nat) (j : Json) : Option Nat :=
  (j.int? 0 (.ofNat (Nat.pow 2 bits - 1))).map Int.toNat

/-- Any number, as a decimal. -/
def decimal? : Json → Option Decimal
  | decimal d => some d
  | int n => some ⟨decide (n < 0), n.natAbs, 0⟩
  | _ => none

/-- `null` for an absent value, anything else for a present one. -/
def optional? {α : Type} (read : Json → Option α) : Json → Option (Option α)
  | null => some none
  | j => (read j).map some

/-! ## Records -/

/-- The parts of a record, by name. -/
structure Record (whole : Json) where
  part? : String → Option (Part whole)

namespace Record

variable {whole : Json} {α : Type}

/-- The value of a part that has to be there. -/
def required (r : Record whole) (name : String) (read : Json → Option α) : Option α :=
  r.part? name >>= fun part => read part.1

/-- The value of a part whose absence stands for `null`. -/
def optional (r : Record whole) (name : String) (read : Json → Option α) : Option (Option α) :=
  match r.part? name with
  | none => some none
  | some part => optional? read part.1

/-- The value of a part that has a default. -/
def withDefault (r : Record whole) (name : String) (default : α) (read : Json → Option α) :
    Option α :=
  match r.part? name with
  | none => some default
  | some part => read part.1

end Record

/-- The members of an object, as a record. -/
def members (j : Json) : Record j := ⟨j.member?⟩

/-- A record with parts of the given names: an object, or an array of the parts in their order. Only
the parts after the first so many may be left out of an array. -/
def record? (names : List String) (least : Nat) (j : Json) : Option (Record j) :=
  match j.items? with
  | some items =>
    if least ≤ items.length && items.length ≤ names.length then
      some ⟨fun name => (names.zip items).lookup name⟩
    else none
  | none => if j.isObject then some j.members else none

/-- A record whose parts all have to be listed where it is an array. -/
def fullRecord? (names : List String) (j : Json) : Option (Record j) :=
  j.record? names names.length

/-- The value of a member that has to be there. -/
def required {α : Type} (j : Json) (name : String) (read : Json → Option α) : Option α :=
  j.members.required name read

/-- The value of a member whose absence stands for `null`. -/
def optional {α : Type} (j : Json) (name : String) (read : Json → Option α) : Option (Option α) :=
  j.members.optional name read

/-- The value of a member that has a default. -/
def withDefault {α : Type} (j : Json) (name : String) (default : α) (read : Json → Option α) :
    Option α :=
  j.members.withDefault name default read

/-- Whether no member of the given names is repeated. -/
def hasDistinct (names : List String) : Json → Bool
  | obj members => names.all fun name => (members.filter fun m => m.1 == name).length ≤ 1
  | _ => true

/-- All items of an array. -/
def list? {α : Type} (read : Json → Option α) : Json → Option (List α)
  | arr items => items.mapM read
  | _ => none

/-- An optional value, absent ones as `null`. -/
def ofOption {α : Type} (write : α → Json) : Option α → Json
  | none => null
  | some a => write a

/-- A list of values. -/
def ofList {α : Type} (write : α → Json) (values : List α) : Json := arr (values.map write)

/-- A whole number. -/
def ofNat (n : Nat) : Json := int n

/-- Whether a document can be taken in whole: arrays and objects nest at most so many levels deep,
every text is legible and every number has a finite double. -/
def fits : Nat → Json → Bool
  | _, illegible => false
  | _, decimal d => d.isFinite
  | levels + 1, arr items => items.all (fits levels)
  | levels + 1, obj members => members.all fun m => fits levels m.2
  | 0, arr _ | 0, obj _ => false
  | _, null | _, bool _ | _, int _ | _, str _ => true

end Json

end Namesake
