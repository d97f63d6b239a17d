import Namesake.SortedMap.Basic

/-! # Keys that tell their owner

Out of a list of keyed items, `soleOwners` keeps the keys whose items are all the same one, and
`soleItems` the keys that occur only once.
-/

namespace Namesake

variable {κ ι : Type} [KeyOrder κ]

/-- Note that a key belongs to an item; a key with two different items belongs to none. -/
def claimKey [DecidableEq ι] (m : SortedMap κ (Option ι)) (key : κ) (item : ι) :
    SortedMap κ (Option ι) :=
  match m.get? key with
  | none => m.insert key (some item)
  | some (some owner) => if owner = item then m else m.insert key none
  | some none => m

/-- The item of every key that has a single one, however often it occurs. -/
def soleOwners [DecidableEq ι] (items : List (κ × ι)) : SortedMap κ ι :=
  (items.foldl (fun m e => claimKey m e.1 e.2) ∅).filterMap fun _ owner => owner

/-- Note an occurrence of a key; a key that occurs again has no item. -/
def meetKey (m : SortedMap κ (Option ι)) (key : κ) (item : ι) : SortedMap κ (Option ι) :=
  m.insert key (if m.contains key then none else some item)

/-- The item of every key that occurs once. -/
def soleItems (items : List (κ × ι)) : SortedMap κ ι :=
  (items.foldl (fun m e => meetKey m e.1 e.2) ∅).filterMap fun _ item => item

end Namesake
