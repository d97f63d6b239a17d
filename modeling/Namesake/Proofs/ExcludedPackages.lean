import Namesake.Proofs.CarriedNames
import Namesake.Proofs.CycleLimits
import Namesake.Proofs.PackageFilters
import Namesake.Proofs.Pairings

/-! # Excluded packages

Types whose plain names start in a certain way can be left out of a merge, together with their
members. The plain names of the old build are filtered once, before the merge, and yet nothing of
the packages comes back: a merge that starts without known names gives no type such a name and
copies no name from a member of such a type (`Session.merge_leaves_out_packages`). What is not
copied from the filtered names is the number of an anonymous type, added after a `$` to the name of
the type around it, or the name of a placeholder, and those come from the new build.
-/

namespace Namesake

/-! ## Placeholders -/

namespace Program

/-- A method is the target of a bridge of the name. -/
def IsBridgedAs (p : Program) (m : MethodId) (name : String) : Prop :=
  ∃ t bridge, bridge ∈ p.instanceMethods t ∧ p.bridgeTarget? t bridge = some m ∧
    (p.method bridge).name = name

/-- A field holds the constants of an enum. -/
def HoldsConstants (p : Program) (f : FieldId) : Prop := ∃ t, p.constantsField? t = some f

end Program

/-- Placeholders carry names the new build tells: those of bridges, and the one of the constants of
an enum. None stands for a type. -/
def Pairing.ofNewNames (new : Program) : Pairing where
  placeholders _ _ := False
  methods _ k n := ∀ s, k = .synthetic s → new.IsBridgedAs n s.name
  fields _ k g := ∀ s, k = .synthetic s → s.name = "$VALUES" ∧ new.HoldsConstants g
  methods_mono _ fits := fits
  fields_mono _ fits := fits

/-- Whatever is planned confirms placeholders with names of the new build only. -/
theorem Pairing.takesInPlans_ofNewNames (c : Context) :
    (Pairing.ofNewNames c.new.program).TakesInPlans c := by
  intro l l' a _ _ planned
  cases planned with
  | @vote b _ =>
      cases b with
      | type o n => trivial
      | method m n => exact fun _ s key => by cases key
      | field f g => exact fun _ s key => by cases key
  | type o n => exact Pairing.types_real _ o n
  | initializers confirmed old new => exact fun s key => by cases key
  | lone confirmed old new => exact fun s key => by cases key
  | @bridge t bridge m listed leads =>
      rintro s ⟨rfl⟩
      exact ⟨t, bridge, listed, leads, rfl⟩
  | @constants t f found =>
      rintro s ⟨rfl⟩
      exact ⟨rfl, t, found⟩
  | mergedType o => trivial
  | mergedMethod m => trivial
  | mergedField f => trivial

/-! ## Numbered names -/

/-- What starts a text up to a mark and after, and does not contain the mark, starts it before the
mark. -/
private theorem prefix_of_prefix_append {mark : Char} {start before after : List Char}
    (apart : mark ∉ start) (begins : start <+: before ++ mark :: after) : start <+: before := by
  rcases List.prefix_or_prefix_of_prefix begins (List.prefix_append before (mark :: after)) with
    shorter | ⟨rest, rfl⟩
  · exact shorter
  · cases rest with
    | nil => simp
    | cons first rest =>
        obtain ⟨further, same⟩ := begins
        rw [List.append_assoc, List.append_cancel_left_eq] at same
        obtain ⟨rfl, -⟩ := List.cons.inj same
        exact (apart (List.mem_append_right _ List.mem_cons_self)).elim

/-- A numbered name starts in the same way as the name before its number. -/
theorem StartsIn.of_numberedName {beginnings : List String}
    (marked : ∀ b ∈ beginnings, '$' ∉ b.toList) {outer : String} {number : Nat}
    (starts : StartsIn beginnings (numberedName outer number)) : StartsIn beginnings outer := by
  obtain ⟨b, member, begins⟩ := starts
  have split : (numberedName outer number).toList =
      outer.toList ++ '$' :: (toString number).toList := by
    simp [numberedName]
  rw [split] at begins
  exact ⟨b, member, prefix_of_prefix_append (marked b member) begins⟩

/-- The name of the type around another is shorter. -/
theorem TypeName.length_of_outer? {name outer : String}
    (around : TypeName.outer? name = some outer) : outer.toList.length < name.toList.length := by
  obtain ⟨⟨before, after⟩, split, rfl⟩ := Option.map_eq_some_iff.mp around
  rw [(Text.splitLast?_eq_some split).1, String.toList_ofList, List.length_append,
    List.length_cons]
  omega

variable {c : Context} {l : Ledger}

/-- Where the plain names of the old build do not start in certain ways, and placeholders stand for
no types, no name that is carried over does. -/
theorem not_startsIn_of_mapType?_project (sound : l.types.Sound) {beginnings : List String}
    (marked : ∀ b ∈ beginnings, '$' ∉ b.toList)
    (filtered : ∀ x p, c.names.mapType? x = some p → ¬ StartsIn beginnings p)
    (real : ∀ s n, l.types.target? (.synthetic s) ≠ some n) {x p : String}
    (named : (project c l ∅).mapType? x = some p) : ¬ StartsIn beginnings p := by
  -- the name of an anonymous type comes from the type around it, whose name is shorter
  induction size : x.toList.length using Nat.strong_induction_on generalizing x p with
  | _ size ih =>
      rcases mapType?_project_cases sound named with before | ⟨k, n, confirmed, -, told⟩ |
        ⟨-, -, outer, outerPlain, number, index, around, outerNamed, -, -, rfl⟩
      · cases before
      · cases k with
        | real o => exact filtered _ p told
        | synthetic s => exact (real s n confirmed).elim
      · intro starts
        have shorter := TypeName.length_of_outer? around
        exact ih _ (size ▸ shorter) outerNamed rfl (starts.of_numberedName marked)

namespace Context

/-- Where a name for a new field may come from: from an old field whose type is not left out, or
from the new build, which tells the fields with the constants of enums. -/
def FieldNameFrom (c : Context) (names : MappingSet) (g : FieldId) (plain : String) :
    Handle FieldId → Prop
  | .real f =>
    let owner := c.old.program.fieldOwnerName f
    names.mapField? owner (c.old.program.field f).name = some plain ∧
      ¬ names.LeavesOut c.settings.excludedPackages owner
  | .synthetic _ => plain = "$VALUES" ∧ c.new.program.HoldsConstants g

/-- Where a name for a new method may come from: from an old method whose type is not left out, or
from a bridge of the new build. -/
def MethodNameFrom (c : Context) (names : MappingSet) (n : MethodId) (plain : String) :
    Handle MethodId → Prop
  | .real m =>
    let owner := c.old.program.methodOwnerName m
    names.mapMethod? owner (c.old.program.method m).name (c.old.program.method m).descriptor =
        some plain ∧
      ¬ names.LeavesOut c.settings.excludedPackages owner
  | .synthetic _ => c.new.program.IsBridgedAs n plain

variable {names : MappingSet} {isNamed : String → Bool} {owner plain : String}
  (filtered : c.names = names.excludingPackages c.settings.excludedPackages)

include filtered

theorem fieldNameFrom_of_told {k : Handle FieldId} {g : FieldId}
    (fits : (Pairing.ofNewNames c.new.program).fields l k g)
    (told : c.fieldNameOf? isNamed owner k = some plain) : c.FieldNameFrom names g plain k := by
  cases k with
  | real f =>
      rw [fieldNameOf?, filtered, MappingSet.mapField?_excludingPackages] at told
      split_ifs at told with leftOut
      exact ⟨told, (names.isExcluded_iff _).not.mp leftOut⟩
  | synthetic placeholder =>
      obtain ⟨values, holds⟩ := fits placeholder rfl
      rw [fieldNameOf?, Option.ite_none_right_eq_some, Option.some.injEq] at told
      exact ⟨told.2 ▸ values, holds⟩

theorem methodNameFrom_of_told {k : Handle MethodId} {n : MethodId}
    (fits : (Pairing.ofNewNames c.new.program).methods l k n)
    (told : c.methodNameOf? isNamed owner k = some plain) : c.MethodNameFrom names n plain k := by
  cases k with
  | real m =>
      rw [methodNameOf?, filtered, MappingSet.mapMethod?_excludingPackages] at told
      split_ifs at told with leftOut
      exact ⟨told, (names.isExcluded_iff _).not.mp leftOut⟩
  | synthetic placeholder =>
      rw [methodNameOf?, Option.ite_none_right_eq_some, Option.some.injEq] at told
      exact told.2 ▸ fits placeholder rfl

end Context

/-- A program of classes with a method each that speaks a text. -/
def Program.speaking (classes : List (String × String)) : Program where
  types := classes.mapIdx fun i (name, _) =>
    { name, kind := .plain, superclass := none, interfaces := [], signature := none,
      enumConstants := [], methods := [⟨i⟩], fields := [] }
  methods := classes.mapIdx fun i (_, text) =>
    { name := "speak", descriptor := "()V", isStatic := false, isSynthetic := false,
      signature := ⟨[], .primitive 'V'⟩, body := some [.invoke (.stringConstant text)],
      owner := ⟨i⟩ }
  fields := []
  byName := .ofList (classes.mapIdx fun i (name, _) => (name, ⟨i⟩))

namespace Session

/-- **Excluded packages do not come back.** A merge that starts without known names succeeds,
whatever the two programs are. If no beginning of a package contains a `$`, no type has a plain name
in the end that starts with one. Every name of a field or method comes from a confirmed pair, and it
was copied from an old member whose type is not left out, going by all plain names of the old build,
or told by the new build; the members of types that are left out have no names to copy. -/
theorem merge_leaves_out_packages (old : Program) (names : MappingSet) (new : Program)
    (settings : MergeSettings) (marked : ∀ b ∈ settings.excludedPackages, '$' ∉ b.toList) :
    let s := (start old names new ∅ settings).withDefaultSteps
    let c := s.context
    ∃ log s', s.merge = .ok log s' ∧
      let l := s'.state.ledger
      let output := s'.output
      (∀ x p, output.mapType? x = some p → ¬ StartsIn settings.excludedPackages p) ∧
      (∀ owner name p, output.mapField? owner name = some p →
        ∃ k g, l.fields.target? k = some g ∧ new.fieldOwnerName g = owner ∧
          (new.field g).name = name ∧ c.FieldNameFrom names g p k) ∧
      (∀ owner name descriptor p, output.mapMethod? owner name descriptor = some p →
        ∃ k n, l.methods.target? k = some n ∧ new.methodOwnerName n = owner ∧
          (new.method n).name = name ∧ (new.method n).descriptor = descriptor ∧
          c.MethodNameFrom names n p k) ∧
      ∀ owner, names.LeavesOut settings.excludedPackages owner →
        (∀ name, c.names.mapField? owner name = none) ∧
          ∀ name descriptor, c.names.mapMethod? owner name descriptor = none := by
  intro s c
  have plain : c.names = names.excludingPackages settings.excludedPackages := rfl
  obtain ⟨log, s', merged, output, sound, abides⟩ := merge_abidesBy old names new ∅ settings
  have seeds : ∀ a ∈ seedActions c ∅, ∀ l, a.KeepsTo (.ofNewNames new) l := by
    intro a member
    cases member
  have kept := (abides (.ofNewNames new) (Pairing.takesInPlans_ofNewNames c) seeds).2
  refine ⟨log, s', merged, ?_⟩
  dsimp only
  rw [output]
  refine ⟨?types, ?fields, ?methods, ?members⟩
  case types =>
    intro x p named
    refine not_startsIn_of_mapType?_project sound.types marked ?_ ?_ named
    · exact fun x p named => (MappingSet.of_mapType?_excludingPackages named).2
    · exact fun placeholder n confirmed => kept.types.pair confirmed placeholder rfl
  case fields =>
    intro owner name p named
    rcases mapField?_project_cases sound.fields named with
      before | ⟨k, g, confirmed, owned, called, told⟩
    · cases before
    · exact ⟨k, g, confirmed, owned, called,
        Context.fieldNameFrom_of_told (l := s'.state.ledger) plain (kept.fields.pair confirmed)
          told⟩
  case methods =>
    intro owner name descriptor p named
    rcases mapMethod?_project_cases sound.methods named with
      before | ⟨k, n, confirmed, owned, called, described, told⟩
    · cases before
    · exact ⟨k, n, confirmed, owned, called, described,
        Context.methodNameFrom_of_told (l := s'.state.ledger) plain (kept.methods.pair confirmed)
          told⟩
  case members =>
    intro owner leftOut
    have excluded := (names.isExcluded_iff settings.excludedPackages).mpr leftOut
    constructor
    · intro name
      rw [plain, MappingSet.mapField?_excludingPackages, if_pos excluded]
    · intro name descriptor
      rw [plain, MappingSet.mapMethod?_excludingPackages, if_pos excluded]

/-- Two classes are confirmed by the texts their methods speak. The one of an excluded package keeps
its name and that of its method to itself, the other one hands its name on. -/
theorem merge_leaves_out_packages_of_speaking :
    let old := Program.speaking [("a", "one"), ("b", "two")]
    let new := Program.speaking [("x", "one"), ("y", "two")]
    let names := (((∅ : MappingSet).addType "a" "lib/Known").addType "b" "app/Kept").addMethod
      "a" "speak" "()V" "open"
    let settings := { MergeSettings.default with excludedPackages := ["lib/"] }
    let s := (start old names new ∅ settings).withDefaultSteps
    (∀ b ∈ settings.excludedPackages, '$' ∉ b.toList) ∧
      names.LeavesOut settings.excludedPackages "a" ∧
      names.mapMethod? "a" "speak" "()V" = some "open" ∧
      s.context.names.mapMethod? "a" "speak" "()V" = none ∧
      ∃ log s', s.merge = .ok log s' ∧
        s'.state.ledger.types.target? (.real ⟨0⟩) = some ⟨0⟩ ∧
        s'.state.ledger.types.target? (.real ⟨1⟩) = some ⟨1⟩ ∧
        s'.output.mapType? "x" = none ∧ s'.output.mapType? "y" = some "app/Kept" ∧
        ∀ x p, s'.output.mapType? x = some p → ¬ StartsIn settings.excludedPackages p := by
  intro old new names settings s
  have marked : ∀ b ∈ settings.excludedPackages, '$' ∉ b.toList := by decide
  have leftOut : names.LeavesOut settings.excludedPackages "a" :=
    (names.isExcluded_iff settings.excludedPackages).mp (by decide +kernel)
  have invertible : s.context.names.Invertible :=
    (((MappingSet.Invertible.empty.addType "a" "lib/Known").addType "b" "app/Kept").addMethod
      "a" "speak" "()V" "open").excludingPackages settings.excludedPackages
  have round :
      let l := (s.afterCalls (.seed :: Pass.all.map .pass)).state.ledger
      l.types.target? (.real ⟨0⟩) = some ⟨0⟩ ∧ l.types.target? (.real ⟨1⟩) = some ⟨1⟩ := by
    decide +kernel
  obtain ⟨log, s', merged, types, -, -, members⟩ :=
    merge_leaves_out_packages old names new settings marked
  obtain ⟨_, _, again, extends_⟩ :=
    merge_extends_round (s := s) rfl (reachable_start old names new ∅ settings)
  cases merged.symm.trans again
  have validOld : old.validate = .ok () := rfl
  have validNew : new.validate = .ok () := rfl
  have coherent : s.context.Coherent := coherent_of_validate validOld validNew names settings
  obtain ⟨_, _, again, lawful, chronicle, latest, output⟩ :=
    merge_chronicle coherent rfl (rfl : s.steps = defaultSteps)
      (start_lawful old names new ∅ settings (.inside coherent.new))
  cases merged.symm.trans again
  have ended := chronicle.lawful coherent.old lawful
  rw [← latest] at ended
  rw [output_afterCall] at output
  have first := extends_.types _ _ round.1
  have second := extends_.types _ _ round.2
  have kept : s'.output.mapType? "y" = some "app/Kept" := by
    have plain : s.context.names.mapType? "b" = some "app/Kept" := by decide +kernel
    rw [output]
    exact mapType?_project_of_confirmed validNew ended validOld invertible second plain (by decide)
  have gone : s'.output.mapType? "x" = none := by
    have filtered : s.context.names.mapType? "a" = none := by decide +kernel
    rw [output, Option.eq_none_iff_forall_ne_some]
    intro p named
    rcases mapType?_project_cases ended.types.sound named with
      before | ⟨k, ⟨n⟩, confirmed, called, told⟩ | ⟨-, anonymous, -⟩
    · cases before
    · obtain rfl : n = 0 := by
        match n with
        | 0 => rfl
        | 1 => exact absurd called (by decide)
        | n + 2 => exact absurd called (by decide : "" ≠ "x")
      obtain rfl := ended.types.sound.target?_injective confirmed first
      cases filtered.symm.trans told
    · exact absurd anonymous (by decide +kernel)
  exact ⟨marked, leftOut, by decide +kernel, (members "a" leftOut).2 "speak" "()V", log, s', merged,
    first, second, gone, kept, types⟩

end Session

end Namesake
