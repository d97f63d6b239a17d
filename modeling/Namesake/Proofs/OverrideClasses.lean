import Namesake.Proofs.Descriptors
import Namesake.Proofs.OverridePartition

/-! # Which methods share an override group

Where no generic parameters are in play, methods are in one group exactly if a chain of finds
connects them: the search below a method finds the first method with its name and parameters on each
type below (`OverrideGroups.together_build_iff`). So a method is grouped with an exact override that
comes first on its type (`OverrideGroups.exact_overrides_grouped`), but not always with one that
comes later (`OverrideGroups.exact_override_missed`). If no type declares two methods that only
differ in their results, the groups are the classes of methods with the same name and parameters
that are connected along the hierarchy (`OverrideGroups.groups_are_override_classes`).
-/

namespace Namesake

variable {p : Program} {a b c id m m' : MethodId}

/-! ## Finds -/

namespace Program

/-- Whether a method is the first with the name and the parameters of another on a type below. -/
structure FindsBelow (p : Program) (a b : MethodId) : Prop where
  inside : p.IsInstanceMethod a
  dispatched : ¬ p.IsInitializer a
  found : ∃ t, t ≠ (p.method a).owner ∧
    Relation.ReflTransGen p.IsDirectSubtype (p.method a).owner t ∧
    p.firstMethod? (p.method a).name (p.method a).signature.params t = some b

/-- A method on the same type with the same name and parameters finds the same. -/
theorem FindsBelow.of_alike (finds : p.FindsBelow a b) (inside : p.IsInstanceMethod c)
    (owned : (p.method c).owner = (p.method a).owner)
    (named : (p.method c).name = (p.method a).name)
    (fits : (p.method c).signature.params = (p.method a).signature.params) : p.FindsBelow c b := by
  refine ⟨inside, ?_, ?_⟩
  · rw [IsInitializer, named]
    exact finds.dispatched
  · rw [owned, named, fits]
    exact finds.found

namespace Coherent

variable (coherent : p.Coherent)

include coherent

/-- What is found is an instance method with the name and the parameters. -/
theorem of_findsBelow (finds : p.FindsBelow a b) : p.IsInstanceMethod b ∧
    (p.method b).name = (p.method a).name ∧
    (p.method b).signature.params = (p.method a).signature.params := by
  obtain ⟨t, -, -, first⟩ := finds.found
  obtain ⟨inside, -, fits⟩ := coherent.of_firstMethod? first
  exact ⟨inside, fits⟩

/-- What is found below a find is found as well, unless it is the first on the type where the search
began. -/
theorem findsBelow_of_find (above : p.FindsBelow a b) (finds : p.FindsBelow b c) :
    p.FindsBelow a c ∨ p.firstMethod? (p.method a).name (p.method a).signature.params
      (p.method a).owner = some c := by
  obtain ⟨t, away, path, first⟩ := above.found
  obtain ⟨-, rfl, named, fits⟩ := coherent.of_firstMethod? first
  obtain ⟨u, -, further, first'⟩ := finds.found
  rw [named, fits] at first'
  by_cases back : u = (p.method a).owner
  · subst back
    exact .inr first'
  · exact .inl ⟨above.inside, above.dispatched, u, back, path.trans further, first'⟩

/-- The overrides of a method are what is found below it. -/
theorem findsBelow_iff (inside : p.IsInstanceMethod a) (plain : p.IsPlain (p.method a).name) :
    p.FindsBelow a b ↔ b ∈ p.overrides p.subtypes (p.method a).owner a := by
  constructor
  · intro finds
    exact (coherent.mem_overrides_iff inside finds.dispatched plain).mpr finds.found
  · intro member
    obtain ⟨-, -, dispatched⟩ := coherent.of_mem_overrides member
    exact ⟨inside, dispatched, (coherent.mem_overrides_iff inside dispatched plain).mp member⟩

end Coherent

/-- The first method on a type like one of its methods is this method, or comes before it. -/
theorem eq_or_mem_of_firstMethod? {t : TypeId} {before after : List MethodId}
    (list : p.instanceMethods t = before ++ m :: after)
    (first : p.firstMethod? (p.method m).name (p.method m).signature.params t = some b) :
    b = m ∨ b ∈ before := by
  rw [firstMethod?, list, List.find?_append] at first
  cases earlier : before.find? fun m' =>
      (p.method m').name = (p.method m).name &&
        (p.method m').signature.params = (p.method m).signature.params with
  | none =>
      rw [earlier, Option.none_or, List.find?_cons_of_pos (by simp)] at first
      exact .inl (Option.some.inj first).symm
  | some found =>
      rw [earlier, Option.some_or] at first
      obtain rfl := Option.some.inj first
      exact .inr (List.mem_of_find?_eq_some earlier)

end Program

/-! ## Finds and groups -/

namespace OverrideGroups

variable {g g' : OverrideGroups} {name : String} {params : List TypeSig}

/-- Methods with a name and parameters that have a group share it with what is found below them. -/
def HasFinds (p : Program) (name : String) (params : List TypeSig) (g : OverrideGroups) : Prop :=
  ∀ a b, g.IsGrouped a → (p.method a).name = name → (p.method a).signature.params = params →
    p.FindsBelow a b → g.Together a b

/-- A discovery gathers what is found below the methods it gathers. -/
theorem Discovery.hasFinds (coherent : p.Coherent) (plain : p.IsPlain name) {owner : TypeId}
    (known : HasFinds p name params g) (discovery : Discovery p g owner id g') :
    HasFinds p name params g' := by
  obtain ⟨inside, rfl⟩ := coherent.mem_instanceMethods_iff.mp discovery.listed
  have kept : ∀ {a b}, g.Together a b → g'.Together a b := fun together =>
    (discovery.gathers.together_iff discovery.inStep).mpr (.inl together)
  intro a b grouped named fits finds
  rcases discovery.gathers.isGrouped_iff.mp grouped with before | rfl | member
  · exact kept (known a b before named fits finds)
  · have member := (coherent.findsBelow_iff inside (named ▸ plain)).mp finds
    exact discovery.gathers.together (.inl rfl) (.inr member)
  · have named' := (coherent.of_mem_overrides member).2.1.symm.trans named
    have above := (coherent.findsBelow_iff inside (named'.symm ▸ plain)).mpr member
    have fits' := (coherent.of_findsBelow above).2.2.symm.trans fits
    rcases coherent.findsBelow_of_find above finds with found | first
    · have member' := (coherent.findsBelow_iff inside (named'.symm ▸ plain)).mp found
      exact discovery.gathers.together (.inr member) (.inr member')
    · -- along a cycle the search came back to the type where it began
      obtain ⟨before, after, list, listed⟩ := discovery.next
      rcases Program.eq_or_mem_of_firstMethod? list first with rfl | earlier
      · exact (discovery.gathers.together (.inl rfl) (.inr member)).symm
      · -- the first method there had a group before, which has what is found below
        obtain ⟨inside', owned, alike, alike'⟩ := coherent.of_firstMethod? first
        have finds' := above.of_alike inside' owned alike alike'
        have together :=
          known b a (listed b earlier) (alike.trans named') (alike'.trans fits') finds'
        exact kept together.symm

/-- **A method is in a group with whatever is found below it.** -/
theorem together_of_findsBelow (coherent : p.Coherent) (plain : p.IsPlain (p.method a).name)
    (finds : p.FindsBelow a b) : (build p).Together a b := by
  have all : HasFinds p (p.method a).name (p.method a).signature.params (build p) := by
    apply build_induction
    · exact fun known discovery => discovery.hasFinds coherent plain known
    · rintro a b ⟨n, found⟩
      cases found
  exact all a b ((isGrouped_build_iff coherent).mpr finds.inside) rfl rfl finds

/-- Being in one group is an equivalence, once a method without group counts alone. -/
theorem equivalence_together (g : OverrideGroups) :
    Equivalence fun a b => a = b ∨ g.Together a b where
  refl a := .inl rfl
  symm := by
    rintro a b (rfl | together)
    · exact .inl rfl
    · exact .inr together.symm
  trans := by
    rintro a b c (rfl | together) further
    · exact further
    · rcases further with rfl | together'
      · exact .inr together
      · exact .inr (together.trans together')

/-- An equivalence on the methods of one name, with all other methods told apart by name only. -/
theorem equivalence_named {rel : MethodId → MethodId → Prop} (equivalence : Equivalence rel)
    (p : Program) (name : String) : Equivalence fun a b =>
      (p.method a).name = (p.method b).name ∧ ((p.method a).name = name → rel a b) where
  refl a := ⟨rfl, fun _ => equivalence.refl a⟩
  symm := by
    rintro a b ⟨same, related⟩
    exact ⟨same.symm, fun named => equivalence.symm (related (same.trans named))⟩
  trans := by
    rintro a b c ⟨same, related⟩ ⟨same', related'⟩
    exact ⟨same.trans same', fun named =>
      equivalence.trans (related named) (related' (same.symm.trans named))⟩

/-- **Methods are in one group exactly if a chain of finds connects them.** -/
theorem together_build_iff (coherent : p.Coherent) (inside : p.IsInstanceMethod a)
    (plain : p.IsPlain (p.method a).name) :
    (build p).Together a b ↔ Relation.EqvGen p.FindsBelow a b := by
  constructor
  · intro together
    have chains := Relation.EqvGen.is_equivalence p.FindsBelow
    refine (respects_build (equivalence_named chains p (p.method a).name) ?_ together).2 rfl
    intro t _ m listed o member
    obtain ⟨inside, rfl⟩ := coherent.mem_instanceMethods_iff.mp listed
    refine ⟨(coherent.of_mem_overrides member).2.1.symm, ?_⟩
    intro named
    exact .rel m o ((coherent.findsBelow_iff inside (named ▸ plain)).mpr member)
  · intro chain
    have linked := equivalence_named (equivalence_together (build p)) p (p.method a).name
    have found : ∀ m o, p.FindsBelow m o → (p.method m).name = (p.method o).name ∧
        ((p.method m).name = (p.method a).name → m = o ∨ (build p).Together m o) := by
      intro m o finds
      refine ⟨(coherent.of_findsBelow finds).2.1.symm, ?_⟩
      intro named
      exact .inr (together_of_findsBelow coherent (named ▸ plain) finds)
    rcases (linked.eqvGen_iff.mp (Relation.EqvGen.mono found a b chain)).2 rfl with rfl | together
    · exact ((isGrouped_build_iff coherent).mpr inside).together
    · exact together

end OverrideGroups

/-! ## Signatures read from descriptors -/

namespace Program

/-- Where every signature is read from its descriptor, no method is generic. -/
theorem isPlain_of_read (read : ∀ m, p.HasMethod m →
    MethodSignature.ofDescriptor (p.method m).descriptor = .ok (p.method m).signature)
    (name : String) : p.IsPlain name where
  concrete {m} inside _ v listed := by
    have spelled := read m inside.1
    unfold MethodSignature.ofDescriptor at spelled
    split at spelled
    · next s found =>
      obtain rfl := Except.ok.inj spelled
      exact (MethodSignature.eq_of_ofDescriptor? found).2.1 _ listed
    · cases spelled
  spelled {m m'} inside inside' _ _ worded := by
    have same := (read m inside.1).symm.trans (worded ▸ read m' inside'.1)
    rw [Except.ok.inj same]

theorem read_ring (m : MethodId) (inside : ring.HasMethod m) :
    MethodSignature.ofDescriptor (ring.method m).descriptor = .ok (ring.method m).signature := by
  have void : isPrimitiveCode 'V' = true := by decide
  have spelled : MethodSignature.IsSpelled ⟨[], .primitive 'V'⟩ :=
    ⟨fun _ member => (nomatch member), void, fun _ member => (nomatch member)⟩
  have unit : MethodSignature.ofDescriptor "()V" = .ok ⟨[], .primitive 'V'⟩ := by
    have read := MethodSignature.ofDescriptor?_descriptor spelled
    rw [MethodSignature.ofDescriptor, show "()V" = MethodSignature.descriptor ⟨[], .primitive 'V'⟩
      from rfl, read]
  obtain ⟨_ | _ | _ | i⟩ := m
  · exact unit
  · exact unit
  · exact unit
  · exact absurd inside (by simp [HasMethod, ring])

end Program

/-! ## Exact overrides -/

namespace OverrideGroups

/-- **An exact override shares the group of what it overrides if a chain of finds connects them**,
and only then. One that is the first of its type with the name and the parameters is found. -/
theorem exact_overrides_grouped (valid : p.validate = .ok ()) (inside : p.IsInstanceMethod m)
    (inside' : p.IsInstanceMethod m') (dispatched : ¬ p.IsInitializer m)
    (named : (p.method m').name = (p.method m).name)
    (worded : (p.method m').descriptor = (p.method m).descriptor)
    (below : Relation.TransGen p.IsDirectSubtype (p.method m).owner (p.method m').owner)
    (plain : p.IsPlain (p.method m).name) :
    ((build p).group? m = (build p).group? m' ↔ Relation.EqvGen p.FindsBelow m m') ∧
    ((p.method m').owner ≠ (p.method m).owner →
      p.firstMethod? (p.method m').name (p.method m').signature.params (p.method m').owner =
        some m' → (build p).group? m = (build p).group? m') := by
  have coherent := Program.coherent_of_validate valid
  have grouped := (isGrouped_build_iff coherent).mpr inside
  have shared : (build p).group? m = (build p).group? m' ↔ Relation.EqvGen p.FindsBelow m m' :=
    ((inStep_build p).group?_eq_iff grouped).trans (together_build_iff coherent inside plain)
  refine ⟨shared, ?_⟩
  intro elsewhere first
  have fits := plain.spelled inside' inside named rfl worded
  rw [named, fits] at first
  exact shared.mpr (.rel m m' ⟨inside, dispatched, _, elsewhere, below.to_reflTransGen, first⟩)

/-- Two classes that extend each other have their methods of one name and descriptor in one
group. -/
theorem exact_overrides_grouped_of_ring : Program.ring.validate = .ok () ∧
    Relation.TransGen Program.ring.IsDirectSubtype ⟨0⟩ ⟨1⟩ ∧ Program.ring.IsPlain "run" ∧
    Program.ring.firstMethod? "run" [] ⟨1⟩ = some ⟨2⟩ ∧
    (build Program.ring).group? ⟨1⟩ = (build Program.ring).group? ⟨2⟩ := by
  have below : Relation.TransGen Program.ring.IsDirectSubtype ⟨0⟩ ⟨1⟩ := .single (by decide)
  have plain := Program.isPlain_of_read Program.read_ring "run"
  have first : Program.ring.firstMethod? "run" [] ⟨1⟩ = some ⟨2⟩ := by decide
  have inside : Program.ring.IsInstanceMethod ⟨1⟩ := by decide
  have inside' : Program.ring.IsInstanceMethod ⟨2⟩ := by decide
  have shared := exact_overrides_grouped Program.validate_ring inside inside' (by decide) rfl rfl
    below plain
  exact ⟨Program.validate_ring, below, plain, first, shared.2 (by decide) first⟩

/-! ### An exact override that is missed -/

/-- A class with a method that copies it, and a subclass whose copies are of its own type. The
bridge to the method of the superclass comes after the copy it leads to. -/
def bridged : Program where
  types := [{ name := "a", kind := .plain, superclass := none, interfaces := [],
              signature := none, enumConstants := [], methods := [⟨0⟩], fields := [] },
            { name := "b", kind := .plain, superclass := some "a", interfaces := [],
              signature := none, enumConstants := [], methods := [⟨1⟩, ⟨2⟩], fields := [] }]
  methods := [{ name := "copy", descriptor := "()La;", isStatic := false, isSynthetic := false,
                signature := ⟨[], .class "a" []⟩, body := none, owner := ⟨0⟩ },
              { name := "copy", descriptor := "()Lb;", isStatic := false, isSynthetic := false,
                signature := ⟨[], .class "b" []⟩, body := none, owner := ⟨1⟩ },
              { name := "copy", descriptor := "()La;", isStatic := false, isSynthetic := true,
                signature := ⟨[], .class "a" []⟩, body := none, owner := ⟨1⟩ }]
  fields := []
  byName := .ofList [("a", ⟨0⟩), ("b", ⟨1⟩)]

theorem validate_bridged : bridged.validate = .ok () := rfl

/-- The bridge is not found from above, since the copy of its type comes first, and there is nothing
below it. -/
theorem bridge_apart (finds : bridged.FindsBelow a b) : a = ⟨2⟩ ↔ b = ⟨2⟩ := by
  obtain ⟨t, away, path, first⟩ := finds.found
  have never : b ≠ ⟨2⟩ := by
    rintro rfl
    have coherent := Program.coherent_of_validate validate_bridged
    obtain ⟨-, rfl, named, fits⟩ := coherent.of_firstMethod? first
    rw [← named, ← fits] at first
    exact absurd first (by decide)
  have nothing : a ≠ ⟨2⟩ := by
    rintro rfl
    have lowest : ∀ i < 2, ¬ bridged.IsDirectSubtype ⟨1⟩ ⟨i⟩ := by decide
    rcases path.cases_head with same | ⟨u, below, -⟩
    · exact away same.symm
    · exact lowest u.index below.hasType below
  exact ⟨fun here => (nothing here).elim, fun here => (never here).elim⟩

/-- **An exact override that comes after a method with the same parameters can be missed.** -/
theorem exact_override_missed : bridged.validate = .ok () ∧
    bridged.IsInstanceMethod ⟨0⟩ ∧ bridged.IsInstanceMethod ⟨2⟩ ∧
    ¬ bridged.IsInitializer ⟨0⟩ ∧ ¬ bridged.IsInitializer ⟨2⟩ ∧
    (bridged.method ⟨2⟩).name = (bridged.method ⟨0⟩).name ∧
    (bridged.method ⟨2⟩).descriptor = (bridged.method ⟨0⟩).descriptor ∧
    Relation.TransGen bridged.IsDirectSubtype (bridged.method ⟨0⟩).owner
      (bridged.method ⟨2⟩).owner ∧
    (build bridged).group? ⟨0⟩ ≠ (build bridged).group? ⟨2⟩ := by
  have coherent := Program.coherent_of_validate validate_bridged
  have inside : bridged.IsInstanceMethod ⟨0⟩ := by decide
  refine ⟨rfl, inside, by decide, by decide, by decide, rfl, rfl, .single (by decide), ?_⟩
  have bare : ∀ i < 3, (bridged.method ⟨i⟩).signature.params = [] := by decide
  have plain : bridged.IsPlain "copy" := by
    constructor
    · intro m inside _ v listed
      rw [bare m.index inside.1] at listed
      cases listed
    · intro m m' inside inside' _ _ _
      rw [bare m.index inside.1, bare m'.index inside'.1]
  rw [Ne, (inStep_build bridged).group?_eq_iff ((isGrouped_build_iff coherent).mpr inside),
    together_build_iff coherent inside plain]
  intro chain
  have apart : Equivalence fun a b : MethodId => a = ⟨2⟩ ↔ b = ⟨2⟩ :=
    ⟨fun _ => Iff.rfl, Iff.symm, Iff.trans⟩
  have linked := apart.eqvGen_iff.mp (Relation.EqvGen.mono (fun a b => bridge_apart) _ _ chain)
  exact absurd linked (by decide)

end OverrideGroups

/-! ## Overrides with the same parameters -/

theorem OverrideGroup.of_overrideOn? {group : OverrideGroup} {t : TypeId}
    (found : group.overrideOn? p t = some m) : m ∈ group.members ∧ (p.method m).owner = t := by
  have owned := List.find?_some found
  exact ⟨List.mem_of_find?_eq_some found, of_decide_eq_true owned⟩

namespace Program

/-- Whether two methods that dispatch could reach have the same name and parameters, and one is on a
type that can be reached from that of the other along direct subtypes. -/
structure Overrides (p : Program) (a b : MethodId) : Prop where
  inside : p.IsInstanceMethod a
  inside' : p.IsInstanceMethod b
  dispatched : ¬ p.IsInitializer a
  named : (p.method b).name = (p.method a).name
  fits : (p.method b).signature.params = (p.method a).signature.params
  below : Relation.ReflTransGen p.IsDirectSubtype (p.method a).owner (p.method b).owner

/-- No type declares two instance methods with the same name and parameters. -/
def TellsByParams (p : Program) : Prop :=
  ∀ a b, p.IsInstanceMethod a → p.IsInstanceMethod b → (p.method a).owner = (p.method b).owner →
    (p.method a).name = (p.method b).name →
    (p.method a).signature.params = (p.method b).signature.params → a = b

namespace Coherent

variable (coherent : p.Coherent)

include coherent

theorem overrides_of_findsBelow (finds : p.FindsBelow a b) : p.Overrides a b := by
  obtain ⟨t, -, path, first⟩ := finds.found
  obtain ⟨inside', rfl, named, fits⟩ := coherent.of_firstMethod? first
  exact ⟨finds.inside, inside', finds.dispatched, named, fits, path⟩

/-- Where parameters tell the methods of a type apart, each is the first that has them. -/
theorem firstMethod?_eq (distinct : p.TellsByParams) (inside : p.IsInstanceMethod m) :
    p.firstMethod? (p.method m).name (p.method m).signature.params (p.method m).owner = some m := by
  have listed := coherent.mem_instanceMethods_iff.mpr ⟨inside, rfl⟩
  have present : (p.firstMethod? (p.method m).name (p.method m).signature.params
      (p.method m).owner).isSome = true :=
    List.find?_isSome.mpr ⟨m, listed, by simp⟩
  obtain ⟨first, found⟩ := Option.isSome_iff_exists.mp present
  obtain ⟨inside', owned, named, fits⟩ := coherent.of_firstMethod? found
  rw [found, distinct first m inside' inside owned named fits]

/-- Then an override is found, unless it is the method itself. -/
theorem findsBelow_of_overrides (distinct : p.TellsByParams) (overrides : p.Overrides a b) :
    a = b ∨ p.FindsBelow a b := by
  by_cases same : (p.method b).owner = (p.method a).owner
  · exact .inl (distinct b a overrides.inside' overrides.inside same overrides.named
      overrides.fits).symm
  · have first := coherent.firstMethod?_eq distinct overrides.inside'
    rw [overrides.named, overrides.fits] at first
    exact .inr ⟨overrides.inside, overrides.dispatched, _, same, overrides.below, first⟩

end Coherent

/-- Methods that a chain of overrides connects have the same name and parameters. -/
theorem alike_of_eqvGen (chain : Relation.EqvGen p.Overrides a b) :
    (p.method a).name = (p.method b).name ∧
      (p.method a).signature.params = (p.method b).signature.params := by
  induction chain with
  | rel a b overrides => exact ⟨overrides.named.symm, overrides.fits.symm⟩
  | refl a => exact ⟨rfl, rfl⟩
  | symm a b _ ih => exact ⟨ih.1.symm, ih.2.symm⟩
  | trans a b c _ _ ih ih' => exact ⟨ih.1.trans ih'.1, ih.2.trans ih'.2⟩

end Program

namespace OverrideGroups

/-- Where parameters tell the methods of a type apart, methods are in one group exactly if a chain
of overrides connects them. -/
theorem together_build_iff_overrides (coherent : p.Coherent) (plain : ∀ name, p.IsPlain name)
    (distinct : p.TellsByParams) (inside : p.IsInstanceMethod a) :
    (build p).Together a b ↔ Relation.EqvGen p.Overrides a b := by
  have grouped := (isGrouped_build_iff coherent).mpr inside
  constructor
  · intro together
    have chain := (together_build_iff coherent inside (plain _)).mp together
    exact Relation.EqvGen.mono (fun a b => coherent.overrides_of_findsBelow) a b chain
  · intro chain
    have linked : ∀ m o, p.Overrides m o → m = o ∨ (build p).Together m o := by
      intro m o overrides
      exact (coherent.findsBelow_of_overrides distinct overrides).imp_right
        (together_of_findsBelow coherent (plain _))
    rcases (equivalence_together (build p)).eqvGen_iff.mp
      (Relation.EqvGen.mono linked a b chain) with rfl | together
    · exact grouped.together
    · exact together

/-- **The groups are the classes of overrides**, if every signature is read from its descriptor and
no type declares two instance methods with the same name and parameters. A group has at most one
member on a type, and finds it there. -/
theorem groups_are_override_classes (valid : p.validate = .ok ())
    (read : ∀ m, p.HasMethod m →
      MethodSignature.ofDescriptor (p.method m).descriptor = .ok (p.method m).signature)
    (distinct : p.TellsByParams) :
    (∀ m m', p.IsInstanceMethod m → p.IsInstanceMethod m' → ¬ p.IsInitializer m →
      ¬ p.IsInitializer m' →
      ((build p).group? m = (build p).group? m' ↔ Relation.EqvGen p.Overrides m m')) ∧
    (∀ group ∈ (build p).groups, ∀ m ∈ group.members, ∀ m' ∈ group.members,
      (p.method m).owner = (p.method m').owner → m = m') ∧
    ∀ group ∈ (build p).groups, ∀ t m,
      group.overrideOn? p t = some m ↔ m ∈ group.members ∧ (p.method m).owner = t := by
  have coherent := Program.coherent_of_validate valid
  have plain := Program.isPlain_of_read read
  have inStep := inStep_build p
  have sole : ∀ group ∈ (build p).groups, ∀ m ∈ group.members, ∀ m' ∈ group.members,
      (p.method m).owner = (p.method m').owner → m = m' := by
    intro group listed m member m' member' owned
    have together := (inStep.mem_group?_iff
      (inStep.group?_eq_some_iff.mpr ⟨listed, member⟩)).mp member'
    have inside := (isGrouped_build_iff coherent).mp together.left
    have inside' := (isGrouped_build_iff coherent).mp together.right
    have chain := (together_build_iff_overrides coherent plain distinct inside).mp together
    obtain ⟨named, fits⟩ := Program.alike_of_eqvGen chain
    exact distinct m m' inside inside' owned named fits
  refine ⟨?classes, sole, ?override⟩
  case classes =>
    intro m m' inside _ _ _
    rw [inStep.group?_eq_iff ((isGrouped_build_iff coherent).mpr inside),
      together_build_iff_overrides coherent plain distinct inside]
  case override =>
    intro group listed t m
    constructor
    · exact OverrideGroup.of_overrideOn?
    · rintro ⟨member, rfl⟩
      have present : (group.overrideOn? p (p.method m).owner).isSome = true :=
        List.find?_isSome.mpr ⟨m, member, decide_eq_true rfl⟩
      obtain ⟨m', found⟩ := Option.isSome_iff_exists.mp present
      obtain ⟨member', owned⟩ := OverrideGroup.of_overrideOn? found
      rw [found, sole group listed m' member' m member owned]

/-- Two classes that extend each other have their overrides in one group, which finds the one of the
second class there. -/
theorem groups_are_override_classes_of_ring : Program.ring.validate = .ok () ∧
    Program.ring.TellsByParams ∧ Program.ring.Overrides ⟨1⟩ ⟨2⟩ ∧
    ∃ group, (build Program.ring).group? ⟨1⟩ = some group ∧
      (build Program.ring).group? ⟨2⟩ = some group ∧
      group.overrideOn? Program.ring ⟨1⟩ = some ⟨2⟩ := by
  have distinct : Program.ring.TellsByParams := by
    have all : ∀ i < 3, ∀ j < 3, (Program.ring.method ⟨i⟩).owner = (Program.ring.method ⟨j⟩).owner →
        (Program.ring.method ⟨i⟩).name = (Program.ring.method ⟨j⟩).name → i = j := by decide
    intro a b inside inside' owned named _
    exact congrArg MethodId.mk (all a.index inside.1 b.index inside'.1 owned named)
  have overrides : Program.ring.Overrides ⟨1⟩ ⟨2⟩ :=
    ⟨by decide, by decide, by decide, rfl, rfl, .single (by decide)⟩
  obtain ⟨classes, -, override⟩ :=
    groups_are_override_classes Program.validate_ring Program.read_ring distinct
  have same := (classes ⟨1⟩ ⟨2⟩ overrides.inside overrides.inside' overrides.dispatched
    (by decide)).mpr (.rel _ _ overrides)
  have coherent := Program.coherent_of_validate Program.validate_ring
  have grouped := (isGrouped_build_iff coherent).mpr overrides.inside'
  obtain ⟨group, found⟩ := Option.isSome_iff_exists.mp (isSome_group?_iff.mpr grouped)
  obtain ⟨listed, member⟩ := (inStep_build Program.ring).group?_eq_some_iff.mp found
  exact ⟨Program.validate_ring, distinct, overrides, group, same.trans found, found,
    (override group listed ⟨1⟩ ⟨2⟩).mpr ⟨member, rfl⟩⟩

end OverrideGroups

end Namesake
