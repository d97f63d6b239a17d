import Mathlib.Data.List.Permutation
import Namesake.Proofs.OverrideClasses

/-! # Overrides of generic methods

A class that passes type arguments to a generic supertype overrides its methods with the arguments
in place of the variables, wherever these occur in a parameter. The search for overrides puts an
argument only in place of a parameter that is a variable itself
(`Program.Binds.paramsSeenBy_eq`): a variable inside an array or a type argument stays, and
where the descriptors differ too, the override is missed (`OverrideGroups.array_override_missed`).

A search also looks at a type once, for what it was looking for when it came there first. Where it
comes by another supertype looking for something else (`Program.IsDiverted`), the override can be
missed as well (`OverrideGroups.diverted_override_missed`). Otherwise a method is in a group with
the method that overrides it (`OverrideGroups.generic_overrides_grouped`).
-/

namespace Namesake

/-! ## Substitution -/

section

variable (binding : String → Option TypeSig)

mutual

/-- A signature with what is bound in place of the variables. -/
def TypeSig.substitute : TypeSig → TypeSig
  | .primitive code => .primitive code
  | .class name args => .class name (TypeArg.substituteAll args)
  | .array element => .array element.substitute
  | .var name => (binding name).getD (.var name)

def TypeArg.substituteAll : List TypeArg → List TypeArg
  | [] => []
  | .mk w none :: rest => .mk w none :: TypeArg.substituteAll rest
  | .mk w (some sig) :: rest => .mk w (some sig.substitute) :: TypeArg.substituteAll rest

end

end

/-- What stands for the type parameters of a class, by position. -/
def ClassSignature.binding (s : ClassSignature) (args : List TypeSig) (name : String) :
    Option TypeSig :=
  s.typeParams.findIdx? (· = name) >>= (args[·]?)

/-- The type argument that is exactly a type. -/
def TypeArg.exactly (sig : TypeSig) : TypeArg := .mk .exact (some sig)

namespace Program

variable {p : Program} {root m s : MethodId}

/-- What a type binds the type parameters of a supertype to: its signature refers to the supertype
with exact type arguments. -/
def Binds (p : Program) (sub owner : TypeId) (binding : String → Option TypeSig) : Prop :=
  ∃ signature signature' name args, (p.type owner).signature = some signature ∧
    (p.type sub).signature = some signature' ∧
    signature'.supertypeRef? (p.type owner).name =
      some (.class name (args.map TypeArg.exactly)) ∧
    binding = signature.binding args

/-- **A subtype sees parameters with what it binds in place of the variables, as long as every
parameter is a variable or has none that is bound.** -/
theorem Binds.paramsSeenBy_eq {sub owner : TypeId} {binding : String → Option TypeSig}
    {params : List TypeSig} (binds : p.Binds sub owner binding)
    (shallow : ∀ param ∈ params, (∃ v, param = .var v) ∨ param.substitute binding = param) :
    p.paramsSeenBy sub owner params = params.map (TypeSig.substitute binding) := by
  obtain ⟨signature, signature', name, args, generic, passes, refers, rfl⟩ := binds
  have passed : p.argumentsFor? sub owner = some (args.map TypeArg.exactly) := by
    rw [argumentsFor?, passes]
    simp only [Option.bind_eq_bind, Option.bind_some, refers]
  rw [paramsSeenBy, passed, generic]
  apply List.map_congr_left
  intro param listed
  cases param with
  | var v =>
      have same : (signature.typeParams.findIdx? (· = v) >>=
          ((args.map TypeArg.exactly)[·]?) >>= TypeArg.sig) = signature.binding args v := by
        rw [ClassSignature.binding]
        cases signature.typeParams.findIdx? (· = v) with
        | none => rfl
        | some i =>
            simp only [Option.bind_eq_bind, Option.bind_some, List.getElem?_map]
            cases args[i]? with
            | none => rfl
            | some arg => rfl
      rw [TypeSig.substitute, ← same]
  | primitive | «class» | array =>
      refine ((shallow _ listed).resolve_left ?_).symm
      rintro ⟨v, impossible⟩
      cases impossible

/-- A method overrides one of a generic supertype: it is the only one of its name on a direct
subtype, and has the parameters with what the subtype binds in place of the variables. -/
structure Specializes (p : Program) (m s : MethodId) (binding : String → Option TypeSig) :
    Prop where
  inside : p.IsInstanceMethod m
  inside' : p.IsInstanceMethod s
  dispatched : ¬ p.IsInitializer m
  below : p.IsDirectSubtype (p.method m).owner (p.method s).owner
  binds : p.Binds (p.method s).owner (p.method m).owner binding
  named : (p.method s).name = (p.method m).name
  sole : ∀ r ∈ p.instanceMethods (p.method s).owner, (p.method r).name = (p.method m).name → r = s
  fits : (p.method s).signature.params =
    (p.method m).signature.params.map (TypeSig.substitute binding)

/-! ## What a search looks for -/

/-- The place of a method: its type, and what a search below it looks for. -/
def slotOf (p : Program) (m : MethodId) : Slot :=
  ⟨(p.method m).owner, (p.method m).descriptor, (p.method m).signature.params⟩

/-- What a search that is at a slot looks for on a subtype. -/
def slotOn (p : Program) (sub : TypeId) (above : Slot) : Slot :=
  ⟨sub, above.descriptor, p.paramsSeenBy sub above.type above.params⟩

/-- The slot a search goes on from: that of the method that fills it, if there is one. -/
def filled (p : Program) (name : String) (slot : Slot) : Slot :=
  match p.filling? name slot with
  | some m => ⟨slot.type, (p.method m).descriptor, (p.method m).signature.params⟩
  | none => slot

/-- The slots the search for overrides of a method may go on from. Which of them it does go on from
depends on the supertypes by which it comes to each type first. -/
inductive ComesTo (p : Program) (root : MethodId) : Slot → Prop
  | root : ComesTo p root (p.slotOf root)
  | down {above : Slot} {sub : TypeId} (come : ComesTo p root above)
      (next : p.IsDirectSubtype above.type sub) :
      ComesTo p root (p.filled (p.method root).name (p.slotOn sub above))

/-- Whether a search that may go on from a method may come to the type of a method below it by
another supertype, looking for something else than the method. -/
def IsDiverted (p : Program) (m s : MethodId) : Prop :=
  ∃ root above, p.IsInstanceMethod root ∧ (p.method root).name = (p.method m).name ∧
    p.ComesTo root (p.slotOf m) ∧ p.ComesTo root above ∧ above.type ≠ (p.method m).owner ∧
    p.IsDirectSubtype above.type (p.method s).owner ∧
    p.filling? (p.method m).name (p.slotOn (p.method s).owner above) ≠ some s

/-- Where a type has one supertype only, no search comes to it by another. -/
theorem not_isDiverted_of_sole
    (sole : ∀ t, p.IsDirectSubtype t (p.method s).owner → t = (p.method m).owner) :
    ¬ p.IsDiverted m s := by
  rintro ⟨root, above, -, -, -, -, other, below, -⟩
  exact other (sole _ below)

/-! ## What a search finds -/

/-- The slots a search goes on to from a slot. -/
def slotsUnder (p : Program) (slot : Slot) : List Slot :=
  p.slotsBelow p.subtypes slot.type slot.descriptor slot.params

section

variable {name : String} {visited : List TypeId} {stack : List Slot} {slot above : Slot}

theorem filled_of_some (found : p.filling? name slot = some m) :
    p.filled name slot =
      ⟨slot.type, (p.method m).descriptor, (p.method m).signature.params⟩ := by
  rw [filled, found]

theorem filled_of_none (found : p.filling? name slot = none) : p.filled name slot = slot := by
  rw [filled, found]

theorem type_filled : (p.filled name slot).type = slot.type := by
  cases found : p.filling? name slot with
  | some m => rw [filled_of_some found]
  | none => rw [filled_of_none found]

/-- A search at a new type takes what fills the slot there, and goes on from it. -/
theorem fillings_cons (fresh : slot.type ∈ p.typeIds ∧ slot.type ∉ visited) :
    p.fillings p.subtypes name visited (slot :: stack) = (p.filling? name slot).toList ++
      p.fillings p.subtypes name (slot.type :: visited)
        (p.slotsUnder (p.filled name slot) ++ stack) := by
  rw [fillings, dif_pos fresh]
  cases found : p.filling? name slot with
  | some m =>
      rw [filled_of_some found]
      rfl
  | none =>
      rw [filled_of_none found]
      rfl

/-- A search passes over a type where it was before. -/
theorem fillings_cons_of_stale (stale : ¬ (slot.type ∈ p.typeIds ∧ slot.type ∉ visited)) :
    p.fillings p.subtypes name visited (slot :: stack) =
      p.fillings p.subtypes name visited stack := by
  rw [fillings, dif_neg stale]

/-- What holds at the end of a search holds at its start, if it holds before every step after which
it holds. -/
theorem search_induction (name : String) {motive : List TypeId → List Slot → Prop}
    (done : ∀ visited, motive visited [])
    (step : ∀ visited slot stack, slot.type ∈ p.typeIds ∧ slot.type ∉ visited →
      motive (slot.type :: visited) (p.slotsUnder (p.filled name slot) ++ stack) →
      motive visited (slot :: stack))
    (skip : ∀ visited slot stack, ¬ (slot.type ∈ p.typeIds ∧ slot.type ∉ visited) →
      motive visited stack → motive visited (slot :: stack))
    (visited : List TypeId) (stack : List Slot) : motive visited stack := by
  fun_induction fillings p p.subtypes name visited stack with
  | case1 visited => exact done visited
  | case2 visited slot stack fresh m found ih =>
      apply step visited slot stack fresh
      rw [filled_of_some found]
      exact ih
  | case3 visited slot stack fresh found ih =>
      apply step visited slot stack fresh
      rw [filled_of_none found]
      exact ih
  | case4 visited slot stack stale ih => exact skip visited slot stack stale ih

/-- What is on the stack of a search for overrides of a method: slots that it may come to, and on
the type of a given override only such that have it. -/
structure LeadsTo (p : Program) (root s : MethodId) (stack : List Slot) : Prop where
  come : ∀ slot ∈ stack, p.ComesTo root (p.filled (p.method root).name slot)
  aim : ∀ slot ∈ stack, slot.type = (p.method s).owner →
    p.filling? (p.method root).name slot = some s

theorem leadsTo_nil : p.LeadsTo root s [] where
  come _ member := nomatch member
  aim _ member := nomatch member

theorem LeadsTo.append {stack' : List Slot} (leads : p.LeadsTo root s stack)
    (leads' : p.LeadsTo root s stack') : p.LeadsTo root s (stack ++ stack') where
  come := List.forall_mem_append.mpr ⟨leads.come, leads'.come⟩
  aim := List.forall_mem_append.mpr ⟨leads.aim, leads'.aim⟩

theorem LeadsTo.tail (leads : p.LeadsTo root s (slot :: stack)) : p.LeadsTo root s stack where
  come := (List.forall_mem_cons.mp leads.come).2
  aim := (List.forall_mem_cons.mp leads.aim).2

section

variable (coherent : p.Coherent)

include coherent

theorem Coherent.mem_slotsUnder :
    slot ∈ p.slotsUnder above ↔
      ∃ sub, p.IsDirectSubtype above.type sub ∧ slot = p.slotOn sub above := by
  rw [slotsUnder, slotsBelow, List.mem_map]
  simp only [coherent.mem_subtypes_iff]
  exact exists_congr fun sub => and_congr_right fun _ => eq_comm

/-- The method that fills a slot has the place the search goes on from. -/
theorem Coherent.filled_of_some (found : p.filling? name slot = some m) :
    p.filled name slot = p.slotOf m ∧ slot.type = (p.method m).owner := by
  have owned := (coherent.mem_instanceMethods_iff.mp (mem_of_filling? found).1).2
  rw [Program.filled_of_some found, slotOf, owned]
  exact ⟨rfl, rfl⟩

/-- A search goes on to slots that it may come to. -/
theorem Coherent.comesTo_of_mem_slotsUnder (come : p.ComesTo root above)
    (member : slot ∈ p.slotsUnder above) :
    p.ComesTo root (p.filled (p.method root).name slot) := by
  obtain ⟨sub, next, rfl⟩ := coherent.mem_slotsUnder.mp member
  exact come.down next

/-- The slots a search goes on to lead to an override if the one on its type has it. -/
theorem Coherent.leadsTo_slotsUnder (come : p.ComesTo root above)
    (aim : p.IsDirectSubtype above.type (p.method s).owner →
      p.filling? (p.method root).name (p.slotOn (p.method s).owner above) = some s) :
    p.LeadsTo root s (p.slotsUnder above) where
  come _ member := coherent.comesTo_of_mem_slotsUnder come member
  aim slot member here := by
    obtain ⟨sub, next, rfl⟩ := coherent.mem_slotsUnder.mp member
    obtain rfl : sub = (p.method s).owner := here
    exact aim next

/-- What is on the stack after a step is what the search may come to, if it was so before. -/
theorem Coherent.comesTo_of_step
    (come : ∀ slot' ∈ slot :: stack, p.ComesTo root (p.filled (p.method root).name slot')) :
    ∀ slot' ∈ p.slotsUnder (p.filled (p.method root).name slot) ++ stack,
      p.ComesTo root (p.filled (p.method root).name slot') := by
  obtain ⟨here, kept⟩ := List.forall_mem_cons.mp come
  rw [List.forall_mem_append]
  exact ⟨fun slot' below => coherent.comesTo_of_mem_slotsUnder here below, kept⟩

/-- What a search finds it finds at a new type, in a place it may come to. -/
theorem Coherent.comesTo_of_mem_fillings
    (come : ∀ slot ∈ stack, p.ComesTo root (p.filled (p.method root).name slot))
    (member : m ∈ p.fillings p.subtypes (p.method root).name visited stack) :
    p.ComesTo root (p.slotOf m) ∧ (p.method m).owner ∉ visited := by
  induction visited, stack using search_induction (p := p) (p.method root).name with
  | done visited =>
      rw [fillings] at member
      cases member
  | step visited slot stack fresh ih =>
      rw [fillings_cons fresh] at member
      rcases List.mem_append.mp member with here | later
      · obtain ⟨place, owned⟩ := coherent.filled_of_some (Option.mem_toList.mp here)
        refine ⟨place ▸ come slot List.mem_cons_self, ?_⟩
        rw [← owned]
        exact fresh.2
      · obtain ⟨reached, new⟩ := ih (coherent.comesTo_of_step come) later
        exact ⟨reached, fun before => new (List.mem_cons_of_mem _ before)⟩
  | skip visited slot stack stale ih =>
      rw [fillings_cons_of_stale stale] at member
      exact ih (fun slot' kept => come slot' (List.mem_cons_of_mem _ kept)) member

/-! ## Overrides that are found -/

section

variable (direct : ¬ p.IsDiverted m s) (inside : p.IsInstanceMethod root)
  (named : (p.method root).name = (p.method m).name) (reached : p.ComesTo root (p.slotOf m))

include direct inside named reached

/-- Where searches are not diverted, whatever they go on to from another type than that of the
method leads to the override. -/
theorem Coherent.leadsTo_elsewhere (come : p.ComesTo root above)
    (other : above.type ≠ (p.method m).owner) : p.LeadsTo root s (p.slotsUnder above) := by
  apply coherent.leadsTo_slotsUnder come
  intro below
  by_contra misses
  exact direct ⟨root, above, inside, named, reached, come, other, below, named ▸ misses⟩

/-- Once it was at the type of the method, a search that has the type of the override on its stack
finds the override. -/
theorem Coherent.mem_fillings_of_waiting (leads : p.LeadsTo root s stack)
    (passed : (p.method m).owner ∈ visited) (present : p.HasType (p.method s).owner)
    (new : (p.method s).owner ∉ visited)
    (waiting : ∃ slot ∈ stack, slot.type = (p.method s).owner) :
    s ∈ p.fillings p.subtypes (p.method root).name visited stack := by
  induction visited, stack using search_induction (p := p) (p.method root).name with
  | done visited =>
      obtain ⟨slot, impossible, -⟩ := waiting
      cases impossible
  | step visited slot stack fresh ih =>
      rw [fillings_cons fresh]
      by_cases here : slot.type = (p.method s).owner
      · rw [leads.aim slot List.mem_cons_self here]
        exact List.mem_cons_self
      · have other : (p.filled (p.method root).name slot).type ≠ (p.method m).owner := by
          rw [type_filled]
          intro back
          exact fresh.2 (back ▸ passed)
        have below := coherent.leadsTo_elsewhere direct inside named reached
          (leads.come slot List.mem_cons_self) other
        obtain ⟨slot', member, there⟩ := waiting
        have kept : slot' ∈ stack := by
          rcases List.mem_cons.mp member with rfl | kept
          · exact absurd there here
          · exact kept
        apply List.mem_append_right
        apply ih (below.append leads.tail) (List.mem_cons_of_mem _ passed)
        · rw [List.mem_cons, not_or]
          exact ⟨Ne.symm here, new⟩
        · exact ⟨slot', List.mem_append_right _ kept, there⟩
  | skip visited slot stack stale ih =>
      rw [fillings_cons_of_stale stale]
      obtain ⟨slot', member, there⟩ := waiting
      rcases List.mem_cons.mp member with rfl | kept
      · rw [there] at stale
        exact absurd ⟨mem_typeIds.mpr present, new⟩ stale
      · exact ih leads.tail passed new ⟨slot', kept, there⟩

variable (below : p.IsDirectSubtype (p.method m).owner (p.method s).owner)
  (fills : p.filling? (p.method m).name (p.slotOn (p.method s).owner (p.slotOf m)) = some s)

include below fills

/-- A search that goes on from the method finds the override. -/
theorem Coherent.mem_fillings_slotsUnder (leads : p.LeadsTo root s stack)
    (passed : (p.method m).owner ∈ visited) (new : (p.method s).owner ∉ visited) :
    s ∈ p.fillings p.subtypes (p.method root).name visited
      (p.slotsUnder (p.slotOf m) ++ stack) := by
  have under : p.LeadsTo root s (p.slotsUnder (p.slotOf m)) :=
    coherent.leadsTo_slotsUnder reached fun _ => named ▸ fills
  apply coherent.mem_fillings_of_waiting direct inside named reached (under.append leads) passed
    below.hasType new
  refine ⟨p.slotOn (p.method s).owner (p.slotOf m), List.mem_append_left _ ?_, rfl⟩
  exact coherent.mem_slotsUnder.mpr ⟨_, below, rfl⟩

/-- **A search that finds a method finds what overrides it.** -/
theorem Coherent.mem_fillings_of_mem (leads : p.LeadsTo root s stack)
    (new : (p.method s).owner ∉ visited)
    (member : m ∈ p.fillings p.subtypes (p.method root).name visited stack) :
    s ∈ p.fillings p.subtypes (p.method root).name visited stack := by
  induction visited, stack using search_induction (p := p) (p.method root).name with
  | done visited =>
      rw [fillings] at member
      cases member
  | step visited slot stack fresh ih =>
      have come := leads.come slot List.mem_cons_self
      rw [fillings_cons fresh] at member ⊢
      by_cases here : slot.type = (p.method s).owner
      · rw [leads.aim slot List.mem_cons_self here]
        exact List.mem_cons_self
      · have new' : (p.method s).owner ∉ slot.type :: visited := by
          rw [List.mem_cons, not_or]
          exact ⟨Ne.symm here, new⟩
        apply List.mem_append_right
        rcases List.mem_append.mp member with found | later
        · obtain ⟨place, owned⟩ := coherent.filled_of_some (Option.mem_toList.mp found)
          rw [place]
          have passed : (p.method m).owner ∈ slot.type :: visited := owned ▸ List.mem_cons_self
          exact coherent.mem_fillings_slotsUnder direct inside named reached below fills leads.tail
            passed new'
        · -- what is found later is on another type than this one
          have ahead := (coherent.comesTo_of_mem_fillings
            (coherent.comesTo_of_step leads.come) later).2
          have other : (p.filled (p.method root).name slot).type ≠ (p.method m).owner := by
            rw [type_filled]
            intro back
            exact ahead (back ▸ List.mem_cons_self)
          have elsewhere := coherent.leadsTo_elsewhere direct inside named reached come other
          exact ih (elsewhere.append leads.tail) new' later
  | skip visited slot stack stale ih =>
      rw [fillings_cons_of_stale stale] at member ⊢
      exact ih leads.tail new member

end

end

end

/-- The search for overrides starts from the place of the method. -/
theorem overrides_eq_fillings (dispatched : ¬ p.IsInitializer root) :
    p.overrides p.subtypes (p.method root).owner root =
      p.fillings p.subtypes (p.method root).name [(p.method root).owner]
        (p.slotsUnder (p.slotOf root)) := by
  rw [overrides, if_neg (mt isInitializer_iff.mp dispatched)]
  rfl

/-- The only method of a name on a type fills a slot that has its descriptor or its parameters. -/
theorem Coherent.filling?_of_sole (coherent : p.Coherent) {slot : Slot}
    (inside : p.IsInstanceMethod s) (here : slot.type = (p.method s).owner)
    (sole : ∀ r ∈ p.instanceMethods (p.method s).owner,
      (p.method r).name = (p.method s).name → r = s)
    (fits : (p.method s).descriptor = slot.descriptor ∨
      (p.method s).signature.params = slot.params) :
    p.filling? (p.method s).name slot = some s := by
  have listed : s ∈ p.instanceMethods slot.type :=
    coherent.mem_instanceMethods_iff.mpr ⟨inside, here.symm⟩
  have present : (p.filling? (p.method s).name slot).isSome = true :=
    List.find?_isSome.mpr ⟨s, listed, by simpa using fits⟩
  obtain ⟨r, found⟩ := Option.isSome_iff_exists.mp present
  obtain ⟨member, named⟩ := mem_of_filling? found
  rw [found, sole r (here ▸ member) named]

/-- A hierarchy along which a rank grows has no cycles. -/
theorem acyclic_of_rank (rank : TypeId → Nat)
    (grows : ∀ i < p.types.length, ∀ t ∈ p.supertypes ⟨i⟩, rank t < rank ⟨i⟩) (t : TypeId) :
    ¬ Relation.TransGen p.IsDirectSubtype t t := by
  intro cycle
  have up : ∀ t u, p.IsDirectSubtype t u → rank t < rank u :=
    fun t u below => grows u.index below.hasType t below
  have ranked : Relation.TransGen (· < ·) (rank t) (rank t) := cycle.lift rank up
  rw [Relation.transGen_eq_self] at ranked
  exact Nat.lt_irrefl _ ranked

end Program

/-! ## Groups -/

namespace OverrideGroups

variable {p : Program} {g g' : OverrideGroups} {m s id : MethodId}

/-- A discovery that gathers a method gathers what overrides it. -/
theorem Discovery.together_override (coherent : p.Coherent) {owner : TypeId}
    {binding : String → Option TypeSig} (specializes : p.Specializes m s binding)
    (fills : p.filling? (p.method m).name (p.slotOn (p.method s).owner (p.slotOf m)) = some s)
    (direct : ¬ p.IsDiverted m s) (known : g.IsGrouped m → g.Together m s)
    (discovery : Discovery p g owner id g') (grouped : g'.IsGrouped m) : g'.Together m s := by
  obtain ⟨inside, rfl⟩ := coherent.mem_instanceMethods_iff.mp discovery.listed
  have below := specializes.below
  rcases discovery.gathers.isGrouped_iff.mp grouped with before | rfl | member
  · exact (discovery.gathers.together_iff discovery.inStep).mpr (.inl (known before))
  · by_cases same : (p.method s).owner = (p.method m).owner
    · obtain rfl := specializes.sole m (same ▸ discovery.listed) rfl
      exact grouped.together
    · refine discovery.gathers.together (.inl rfl) (.inr ?_)
      have found := coherent.mem_fillings_slotsUnder direct inside rfl .root below fills
        Program.leadsTo_nil List.mem_cons_self (mt List.mem_singleton.mp same)
      rw [List.append_nil] at found
      rw [Program.overrides_eq_fillings specializes.dispatched]
      exact found
  · obtain ⟨-, named, dispatched⟩ := coherent.of_mem_overrides member
    refine discovery.gathers.together (.inr member) ?_
    by_cases same : (p.method s).owner = (p.method id).owner
    · exact .inl (specializes.sole id (same ▸ discovery.listed) named.symm).symm
    · right
      rw [Program.overrides_eq_fillings dispatched] at member ⊢
      have come : ∀ slot ∈ p.slotsUnder (p.slotOf id),
          p.ComesTo id (p.filled (p.method id).name slot) :=
        fun slot next => coherent.comesTo_of_mem_slotsUnder .root next
      obtain ⟨reached, new⟩ := coherent.comesTo_of_mem_fillings come member
      have other : (p.method id).owner ≠ (p.method m).owner :=
        fun back => new (List.mem_singleton.mpr back.symm)
      have leads := coherent.leadsTo_elsewhere direct inside named.symm reached .root other
      exact coherent.mem_fillings_of_mem direct inside named.symm reached below fills leads
        (mt List.mem_singleton.mp same) member

/-- **A method of a generic class is in a group with the method of a direct subtype that has its
parameters with the type arguments in place of the variables**, if the descriptors agree or every
parameter with a bound variable is this variable, and if no search is diverted. -/
theorem generic_overrides_grouped (valid : p.validate = .ok ())
    {binding : String → Option TypeSig} (specializes : p.Specializes m s binding)
    (shallow : (p.method s).descriptor = (p.method m).descriptor ∨
      ∀ param ∈ (p.method m).signature.params, (∃ v, param = .var v) ∨
        param.substitute binding = param)
    (direct : ¬ p.IsDiverted m s) : (build p).group? m = (build p).group? s := by
  have coherent := Program.coherent_of_validate valid
  have grouped := (isGrouped_build_iff coherent).mpr specializes.inside
  have fills : p.filling? (p.method m).name (p.slotOn (p.method s).owner (p.slotOf m)) =
      some s := by
    rw [← specializes.named]
    apply coherent.filling?_of_sole specializes.inside' rfl
    · rw [specializes.named]
      exact specializes.sole
    · refine shallow.imp_right fun shallow => ?_
      exact specializes.fits.trans (specializes.binds.paramsSeenBy_eq shallow).symm
  have all : (build p).IsGrouped m → (build p).Together m s := by
    refine build_induction (motive := fun g => g.IsGrouped m → g.Together m s) ?_ ?_
    · intro g owner id g' known discovery
      exact discovery.together_override coherent specializes fills direct known
    · rintro ⟨n, found⟩
      cases found
  exact ((inStep_build p).group?_eq_iff grouped).mpr (all grouped)

/-- A class `a` with a type parameter and a method, and a subclass `b` that passes it strings and
has a method of the same name. -/
def storing (stored stored' : TypeSig) (descriptor descriptor' : String) : Program where
  types := [{ name := "a", kind := .plain, superclass := none, interfaces := [],
              signature := some ⟨["T"], none, []⟩, enumConstants := [],
              methods := [⟨0⟩], fields := [] },
            { name := "b", kind := .plain, superclass := some "a", interfaces := [],
              signature :=
                some ⟨[], some (.class "a" [.exactly (.class "java/lang/String" [])]), []⟩,
              enumConstants := [], methods := [⟨1⟩], fields := [] }]
  methods := [{ name := "put", descriptor := descriptor, isStatic := false, isSynthetic := false,
                signature := ⟨[stored], .primitive 'V'⟩, body := none, owner := ⟨0⟩ },
              { name := "put", descriptor := descriptor', isStatic := false, isSynthetic := false,
                signature := ⟨[stored'], .primitive 'V'⟩, body := none, owner := ⟨1⟩ }]
  fields := []
  byName := .ofList [("a", ⟨0⟩), ("b", ⟨1⟩)]

/-- What stands for `T` where strings are passed for it. -/
def strings : String → Option TypeSig :=
  ClassSignature.binding ⟨["T"], none, []⟩ [.class "java/lang/String" []]

/-- The method of the subclass overrides the other if it has the parameter with strings for `T`. -/
theorem specializes_storing (stored : TypeSig) (descriptor descriptor' : String) :
    (storing stored (stored.substitute strings) descriptor descriptor').Specializes ⟨0⟩ ⟨1⟩
      strings where
  inside := ⟨Nat.zero_lt_two, rfl⟩
  inside' := ⟨Nat.one_lt_two, rfl⟩
  dispatched := by
    change ¬ ("put" = "<init>" ∨ "put" = "<clinit>")
    decide
  below := List.mem_singleton.mpr rfl
  binds := ⟨_, _, _, _, rfl, rfl, rfl, rfl⟩
  named := rfl
  sole _ listed _ := List.mem_singleton.mp listed
  fits := rfl

/-- A method that takes an argument is in a group with what it overrides, which takes the type
parameter. -/
theorem generic_overrides_grouped_of_string :
    let p := storing (.var "T") (.class "java/lang/String" []) "(Ljava/lang/Object;)V"
      "(Ljava/lang/String;)V"
    p.validate = .ok () ∧ p.Specializes ⟨0⟩ ⟨1⟩ strings ∧ ¬ p.IsDiverted ⟨0⟩ ⟨1⟩ ∧
      (build p).group? ⟨0⟩ = (build p).group? ⟨1⟩ := by
  intro p
  have specializes : p.Specializes ⟨0⟩ ⟨1⟩ strings := specializes_storing (.var "T") _ _
  have only : ∀ t ∈ p.supertypes ⟨1⟩, t = ⟨0⟩ := by decide
  have direct : ¬ p.IsDiverted ⟨0⟩ ⟨1⟩ := Program.not_isDiverted_of_sole only
  have shallow : ∀ param ∈ (p.method ⟨0⟩).signature.params, (∃ v, param = .var v) ∨
      param.substitute strings = param :=
    List.forall_mem_singleton.mpr (.inl ⟨"T", rfl⟩)
  exact ⟨rfl, specializes, direct,
    generic_overrides_grouped rfl specializes (.inr shallow) direct⟩

/-! ### Overrides that are missed -/

/-- Methods with different numbers are in different groups. -/
theorem InStep.group?_ne (inStep : g.InStep) {n n' : Nat} (first : g.groupOf.get? m = some n)
    (second : g.groupOf.get? s = some n') (apart : n ≠ n') : g.group? m ≠ g.group? s := by
  rw [Ne, inStep.group?_eq_iff ⟨n, first⟩]
  rintro ⟨k, left, right⟩
  apply apart
  exact Option.some.inj ((first.symm.trans left).trans (right.symm.trans second))

/-- **An override with the type argument inside an array is missed.** -/
theorem array_override_missed :
    let p := storing (.array (.var "T")) (.array (.class "java/lang/String" []))
      "([Ljava/lang/Object;)V" "([Ljava/lang/String;)V"
    p.validate = .ok () ∧ (∀ t, ¬ Relation.TransGen p.IsDirectSubtype t t) ∧
      p.Specializes ⟨0⟩ ⟨1⟩ strings ∧ (build p).group? ⟨0⟩ ≠ (build p).group? ⟨1⟩ := by
  intro p
  have acyclic := Program.acyclic_of_rank (p := p) TypeId.index (by decide)
  have first : (build p).groupOf.get? ⟨0⟩ = some 0 := by cbv
  have second : (build p).groupOf.get? ⟨1⟩ = some 1 := by cbv
  exact ⟨rfl, acyclic, specializes_storing (.array (.var "T")) _ _,
    (inStep_build p).group?_ne first second (by decide)⟩

/-- A class `c` with a type parameter and a method that it implements for `a`, and a subclass `b`
that passes strings to `c`, overrides the method and implements `a` too. -/
def detouring : Program where
  types := [{ name := "a", kind := .interface, superclass := none, interfaces := [],
              signature := none, enumConstants := [], methods := [⟨0⟩], fields := [] },
            { name := "b", kind := .plain, superclass := some "c", interfaces := ["a"],
              signature := some ⟨[], some (.class "c" [.exactly (.class "java/lang/String" [])]),
                [.class "a" []]⟩,
              enumConstants := [], methods := [⟨1⟩], fields := [] },
            { name := "c", kind := .plain, superclass := none, interfaces := ["a"],
              signature := some ⟨["T"], none, [.class "a" []]⟩, enumConstants := [],
              methods := [⟨2⟩], fields := [] }]
  methods := [{ name := "put", descriptor := "(Ljava/lang/Object;)V", isStatic := false,
                isSynthetic := false, signature := ⟨[.class "java/lang/Object" []], .primitive 'V'⟩,
                body := none, owner := ⟨0⟩ },
              { name := "put", descriptor := "(Ljava/lang/String;)V", isStatic := false,
                isSynthetic := false, signature := ⟨[.class "java/lang/String" []], .primitive 'V'⟩,
                body := none, owner := ⟨1⟩ },
              { name := "put", descriptor := "(Ljava/lang/Object;)V", isStatic := false,
                isSynthetic := false, signature := ⟨[.var "T"], .primitive 'V'⟩,
                body := none, owner := ⟨2⟩ }]
  fields := []
  byName := .ofList [("a", ⟨0⟩), ("b", ⟨1⟩), ("c", ⟨2⟩)]

/-- **An override to which the search comes by another supertype first is missed**, though its
parameter is the type argument. -/
theorem diverted_override_missed : detouring.validate = .ok () ∧
    (∀ t, ¬ Relation.TransGen detouring.IsDirectSubtype t t) ∧
    detouring.Specializes ⟨2⟩ ⟨1⟩ strings ∧
    (build detouring).group? ⟨2⟩ ≠ (build detouring).group? ⟨1⟩ := by
  have acyclic := Program.acyclic_of_rank (p := detouring)
    (fun t => if t = ⟨0⟩ then 0 else if t = ⟨2⟩ then 1 else 2) (by decide)
  have specializes : detouring.Specializes ⟨2⟩ ⟨1⟩ strings :=
    ⟨by decide, by decide, by decide, by decide, ⟨_, _, _, _, rfl, rfl, rfl, rfl⟩, rfl, by decide,
      rfl⟩
  have first : (build detouring).groupOf.get? ⟨2⟩ = some 0 := by cbv
  have second : (build detouring).groupOf.get? ⟨1⟩ = some 1 := by cbv
  exact ⟨rfl, acyclic, specializes, (inStep_build detouring).group?_ne first second (by decide)⟩

end OverrideGroups

end Namesake
