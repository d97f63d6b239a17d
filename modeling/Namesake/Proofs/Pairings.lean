import Namesake.Proofs.PassPlans
import Namesake.Proofs.Seeding

/-! # Pairings

A pairing tells which placeholders may stand for new types, and which members may be brought
together, by the pairs that are confirmed so far. A ledger abides by it if all its pairs are such,
the confirmed ones and those that are voted for (`Ledger.AbidesBy`). The collector keeps to what was
voted for, so a pairing that takes in whatever the other passes plan is abided by all along a merge
(`Session.merge_abidesBy`).
-/

namespace Namesake

/-- What may be brought together while a ledger has certain pairs confirmed. As more are confirmed,
more may be. Two types always may, as the owners of members are taken along. -/
structure Pairing where
  placeholders : Synthetic → TypeId → Prop
  methods : Ledger → Handle MethodId → MethodId → Prop
  fields : Ledger → Handle FieldId → FieldId → Prop
  methods_mono : ∀ {l l' : Ledger} {k n}, l.Extends l' → methods l k n → methods l' k n
  fields_mono : ∀ {l l' : Ledger} {k n}, l.Extends l' → fields l k n → fields l' k n

/-- Whether a type, or a placeholder for it, may be brought together with a new type. -/
def Pairing.types (pairing : Pairing) (k : Handle TypeId) (n : TypeId) : Prop :=
  ∀ placeholder, k = .synthetic placeholder → pairing.placeholders placeholder n

theorem Pairing.types_real (pairing : Pairing) (o n : TypeId) : pairing.types (.real o) n := by
  intro placeholder key
  cases key

/-! ## Partitions -/

namespace Partition

variable {ι : Type} [KeyOrder ι]

/-- The rules that ask something of pairs, confirmed or voted for, and nothing else. -/
def pairRules (fits : Handle ι → ι → Prop) : Rules ι :=
  ⟨fun _ => True, fits, fits, fun _ _ => True⟩

variable {fits fits' : Handle ι → ι → Prop} {p p' : Partition ι}

theorem Follows.hasVote {r : Rules ι} (follows : p.Follows r) {k : Handle ι} {n : ι}
    (voted : p.HasVote k n) : r.ballot k n := by
  obtain ⟨e, found, vote⟩ := voted
  exact follows.ballot found vote

theorem Follows.pairs_mono (follows : p.Follows (pairRules fits))
    (more : ∀ k n, fits k n → fits' k n) : p.Follows (pairRules fits') where
  subject _ := trivial
  ballot found voted := more _ _ (follows.ballot found voted)
  pair confirmed := more _ _ (follows.pair confirmed)
  hint _ _ := trivial

variable [DecidableEq ι]

/-- A change of a partition that brings in nothing but pairs that fit. Votes for what is claimed
already do not count. -/
inductive Change (fits : Handle ι → ι → Prop) (p : Partition ι) : Partition ι → Prop
  | same : Change fits p p
  | vote {old : Handle ι} {new : ι} (allowed : p.isClaimed new = false → fits old new) :
      Change fits p (p.vote old new)
  | settle {old : Handle ι} {new : ι} (allowed : fits old new) :
      Change fits p (p.settle old (p.entryFor old new) new)
  | restricted (ownerOf : ι → TypeId) (owner : TypeId) (members : List ι) :
      Change fits p (p.restricted ownerOf owner members)
  | marked (old : Handle ι) : Change fits p (p.marked old)

theorem Change.follows (change : p.Change fits p') (follows : p.Follows (pairRules fits)) :
    p'.Follows (pairRules fits) := by
  cases change with
  | same => exact follows
  | vote allowed => exact follows.vote trivial allowed
  | settle allowed => exact follows.settle trivial allowed
  | restricted ownerOf owner members =>
      exact follows.restrict members (fun _ _ => trivial) (fun _ _ _ allowed _ => allowed)
        (fun _ _ => id) (fun _ _ _ => trivial) fun _ _ => trivial
  | marked old => exact follows.marked old

end Partition

/-! ## Actions -/

/-- An action brings things together only as a pairing has it. Votes for what is claimed already do
not count. -/
def Action.KeepsTo (pairing : Pairing) (l : Ledger) : Action → Prop
  | vote (.method m n) => l.methods.isClaimed n = false → pairing.methods l (.real m) n
  | vote (.field f g) => l.fields.isClaimed g = false → pairing.fields l (.real f) g
  | confirmType k n => pairing.types k n
  | confirmMethod k n => pairing.methods l k n
  | confirmField k g => pairing.fields l k g
  | vote (.type ..) | mergedType _ | mergedMethod _ | mergedField _ => True

/-- All pairs that are confirmed or voted for are ones of a pairing. -/
structure Ledger.AbidesBy (pairing : Pairing) (l : Ledger) : Prop where
  types : l.types.Follows (Partition.pairRules pairing.types)
  methods : l.methods.Follows (Partition.pairRules (pairing.methods l))
  fields : l.fields.Follows (Partition.pairRules (pairing.fields l))

variable {c : Context} {pairing : Pairing}

/-- What an action that keeps to a pairing does to the three partitions. -/
theorem Action.KeepsTo.changes {s : State} {a : Action} (keeps : a.KeepsTo pairing s.ledger) :
    s.ledger.types.Change pairing.types (s.after c a).ledger.types ∧
      s.ledger.methods.Change (pairing.methods s.ledger) (s.after c a).ledger.methods ∧
      s.ledger.fields.Change (pairing.fields s.ledger) (s.after c a).ledger.fields := by
  cases a with
  | vote b =>
      simp only [State.after, Ballot.cast]
      split_ifs
      · cases b with
        | type old new => exact ⟨.vote fun _ => pairing.types_real old new, .same, .same⟩
        | method old new => exact ⟨.same, .vote keeps, .same⟩
        | field old new => exact ⟨.same, .same, .vote keeps⟩
      · exact ⟨.same, .same, .same⟩
  | confirmType old new =>
      simp only [State.after, State.confirmType]
      split_ifs
      · exact ⟨.same, .same, .same⟩
      · cases old with
        | real o => exact ⟨.settle keeps, .restricted _ new _, .restricted _ new _⟩
        | synthetic placeholder => exact ⟨.settle keeps, .same, .same⟩
  | confirmMethod old new =>
      simp only [State.after, State.confirmMethod]
      split_ifs
      · exact ⟨.same, .same, .same⟩
      · exact ⟨.same, .settle keeps, .same⟩
  | confirmField old new =>
      simp only [State.after, State.confirmField]
      split_ifs
      · exact ⟨.same, .same, .same⟩
      · exact ⟨.same, .same, .settle keeps⟩
  | mergedType old => exact ⟨.marked _, .same, .same⟩
  | mergedMethod old => exact ⟨.same, .marked _, .same⟩
  | mergedField old => exact ⟨.same, .same, .marked _⟩

namespace Ledger.AbidesBy

theorem empty (pairing : Pairing) : (∅ : Ledger).AbidesBy pairing :=
  ⟨Partition.empty_follows _, Partition.empty_follows _, Partition.empty_follows _⟩

/-- **What an action that keeps to a pairing leaves behind abides by it.** -/
theorem after {s : State} (sound : s.ledger.Each Partition.Sound)
    (abides : s.ledger.AbidesBy pairing) {a : Action} (keeps : a.KeepsTo pairing s.ledger) :
    (s.after c a).ledger.AbidesBy pairing := by
  obtain ⟨types, methods, fields⟩ := keeps.changes (c := c)
  have extends_ := State.extends_after (c := c) sound a
  exact ⟨types.follows abides.types,
    (methods.follows abides.methods).pairs_mono fun _ _ => pairing.methods_mono extends_,
    (fields.follows abides.fields).pairs_mono fun _ _ => pairing.fields_mono extends_⟩

/-- Actions that always keep to a pairing leave behind what abides by it. -/
theorem foldl_after {s : State} (sound : s.ledger.Each Partition.Sound)
    (abides : s.ledger.AbidesBy pairing) {actions : List Action}
    (keep : ∀ a ∈ actions, ∀ l, a.KeepsTo pairing l) :
    (actions.foldl (State.after c) s).ledger.AbidesBy pairing := by
  induction actions generalizing s with
  | nil => exact abides
  | cons a rest ih =>
      rw [List.forall_mem_cons] at keep
      exact ih (Partition.invariant_sound.after sound c a) (abides.after sound (keep.1 _)) keep.2

end Ledger.AbidesBy

/-! ## Passes -/

namespace Pairing

/-- What is called for by a ledger that abides by a pairing keeps to it, also later on. -/
theorem keepsTo_of_isCalledFor {l l' : Ledger} (abides : l.AbidesBy pairing)
    (extends_ : l.Extends l') {a : Action} (called : a.IsCalledFor c l) :
    a.KeepsTo pairing l' := by
  cases called with
  | type voted => exact abides.types.hasVote voted
  | method voted => exact pairing.methods_mono extends_ (abides.methods.hasVote voted)
  | field voted => exact pairing.fields_mono extends_ (abides.fields.hasVote voted)
  | methodOwner voted => exact pairing.types_real _ _
  | fieldOwner voted => exact pairing.types_real _ _

/-- Whatever is planned about a ledger keeps to a pairing, also when part of it is done. -/
def TakesInPlans (c : Context) (pairing : Pairing) : Prop :=
  ∀ {l l' : Ledger} {a : Action}, l.Extends l' → l'.Each Partition.Sound → a.IsPlanned c l →
    a.KeepsTo pairing l'

/-- **A pairing that takes in whatever is planned is abided by all along.** -/
theorem keptByPasses (takesIn : pairing.TakesInPlans c) :
    KeptByPasses c (Ledger.AbidesBy pairing) := by
  intro l s pass a sound abides extends_ sound' abides' may
  apply abides'.after sound'
  rcases Pass.isPlanned_or_isCalledFor sound may with plan | called
  · exact takesIn extends_ sound' plan
  · exact keepsTo_of_isCalledFor abides extends_ called

end Pairing

/-! ## Merges -/

/-- **A merge abides by a pairing that takes in what is planned and what is known**, from the start
and after every action of every pass, whatever the two programs are. -/
theorem Session.merge_abidesBy (old : Program) (names : MappingSet) (new : Program)
    (known : MappingSet) (settings : MergeSettings) :
    let session := (start old names new known settings).withDefaultSteps
    let c := session.context
    let begun := (session.afterCall .seed).state.ledger
    ∃ log s', session.merge = .ok log s' ∧ s'.output = project c s'.state.ledger known ∧
      s'.state.ledger.Each Partition.Sound ∧
      ∀ pairing : Pairing, pairing.TakesInPlans c →
        (∀ a ∈ seedActions c known, ∀ l, a.KeepsTo pairing l) →
        AllAlong c begun log (Ledger.AbidesBy pairing) ∧ s'.state.ledger.AbidesBy pairing := by
  intro session c begun
  have reachable : session.state.Reachable c := reachable_start old names new known settings
  obtain ⟨log, s', merged, sound, account, latest, output⟩ :=
    merge_account (s := session) rfl reachable
  rw [output_afterCall] at output
  refine ⟨log, s', merged, output, latest ▸ account.sound sound, ?_⟩
  intro pairing takesIn seeds
  have begins : begun.AbidesBy pairing := by
    have seeded : begun = session.seedState.ledger := by
      simp only [begun, afterCall, Call.make, seed_eq]
      rfl
    rw [seeded]
    exact Ledger.AbidesBy.foldl_after Partition.invariant_sound.each_empty (.empty pairing) seeds
  have kept : KeptByPasses c (Ledger.AbidesBy pairing) := Pairing.keptByPasses takesIn
  rw [latest]
  exact ⟨account.allAlong kept sound begins, account.holds kept sound begins⟩

end Namesake
