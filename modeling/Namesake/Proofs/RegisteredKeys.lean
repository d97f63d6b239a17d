import Mathlib.Data.Finset.Card
import Namesake.Proofs.PropagatedOverrides

/-! # Keys that fields are registered under

A statement registers a static field under a text key if it assigns the field from a static call
whose only argument is the key, cast or not. Where no key is registered twice in either body, the
ballots of two initializers hold one for a pair of fields for each key that both are registered
under (`count_registrationBallots`). So a field that is not confirmed gains that many votes for each
one that may be voted for, whatever votes for factories are cast in between, and the order of the
statements does not matter for the fields (`Action.registrations_vote_per_key`).
-/

namespace Namesake

/-- The key of a static call whose only argument it is. -/
def Instruction.registeredKey? (value : Instruction) : Option String :=
  match value.stripCast with
  | .staticInvoke _ args =>
    match args with
    | [.stringConstant key] => some key
    | _ => none
  | _ => none

namespace Program

/-- The keys that a body registers static fields under, with the fields, in order. -/
def keyedFields (p : Program) (body : List Statement) : List (String × FieldId) :=
  (p.staticAssignments body).filterMap fun (f, value) =>
    value.registeredKey?.map fun key => (key, f)

/-- The keys that a body registers something under, each as often as it does. -/
def registeredKeys (p : Program) (body : List Statement) : List String :=
  (p.keyedFields body).map Prod.fst

/-- The keys that a body registers a field under. -/
def keysOf (p : Program) (body : List Statement) (f : FieldId) : Finset String :=
  (((p.keyedFields body).filter fun e => e.2 = f).map Prod.fst).toFinset

variable {p : Program} {body body' : List Statement} {f : FieldId} {key : String}

theorem mem_keysOf : key ∈ p.keysOf body f ↔ (key, f) ∈ p.keyedFields body := by
  simp [keysOf]

theorem keyedFields_perm (order : body'.Perm body) :
    (p.keyedFields body').Perm (p.keyedFields body) :=
  (order.filterMap _).filterMap _

theorem nodup_registeredKeys_of_perm (order : body'.Perm body)
    (once : (p.registeredKeys body).Nodup) : (p.registeredKeys body').Nodup :=
  ((keyedFields_perm order).map Prod.fst).nodup_iff.mpr once

theorem keysOf_of_perm (order : body'.Perm body) : p.keysOf body' f = p.keysOf body f := by
  ext key
  rw [mem_keysOf, mem_keysOf, (keyedFields_perm order).mem_iff]

/-- The registrations that have a key are the keyed fields. -/
theorem filterMap_registrations (p : Program) (body : List Statement) :
    ((registrations p body).filterMap fun r => r.key.map fun key => (key, r.field)) =
      p.keyedFields body := by
  rw [registrations, keyedFields, List.filterMap_filterMap]
  congr
  funext ⟨f, value⟩
  unfold Instruction.registeredKey?
  dsimp only
  cases value.stripCast <;> rfl

end Program

/-! ## Ballots per key -/

section

variable {c : Context} {old new : List Statement} {f g : FieldId}

/-- A ballot for a field counts if the field is not confirmed and the ballot is accepted. -/
theorem Ballot.counts_field_iff {l : Ledger} : (Ballot.field f g).counts c l = true ↔
    l.fields.isConfirmed (.real f) = false ∧ (Ballot.field f g).accepted c l = true := by
  unfold Ballot.counts Ballot.accepted
  dsimp only
  rw [Partition.accepts_eq]
  cases confirmed : l.fields.isConfirmed (.real f) with
  | true => simp [Partition.counts, confirmed]
  | false => simp

/-- The old field that a key finds. -/
def keyedField? (p : Program) (body : List Statement) : String → Option FieldId :=
  (SortedMap.ofList (p.keyedFields body)).get?

/-- Where no key is registered twice, a key finds the field it is registered for. -/
theorem keyedField?_eq_some_iff {p : Program} {body : List Statement} {key : String}
    (once : (p.registeredKeys body).Nodup) :
    keyedField? p body key = some f ↔ key ∈ p.keysOf body f := by
  rw [Program.mem_keysOf]
  constructor
  · exact SortedMap.mem_of_ofList
  · intro listed
    refine SortedMap.get?_ofList_of_mem listed ?_
    intro f' listed'
    exact congrArg Prod.snd (List.inj_on_of_nodup_map once listed' listed rfl)

/-- Each registration gives a ballot for the factories, if there are two, and one for the fields, if
its key finds one. -/
theorem exists_factory_of_registrationBallots (c : Context) (old new : List Statement) :
    ∃ factory : Option MethodId, registrationBallots c old new =
      (registrations c.new.program new).flatMap fun r =>
        (factory.bind fun o => r.factory.map fun n => Ballot.method o n).toList ++
        ((r.key >>= keyedField? c.old.program old).map fun f => Ballot.field f r.field).toList := by
  rw [registrationBallots, Program.filterMap_registrations]
  generalize ((registrations c.old.program old).filterMap (·.factory)).getLast? = factory
  refine ⟨factory, ?_⟩
  congr
  funext r
  congr
  · cases factory <;> cases r.factory <;> rfl
  · unfold keyedField?
    cases r.key >>= (SortedMap.ofList (c.old.program.keyedFields old)).get? <;> rfl

/-- Each key that finds a field gives a ballot, whatever the ballots for factories are. -/
theorem count_field_registrationBallots : (registrationBallots c old new).count (.field f g) =
    (c.new.program.keyedFields new).countP fun e =>
      e.2 = g ∧ keyedField? c.old.program old e.1 = some f := by
  obtain ⟨factory, ballots⟩ := exists_factory_of_registrationBallots c old new
  rw [ballots, ← Program.filterMap_registrations]
  induction registrations c.new.program new with
  | nil => rfl
  | cons r rest ih =>
      rw [List.flatMap_cons, List.count_append, List.count_append, ih, List.filterMap_cons]
      have factories : ((factory.bind fun o => r.factory.map fun n =>
          Ballot.method o n).toList).count (.field f g) = 0 := by
        cases factory <;> cases r.factory <;> rfl
      rw [factories]
      cases r.key with
      | none => simp
      | some key =>
          cases found : keyedField? c.old.program old key with
          | none => simp [found]
          | some f' =>
              simp [found, List.countP_cons, List.count_singleton, and_comm, Nat.add_comm]

variable (once : (c.old.program.registeredKeys old).Nodup)
  (once' : (c.new.program.registeredKeys new).Nodup)

include once once'

/-- **The ballots for a pair of fields are the keys that both are registered under**, where no key
is registered twice in either body. -/
theorem count_registrationBallots : (registrationBallots c old new).count (.field f g) =
    (c.old.program.keysOf old f ∩ c.new.program.keysOf new g).card := by
  let shared := (c.new.program.keyedFields new).filter fun e =>
    e.2 = g ∧ keyedField? c.old.program old e.1 = some f
  have distinct : (shared.map Prod.fst).Nodup := once'.sublist (List.filter_sublist.map _)
  have keys : (shared.map Prod.fst).toFinset =
      c.old.program.keysOf old f ∩ c.new.program.keysOf new g := by
    ext key
    simp [shared, keyedField?_eq_some_iff once, Program.mem_keysOf, and_comm]
  calc (registrationBallots c old new).count (.field f g)
      = shared.length := by rw [count_field_registrationBallots, List.countP_eq_length_filter]
    _ = (shared.map Prod.fst).length := by rw [List.length_map]
    _ = (shared.map Prod.fst).toFinset.card := (List.toFinset_card_of_nodup distinct).symm
    _ = (c.old.program.keysOf old f ∩ c.new.program.keysOf new g).card := by rw [keys]

/-- The votes that a pair of fields gains. -/
theorem tally_castAll_registrationBallots (l : Ledger) :
    (l.castAll c (registrationBallots c old new)).fields.tally (.real f) g =
      l.fields.tally (.real f) g +
        if l.fields.isConfirmed (.real f) = false ∧ (Ballot.field f g).accepted c l = true then
          (c.old.program.keysOf old f ∩ c.new.program.keysOf new g).card else 0 := by
  have gained := (l.castAll_gains c (registrationBallots c old new)).tally (.field f g)
  refine gained.trans (congrArg (l.fields.tally (.real f) g + ·) ?_)
  simp only [← Ballot.counts_field_iff]
  by_cases counted : (Ballot.field f g).counts c l = true
  · rw [if_pos counted, List.count_filter counted, count_registrationBallots once once']
  · rw [if_neg counted, List.count_eq_zero]
    intro member
    exact counted (List.mem_filter.mp member).2

end

/-- **Registrations vote once per key.** Take two bodies that register no key twice. From any state,
casting their ballots succeeds. A pair of fields gains as many votes as there are keys that both are
registered under, if the old one is not confirmed and the ballot is accepted, and no vote otherwise;
placeholders gain none. With the statements of either body in another order, all fields have the
same tallies. -/
theorem Action.registrations_vote_per_key (c : Context) (s : State) {old new : List Statement}
    (once : (c.old.program.registeredKeys old).Nodup)
    (once' : (c.new.program.registeredKeys new).Nodup) :
    ∃ s', Action.performAll c ((registrationBallots c old new).map .vote) s = .ok () s' ∧
      (∀ f g, s'.ledger.fields.tally (.real f) g = s.ledger.fields.tally (.real f) g +
        if s.ledger.fields.isConfirmed (.real f) = false ∧
            (Ballot.field f g).accepted c s.ledger = true then
          (c.old.program.keysOf old f ∩ c.new.program.keysOf new g).card else 0) ∧
      (∀ p g, s'.ledger.fields.tally (.synthetic p) g = s.ledger.fields.tally (.synthetic p) g) ∧
      ∀ old' new', old'.Perm old → new'.Perm new → ∃ t,
        Action.performAll c ((registrationBallots c old' new').map .vote) s = .ok () t ∧
          ∀ k g, t.ledger.fields.tally k g = s'.ledger.fields.tally k g := by
  have tallies (f g : FieldId) := tally_castAll_registrationBallots (f := f) (g := g) once once'
  refine ⟨_, performAll_votes c _ s, fun f g => tallies f g s.ledger,
    (s.ledger.castAll_gains c _).fields, ?_⟩
  intro old' new' order order'
  refine ⟨_, performAll_votes c _ s, ?_⟩
  have again := Program.nodup_registeredKeys_of_perm order once
  have again' := Program.nodup_registeredKeys_of_perm order' once'
  intro k g
  cases k with
  | real f =>
      refine (tally_castAll_registrationBallots again again' s.ledger).trans ?_
      rw [Program.keysOf_of_perm order, Program.keysOf_of_perm order']
      exact (tallies f g s.ledger).symm
  | synthetic p =>
      exact ((s.ledger.castAll_gains c _).fields p g).trans
        ((s.ledger.castAll_gains c _).fields p g).symm

/-! ### Two registries -/

/-- A class with two static fields. -/
def Program.registering (type first second : String) : Program where
  types := [{ name := type, kind := .plain, superclass := none, interfaces := [],
              signature := none, enumConstants := [], methods := [], fields := [⟨0⟩, ⟨1⟩] }]
  methods := []
  fields := [first, second].map fun name =>
    { name, descriptor := "I", type := .primitive 'I', isStatic := true, owner := ⟨0⟩ }
  byName := .ofList [(type, ⟨0⟩)]

/-- A static field is registered under a key. -/
def Statement.registering (type field key : String) : Statement :=
  .staticFieldAssignment ⟨type, field, "I"⟩
    (.staticInvoke ⟨"ext", "make", "(Ljava/lang/String;)I"⟩ [.stringConstant key])

/-- Two fields change places, and one is registered under two keys. -/
theorem Action.registrations_vote_per_key_of_swapped :
    let c := Context.of (.registering "a" "f" "g") ∅ (.registering "x" "h" "i") .default
    let old := [Statement.registering "a" "f" "stone", .registering "a" "g" "dirt",
      .registering "a" "f" "rock"]
    let new := [Statement.registering "x" "h" "dirt", .registering "x" "i" "rock",
      .registering "x" "i" "stone"]
    (c.old.program.registeredKeys old).Nodup ∧ (c.new.program.registeredKeys new).Nodup ∧
      ∃ s', Action.performAll c ((registrationBallots c old new).map .vote) .initial =
          .ok () s' ∧
        s'.ledger.fields.tally (.real ⟨0⟩) ⟨1⟩ = 2 ∧ s'.ledger.fields.tally (.real ⟨1⟩) ⟨0⟩ = 1 ∧
        s'.ledger.fields.tally (.real ⟨0⟩) ⟨0⟩ = 0 := by
  intro c old new
  have once : (c.old.program.registeredKeys old).Nodup := by decide +kernel
  have once' : (c.new.program.registeredKeys new).Nodup := by decide +kernel
  obtain ⟨s', done, tallies, -, -⟩ := registrations_vote_per_key c .initial once once'
  refine ⟨once, once', s', done, ?_, ?_, ?_⟩
  · exact (tallies ⟨0⟩ ⟨1⟩).trans (by decide +kernel)
  · exact (tallies ⟨1⟩ ⟨0⟩).trans (by decide +kernel)
  · exact (tallies ⟨0⟩ ⟨0⟩).trans (by decide +kernel)

end Namesake
