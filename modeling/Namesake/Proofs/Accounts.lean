import Namesake.Proofs.Chronicle
import Namesake.Proofs.CollectedVotes
import Namesake.Proofs.Reachable

/-! # Accounts of a run

A pass may do what it plans, and the collector what the votes it finds call for (`Pass.MayTake`).
The log of a run of the usual pipeline is an account of such actions (`Account`), whatever the two
programs are, so what they keep holds all along the run (`Account.allAlong`). Confirmed pairs are
kept by all of them (`State.extends_foldl_after`).

A chronicle tells more, namely that every action was warranted, but it is about coherent programs
only.
-/

namespace Namesake

variable {c : Context}

namespace Ledger

/-- Whatever the first ledger has confirmed, the second has confirmed onto the same target. -/
structure Extends (l l' : Ledger) : Prop where
  types : l.types.Extends l'.types
  methods : l.methods.Extends l'.methods
  fields : l.fields.Extends l'.fields

theorem Extends.refl (l : Ledger) : l.Extends l := ⟨.refl _, .refl _, .refl _⟩

theorem Extends.trans {l l' l'' : Ledger} (first : l.Extends l') (second : l'.Extends l'') :
    l.Extends l'' :=
  ⟨first.types.trans second.types, first.methods.trans second.methods,
    first.fields.trans second.fields⟩

end Ledger

/-- An action keeps what is confirmed. -/
theorem State.extends_after {s : State} (sound : s.ledger.Each Partition.Sound) (a : Action) :
    s.ledger.Extends (s.after c a).ledger := by
  obtain ⟨t, m, f, types, methods, fields, -⟩ := State.after_moves sound a
  exact ⟨types.extends_, methods.extends_, fields.extends_⟩

/-- Actions keep what is confirmed. -/
theorem State.extends_foldl_after {s : State} (sound : s.ledger.Each Partition.Sound)
    (actions : List Action) : s.ledger.Extends (actions.foldl (State.after c) s).ledger := by
  induction actions generalizing s with
  | nil => exact .refl _
  | cons a rest ih =>
      exact (extends_after sound a).trans (ih (Partition.invariant_sound.after sound c a))

namespace Pass

/-- What a pass may do about a ledger: what it plans or, in the case of the collector, what the
ledger calls for. -/
def MayTake (c : Context) (l : Ledger) (pass : Pass) (a : Action) : Prop :=
  match pass.plan? c l with
  | some planned => a ∈ planned
  | none => a.IsCalledFor c l

/-- **What a pass does.** It succeeds and does what it may about the ledger it finds. -/
theorem run_does {s : State} (sound : s.ledger.Each Partition.Sound) (pass : Pass) :
    ∃ s', Work.Does c (pass.MayTake c s.ledger) (pass.run c) s () s' := by
  have look : pass.run c s = (match pass.plan? c s.ledger with
      | some actions => Action.performAll c actions
      | none => collectVotes c) s := rfl
  unfold Work.Does
  rw [look]
  unfold MayTake
  cases pass.plan? c s.ledger with
  | some planned => exact ⟨_, Action.performAll_eq c planned s, planned, fun _ => id, rfl⟩
  | none => exact collectVotes_does sound

end Pass

/-- Every entry of a log was left behind by a pass that did what it may. -/
inductive Account (c : Context) (start : Ledger) : List Execution → Prop
  | begun : Account c start []
  | ran {log : List Execution} {step cycle base : Nat} {pass : Pass} {s' : State}
      (earlier : Account c start log) (here : Pass.all[step]? = some pass)
      (does : Work.Does c (pass.MayTake c (ledgerAfter start log)) (pass.run c)
        ⟨ledgerAfter start log, base⟩ () s') :
      Account c start (⟨step, cycle, s'⟩ :: log)

/-- Something is kept by all that passes may do. A pass decides from the ledger it finds, when part
of what it does may have been done already. -/
def KeptByPasses (c : Context) (holds : Ledger → Prop) : Prop :=
  ∀ {l : Ledger} {s : State} {pass : Pass} {a : Action}, l.Each Partition.Sound → holds l →
    l.Extends s.ledger → s.ledger.Each Partition.Sound → holds s.ledger → pass.MayTake c l a →
    holds (s.after c a).ledger

namespace KeptByPasses

variable {holds : Ledger → Prop} (kept : KeptByPasses c holds)

include kept

/-- What passes keep holds after each of the actions of a pass. -/
theorem foldl_after {s : State} (sound : s.ledger.Each Partition.Sound) (begins : holds s.ledger)
    {pass : Pass} {actions : List Action} (may : ∀ a ∈ actions, pass.MayTake c s.ledger a) :
    holds (actions.foldl (State.after c) s).ledger := by
  have further (actions : List Action) (may : ∀ a ∈ actions, pass.MayTake c s.ledger a)
      (s₁ : State) (extends_ : s.ledger.Extends s₁.ledger)
      (sound₁ : s₁.ledger.Each Partition.Sound) (holds₁ : holds s₁.ledger) :
      holds (actions.foldl (State.after c) s₁).ledger := by
    induction actions generalizing s₁ with
    | nil => exact holds₁
    | cons a rest ih =>
        rw [List.forall_mem_cons] at may
        exact ih may.2 _ (extends_.trans (State.extends_after sound₁ a))
          (Partition.invariant_sound.after sound₁ c a)
          (kept sound begins extends_ sound₁ holds₁ may.1)
  exact further actions may s (.refl _) sound begins

end KeptByPasses

namespace Account

variable {start : Ledger} {log : List Execution}

theorem of_suffix (account : Account c start log) {earlier : List Execution}
    (ends : earlier <:+ log) : Account c start earlier := by
  induction account with
  | begun =>
      rw [List.suffix_nil.mp ends]
      exact .begun
  | ran before here does ih =>
      rcases List.suffix_cons_iff.mp ends with rfl | ends
      · exact .ran before here does
      · exact ih ends

theorem sound (before : start.Each Partition.Sound) (account : Account c start log) :
    (ledgerAfter start log).Each Partition.Sound := by
  induction account with
  | begun => exact before
  | ran earlier here does ih =>
      obtain ⟨-, actions, -, rfl⟩ := does
      exact Partition.invariant_sound.foldl_after ih c actions

/-- What passes keep holds of every ledger an account tells of. -/
theorem holds {holds : Ledger → Prop} (kept : KeptByPasses c holds)
    (before : start.Each Partition.Sound) (begins : holds start) (account : Account c start log) :
    holds (ledgerAfter start log) := by
  induction account with
  | begun => exact begins
  | ran earlier here does ih =>
      obtain ⟨-, actions, may, rfl⟩ := does
      exact kept.foldl_after (earlier.sound before) ih may

/-- **What passes keep holds all along an account**, after every action of every pass. -/
theorem allAlong {holds : Ledger → Prop} (kept : KeptByPasses c holds)
    (before : start.Each Partition.Sound) (begins : holds start) (account : Account c start log) :
    AllAlong c start log holds := by
  refine ⟨begins, ?_⟩
  intro e earlier ends
  cases account.of_suffix ends with
  | @ran _ step cycle base pass s' former here does =>
      obtain ⟨-, actions, may, rfl⟩ := does
      refine ⟨base, actions, rfl, ?_⟩
      rintro done ⟨later, rfl⟩
      exact kept.foldl_after (former.sound before) (former.holds kept before begins)
        fun a member => may a (List.mem_append_left later member)

end Account

/-! ## Runs -/

/-- At any step the log is an account, and what its last entry tells is still there. -/
structure Accounted (c : Context) (start : Ledger) (next cycle : Nat) (s : State)
    (log : List Execution) : Prop where
  latest : ledgerAfter start log = s.ledger
  account : Account c start log

/-- **The usual pipeline keeps an account.** -/
theorem upheld_accounted {start : Ledger} (before : start.Each Partition.Sound) :
    Upheld c defaultSteps (Accounted c start) where
  operation := by
    rintro next cycle s log work here ⟨latest, account⟩
    obtain ⟨pass, present, rfl⟩ := pass_of_operation here
    obtain ⟨l, base⟩ := s
    obtain rfl : ledgerAfter start log = l := latest
    have sound : (⟨ledgerAfter start log, base⟩ : State).ledger.Each Partition.Sound :=
      account.sound before
    obtain ⟨s', does⟩ := pass.run_does sound
    exact ⟨s', does.1, rfl, .ran account present does⟩
  taken := by
    rintro next cycle target s log predicate here ⟨latest, account⟩ wanted allowed
    obtain ⟨rfl, rfl, rfl⟩ := eq_of_jump here
    exact ⟨latest, account⟩
  passed := by
    rintro next cycle target s log predicate here ⟨latest, account⟩ refused
    obtain ⟨rfl, rfl, rfl⟩ := eq_of_jump here
    exact ⟨latest, account⟩

/-- **What a merge of any two programs leaves behind.** A merge with the usual pipeline succeeds.
Its log is an account of what became of the ledger after seeding, and the names are carried over
from where it ends. -/
theorem Session.merge_account {s : Session} (usual : s.steps = defaultSteps)
    (reachable : s.state.Reachable s.context) :
    let begun := s.afterCall .seed
    ∃ log s', s.merge = .ok log s' ∧ begun.state.ledger.Each Partition.Sound ∧
      Account s.context begun.state.ledger log ∧
      s'.state.ledger = ledgerAfter begun.state.ledger log ∧
      s'.output = project s.context s'.state.ledger begun.output := by
  intro begun
  obtain ⟨context, reachable'⟩ := reachable_afterCall reachable .seed
  have sound := reachable'.each Partition.invariant_sound
  have holds : Accounted s.context begun.state.ledger 0 begun.cycle begun.state [] := ⟨rfl, .begun⟩
  obtain ⟨success, last, -, latest, account⟩ := (upheld_accounted sound).runFrom holds
  have merged := merge_eq s
  simp only [steps_afterCall, usual, context] at merged
  exact ⟨_, _, merged success, sound, account, latest.symm, rfl⟩

end Namesake
