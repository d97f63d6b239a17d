import Namesake.Proofs.Cycles

/-! # What a log tells

The log of a run of the usual pipeline tells what every pass left behind. A pass got there from what
was there before by a trail of warranted actions (`Chronicle`), so whatever actions keep holds all
along a run, and within each pass as well. A merge with the usual pipeline succeeds and leaves such
a log (`Session.merge_chronicle`).
-/

namespace Namesake

variable {c : Context} {pool : Pool c.old.program c.new.program}

namespace Trail

variable {s s' : State} {actions : List Action}

/-- A trail leads to what its actions leave behind one after the other. -/
theorem eq_foldl (trail : Trail c pool s actions s') : s' = actions.foldl (State.after c) s := by
  induction trail with
  | done s => rfl
  | act warranted rest ih => exact ih

/-- The first part of a trail is a trail. -/
theorem of_append {done later : List Action} (trail : Trail c pool s (done ++ later) s') :
    Trail c pool s done (done.foldl (State.after c) s) := by
  induction done generalizing s with
  | nil => exact .done s
  | cons a rest ih =>
      cases trail with
      | act warranted others => exact .act warranted (ih others)

/-- An action is warranted by what the ones before it left behind. -/
theorem warranted_of_mem (trail : Trail c pool s actions s') {a : Action} (member : a ∈ actions) :
    ∃ done, done <+: actions ∧ a.Warranted c pool (done.foldl (State.after c) s).ledger := by
  induction trail with
  | done s => cases member
  | @act s s' first rest warranted others ih =>
      rcases List.mem_cons.mp member with rfl | later
      · exact ⟨[], List.nil_prefix, warranted⟩
      · obtain ⟨done, begins, warranted'⟩ := ih later
        exact ⟨first :: done, List.cons_prefix_cons.mpr ⟨rfl, begins⟩, warranted'⟩

end Trail

/-- Every entry of a log was left behind by a pass, which got there by a trail of actions it may
take. -/
inductive Chronicle (c : Context) (pool : Pool c.old.program c.new.program) (start : Ledger) :
    List Execution → Prop
  | begun : Chronicle c pool start []
  | ran {log : List Execution} {step cycle : Nat} {pass : Pass} {s s' : State}
      {actions : List Action} (earlier : Chronicle c pool start log)
      (here : Pass.all[step]? = some pass) (latest : s.ledger = ledgerAfter start log)
      (takes : pass.Takes c s.ledger actions) (trail : Trail c pool s actions s') :
      Chronicle c pool start (⟨step, cycle, s'⟩ :: log)

namespace Chronicle

variable {start : Ledger} {log : List Execution}

theorem of_suffix (chronicle : Chronicle c pool start log) {earlier : List Execution}
    (ends : earlier <:+ log) : Chronicle c pool start earlier := by
  induction chronicle with
  | begun =>
      rw [List.suffix_nil.mp ends]
      exact .begun
  | ran before here latest takes trail ih =>
      rcases List.suffix_cons_iff.mp ends with rfl | ends
      · exact .ran before here latest takes trail
      · exact ih ends

/-- **What an entry tells.** A pass took actions it may take, along a trail from what was there
before. -/
theorem entry {e : Execution} (chronicle : Chronicle c pool start (e :: log)) :
    ∃ pass base actions, Pass.all[e.step]? = some pass ∧
      pass.Takes c (ledgerAfter start log) actions ∧
      Trail c pool ⟨ledgerAfter start log, base⟩ actions e.state := by
  cases chronicle with
  | @ran _ step cycle pass s s' actions earlier here latest takes trail =>
      rw [← latest]
      exact ⟨pass, s.changes, actions, here, takes, trail⟩

/-- Every ledger a log tells of is lawful. -/
theorem lawful (coherent : c.old.program.Coherent) (before : start.Lawful c pool)
    (chronicle : Chronicle c pool start log) : (ledgerAfter start log).Lawful c pool := by
  induction chronicle with
  | begun => exact before
  | ran earlier here latest takes trail ih =>
      rw [← latest] at ih
      exact trail.lawful coherent ih

/-- What is confirmed stays so all along a log. -/
theorem extends_types (coherent : c.old.program.Coherent) (before : start.Lawful c pool)
    (chronicle : Chronicle c pool start log) :
    start.types.Extends (ledgerAfter start log).types := by
  induction chronicle with
  | begun => exact .refl _
  | ran earlier here latest takes trail ih =>
      have lawful := earlier.lawful coherent before
      rw [← latest] at ih lawful
      exact ih.trans (trail.extends_types coherent lawful)

end Chronicle

/-- Something holds of every ledger of a run: of the one it begins with, and after every action of
every pass. -/
def AllAlong (c : Context) (start : Ledger) (log : List Execution) (holds : Ledger → Prop) : Prop :=
  holds start ∧ ∀ e earlier, (e :: earlier) <:+ log → ∃ base actions,
    e.state = actions.foldl (State.after c) ⟨ledgerAfter start earlier, base⟩ ∧
    ∀ done, done <+: actions →
      holds (done.foldl (State.after c) ⟨ledgerAfter start earlier, base⟩).ledger

theorem AllAlong.imp {start : Ledger} {log : List Execution} {holds weaker : Ledger → Prop}
    (along : AllAlong c start log holds) (implies : ∀ l, holds l → weaker l) :
    AllAlong c start log weaker := by
  refine ⟨implies start along.1, ?_⟩
  intro e earlier ends
  obtain ⟨base, actions, left, each⟩ := along.2 e earlier ends
  exact ⟨base, actions, left, fun done begins => implies _ (each done begins)⟩

/-- What holds all along a log holds in the end. -/
theorem AllAlong.last {start : Ledger} {log : List Execution} {holds : Ledger → Prop}
    (along : AllAlong c start log holds) : holds (ledgerAfter start log) := by
  cases log with
  | nil => exact along.1
  | cons e earlier =>
      obtain ⟨base, actions, left, each⟩ := along.2 e earlier List.suffix_rfl
      rw [ledgerAfter, left]
      exact each actions List.prefix_rfl

/-- What holds of every lawful ledger that has all types confirmed that were so at the start holds
all along a log. -/
theorem Chronicle.allAlong (coherent : c.old.program.Coherent) {start : Ledger}
    {log : List Execution} (before : start.Lawful c pool) (chronicle : Chronicle c pool start log)
    {holds : Ledger → Prop}
    (kept : ∀ l : Ledger, l.Lawful c pool → start.types.Extends l.types → holds l) :
    AllAlong c start log holds := by
  refine ⟨kept start before (.refl _), ?_⟩
  intro e earlier ends
  obtain ⟨pass, base, actions, -, -, trail⟩ := (chronicle.of_suffix ends).entry
  have former := chronicle.of_suffix ((List.suffix_cons e earlier).trans ends)
  have lawful := former.lawful coherent before
  refine ⟨base, actions, trail.eq_foldl, ?_⟩
  rintro done ⟨later, rfl⟩
  have upTo := trail.of_append
  exact kept _ (upTo.lawful coherent lawful)
    ((former.extends_types coherent before).trans (upTo.extends_types coherent lawful))

/-- At any step the log is a chronicle, and what its last entry tells is still there. -/
structure Chronicled (c : Context) (pool : Pool c.old.program c.new.program) (start : Ledger)
    (next cycle : Nat) (s : State) (log : List Execution) : Prop where
  latest : s.ledger = ledgerAfter start log
  chronicle : Chronicle c pool start log

/-- **The usual pipeline keeps a chronicle.** -/
theorem upheld_chronicled (coherent : c.Coherent) {start : Ledger} (before : start.Lawful c pool) :
    Upheld c defaultSteps (Chronicled c pool start) where
  operation := by
    rintro next cycle s log work here ⟨latest, chronicle⟩
    obtain ⟨pass, present, rfl⟩ := pass_of_operation here
    have lawful := chronicle.lawful coherent.old before
    rw [← latest] at lawful
    obtain ⟨s', actions, done, trail, takes⟩ := pass.run_trail coherent lawful
    exact ⟨s', done, rfl, .ran chronicle present latest takes trail⟩
  taken := by
    rintro next cycle target s log predicate here ⟨latest, chronicle⟩ wanted allowed
    obtain ⟨rfl, rfl, rfl⟩ := eq_of_jump here
    exact ⟨latest, chronicle⟩
  passed := by
    rintro next cycle target s log predicate here ⟨latest, chronicle⟩ refused
    obtain ⟨rfl, rfl, rfl⟩ := eq_of_jump here
    exact ⟨latest, chronicle⟩

namespace Session

/-- **What a merge leaves behind.** A merge with the usual pipeline succeeds. Its log is a chronicle
of what became of the ledger after seeding, and the names are carried over from where it ends. -/
theorem merge_chronicle (coherent : c.Coherent) {s : Session} (about : s.context = c)
    (usual : s.steps = defaultSteps) (lawful : s.state.ledger.Lawful c pool) :
    let begun := s.afterCall .seed
    ∃ log s', s.merge = .ok log s' ∧ begun.state.ledger.Lawful c pool ∧
      Chronicle c pool begun.state.ledger log ∧
      s'.state.ledger = ledgerAfter begun.state.ledger log ∧
      s'.output = project c s'.state.ledger begun.output := by
  intro begun
  have formed : Call.seed.IsWellFormed c pool := trivial
  obtain ⟨context, lawful', -⟩ := lawful_afterCall coherent about lawful formed
  have holds : Chronicled c pool begun.state.ledger 0 begun.cycle begun.state [] := ⟨rfl, .begun⟩
  obtain ⟨success, last, -, latest, chronicle⟩ :=
    (upheld_chronicled coherent lawful').runFrom holds
  have merged := merge_eq s
  simp only [steps_afterCall, usual, context] at merged
  exact ⟨_, _, merged success, lawful', chronicle, latest, rfl⟩

end Session

end Namesake
