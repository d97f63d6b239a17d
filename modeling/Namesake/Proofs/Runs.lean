import Namesake.Merge.Session

/-! # Runs of a pipeline

What every step of a pipeline keeps holds at the end of a run (`Upheld.runFrom`). The log of a run
tells what each operation left behind, so it also tells which ledger a cycle began with
(`cycleStart`).
-/

namespace Namesake

variable {c : Context} {steps : List Step}

/-- An invariant of the runs of a pipeline. It is about the number of the next step, the number of
jumps taken, the state and the log. No operation fails where it holds. -/
structure Upheld (c : Context) (steps : List Step)
    (inv : Nat → Nat → State → List Execution → Prop) : Prop where
  /-- An operation is carried out. -/
  operation {next cycle : Nat} {s : State} {log : List Execution} {work : Context → Work Unit}
    (here : steps[next]? = some (.operation work)) (holds : inv next cycle s log) :
    ∃ s', work c s = .ok () s' ∧ inv (next + 1) cycle s' (⟨next, cycle, s'⟩ :: log)
  /-- A jump is taken. -/
  taken {next cycle target : Nat} {s : State} {log : List Execution} {predicate : Predicate}
    (here : steps[next]? = some (.jump target predicate)) (holds : inv next cycle s log)
    (wanted : (predicate s).1 = true) (allowed : cycle < c.settings.maxCycles) :
    inv target (cycle + 1) (predicate s).2 log
  /-- A jump is not taken. -/
  passed {next cycle target : Nat} {s : State} {log : List Execution} {predicate : Predicate}
    (here : steps[next]? = some (.jump target predicate)) (holds : inv next cycle s log)
    (refused : ¬ ((predicate s).1 = true ∧ cycle < c.settings.maxCycles)) :
    inv (next + 1) cycle (predicate s).2 log

/-- **What every step keeps holds at the end.** A run whose operations never fail gets past the last
step. -/
theorem Upheld.runFrom {inv : Nat → Nat → State → List Execution → Prop}
    (upheld : Upheld c steps inv) {next cycle : Nat} {s : State} {log : List Execution}
    (holds : inv next cycle s log) :
    (runFrom c steps next cycle s log).failure = none ∧
      ∃ last, steps.length ≤ last ∧ inv last (runFrom c steps next cycle s log).cycle
        (runFrom c steps next cycle s log).state (runFrom c steps next cycle s log).log := by
  fun_induction Namesake.runFrom c steps next cycle s log with
  | case1 next cycle s log inside work here s' done ih =>
      obtain ⟨reached, success, kept⟩ :=
        upheld.operation (List.getElem?_eq_some_iff.mpr ⟨inside, here⟩) holds
      rw [done] at success
      cases success
      exact ih kept
  | case2 next cycle s log inside work here e s' failed =>
      obtain ⟨reached, success, -⟩ :=
        upheld.operation (List.getElem?_eq_some_iff.mpr ⟨inside, here⟩) holds
      rw [failed] at success
      cases success
  | case3 next cycle s log inside target predicate here wanted s' look taken ih =>
      have present := List.getElem?_eq_some_iff.mpr ⟨inside, here⟩
      have kept := upheld.taken present holds (by rw [look]; exact taken.1) taken.2
      rw [look] at kept
      exact ih kept
  | case4 next cycle s log inside target predicate here wanted s' look refused ih =>
      have present := List.getElem?_eq_some_iff.mpr ⟨inside, here⟩
      have kept := upheld.passed present holds (by rw [look]; exact refused)
      rw [look] at kept
      exact ih kept
  | case5 next cycle s log outside =>
      exact ⟨rfl, next, Nat.le_of_not_lt outside, holds⟩

/-! ## Reading a log -/

/-- The ledger the operations of a log left behind, the latest coming first. -/
def ledgerAfter (start : Ledger) : List Execution → Ledger
  | [] => start
  | latest :: _ => latest.state.ledger

/-- The ledger a cycle began with: what the operations of the cycles before left behind. -/
def cycleStart (start : Ledger) (log : List Execution) (cycle : Nat) : Ledger :=
  ledgerAfter start (log.dropWhile fun e => decide (cycle ≤ e.cycle))

theorem cycleStart_cons (start : Ledger) {e : Execution} (log : List Execution) {cycle : Nat}
    (same : e.cycle = cycle) : cycleStart start (e :: log) cycle = cycleStart start log cycle := by
  have reached : cycle ≤ e.cycle := Nat.le_of_eq same.symm
  rw [cycleStart, List.dropWhile_cons_of_pos (by simpa using reached), cycleStart]

/-- A cycle that is about to begin begins with what there is. -/
theorem cycleStart_of_later (start : Ledger) {log : List Execution} {cycle : Nat}
    (earlier : ∀ e ∈ log, e.cycle < cycle) :
    cycleStart start log cycle = ledgerAfter start log := by
  rw [cycleStart]
  cases log with
  | nil => rfl
  | cons latest rest =>
      have before := earlier latest (List.mem_cons_self ..)
      rw [List.dropWhile_cons_of_neg (by simpa using before)]

end Namesake
