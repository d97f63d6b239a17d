import Namesake.Proofs.PassTrails

/-! # Moves of a run

A run of a pipeline goes from step to step. It carries out an operation, which may fail, takes a
jump, or passes one. Which moves are possible at a place, whatever operations and predicates do, is
told by the steps and the limit on the cycles alone (`Passage`). Each of them uses up part of what a
run has left (`Passage.left_lt`): a jump that is taken gives up a cycle, any other move gives up
a step of the cycle. So no run goes on for ever, and the number of its moves is bounded
(`Route.within_limit`).

In a session the moves are determined (`Position.Moves`), and a run is the one path of them that
leads to its end (`exists_path_runFrom`).
-/

namespace Namesake

/-- What a run does with a step. -/
inductive Move where
  | operated
  /-- The operation failed, which ends the run. -/
  | failed (e : MergeError)
  | jumped
  /-- The jump was not taken. -/
  | passed

namespace Move

/-- Whether an operation is carried out, to its end or not. -/
def isOperation : Move → Bool
  | operated | failed _ => true
  | jumped | passed => false

def isJump : Move → Bool
  | jumped => true
  | operated | failed _ | passed => false

end Move

/-- Some moves in a row. -/
inductive Path {α : Type} (rel : α → Move → α → Prop) : α → List Move → α → Prop
  | done (a : α) : Path rel a [] a
  | move {a b z : α} {m : Move} {moves : List Move} (first : rel a m b)
      (rest : Path rel b moves z) : Path rel a (m :: moves) z

namespace Path

variable {α β : Type} {rel : α → Move → α → Prop} {a b z : α} {moves moves' : List Move}

/-- Moves can be looked at in other terms. -/
theorem map {rel' : β → Move → β → Prop} {f : α → β}
    (step : ∀ a m b, rel a m b → rel' (f a) m (f b)) (path : Path rel a moves z) :
    Path rel' (f a) moves (f z) := by
  induction path with
  | done a => exact .done (f a)
  | move first rest ih => exact .move (step _ _ _ first) ih

/-- Where moves are determined, any path is part of one that ends where no move is possible. -/
theorem continues (determined : ∀ a m b m' b', rel a m b → rel a m' b' → m = m' ∧ b = b')
    (ended : ∀ m b, ¬ rel z m b) (whole : Path rel a moves z) (part : Path rel a moves' b) :
    ∃ rest, moves = moves' ++ rest ∧ Path rel b rest z := by
  induction part generalizing moves with
  | done a => exact ⟨moves, rfl, whole⟩
  | move first rest ih =>
      cases whole with
      | done => exact absurd first (ended _ _)
      | move first' rest' =>
          obtain ⟨rfl, rfl⟩ := determined _ _ _ _ _ first first'
          obtain ⟨further, rfl, onward⟩ := ih rest'
          exact ⟨further, rfl, onward⟩

end Path

/-! ## Places -/

/-- Where a run stands: the number of the next step, and the number of jumps taken. -/
structure Place where
  next : Nat
  cycle : Nat

/-- The moves that are possible, whatever operations and predicates do. -/
inductive Passage (limit : Nat) (steps : List Step) : Place → Move → Place → Prop
  | operated {p : Place} {work : Context → Work Unit}
      (here : steps[p.next]? = some (.operation work)) :
      Passage limit steps p .operated ⟨p.next + 1, p.cycle⟩
  | failed {p : Place} {work : Context → Work Unit} {e : MergeError}
      (here : steps[p.next]? = some (.operation work)) :
      Passage limit steps p (.failed e) ⟨steps.length, p.cycle⟩
  | jumped {p : Place} {target : Nat} {predicate : Predicate}
      (here : steps[p.next]? = some (.jump target predicate)) (allowed : p.cycle < limit) :
      Passage limit steps p .jumped ⟨target, p.cycle + 1⟩
  | passed {p : Place} {target : Nat} {predicate : Predicate}
      (here : steps[p.next]? = some (.jump target predicate)) :
      Passage limit steps p .passed ⟨p.next + 1, p.cycle⟩

/-- A run of a pipeline, as far as places go. -/
def Route (limit : Nat) (steps : List Step) : Place → List Move → Place → Prop :=
  Path (Passage limit steps)

/-- What a run has left at a place: the cycles before the limit, a round of steps for each of them,
and the steps ahead. -/
def Place.left (limit : Nat) (steps : List Step) (p : Place) : Nat :=
  (limit - p.cycle) * steps.length + (steps.length - p.next)

variable {limit : Nat} {steps : List Step} {p q : Place} {m : Move} {moves : List Move}

/-- **Every move uses up part of what is left.** -/
theorem Passage.left_lt (passage : Passage limit steps p m q) :
    q.left limit steps < p.left limit steps := by
  unfold Place.left
  cases passage with
  | operated here =>
      obtain ⟨inside, -⟩ := List.getElem?_eq_some_iff.mp here
      dsimp only
      omega
  | failed here =>
      obtain ⟨inside, -⟩ := List.getElem?_eq_some_iff.mp here
      dsimp only
      omega
  | @jumped target predicate here allowed =>
      -- the cycle that is given up is worth a round of all steps
      obtain ⟨inside, -⟩ := List.getElem?_eq_some_iff.mp here
      obtain ⟨cycles, more⟩ : ∃ cycles, limit - p.cycle = cycles + 1 :=
        Nat.exists_eq_add_one.mpr (Nat.sub_pos_of_lt allowed)
      have fewer : limit - (p.cycle + 1) = cycles := by omega
      dsimp only
      rw [more, fewer, Nat.add_one_mul]
      omega
  | passed here =>
      obtain ⟨inside, -⟩ := List.getElem?_eq_some_iff.mp here
      dsimp only
      omega

/-- A move starts a cycle if it is a jump, which stays within the limit. -/
theorem Passage.cycle_eq (passage : Passage limit steps p m q) :
    q.cycle = p.cycle + [m].countP (·.isJump) ∧ q.cycle ≤ max p.cycle limit := by
  cases passage with
  | operated | failed | passed => exact ⟨rfl, Nat.le_max_left _ _⟩
  | jumped here allowed => exact ⟨rfl, Nat.le_trans allowed (Nat.le_max_right _ _)⟩

/-- **What a run can do within its limit.** Together, its moves use up no more than what was left.
The number of cycles grows by one for every jump, and no jump lifts it above the limit. -/
theorem Route.within_limit (route : Route limit steps p moves q) :
    moves.length + q.left limit steps ≤ p.left limit steps ∧
      q.cycle = p.cycle + moves.countP (·.isJump) ∧ q.cycle ≤ max p.cycle limit := by
  induction route with
  | done p => exact ⟨Nat.le_of_eq (Nat.zero_add _), rfl, Nat.le_max_left _ _⟩
  | @move p q r m moves first rest ih =>
      obtain ⟨uses, cycle, bounded⟩ := ih
      obtain ⟨cycle', bounded'⟩ := first.cycle_eq
      have less := first.left_lt
      refine ⟨?_, ?_, ?_⟩
      · rw [List.length_cons]
        omega
      · rw [cycle, cycle', Nat.add_assoc, ← List.countP_append, List.singleton_append]
      · omega

/-- A run that starts anew has a round of steps left for the cycle it is in and for every cycle
before the limit. -/
theorem Place.left_start (limit : Nat) (steps : List Step) (cycle : Nat) :
    Place.left limit steps ⟨0, cycle⟩ = (limit - cycle + 1) * steps.length := by
  rw [Place.left, Nat.sub_zero, Nat.add_one_mul]

/-- **No run goes on for ever**, whatever its operations and predicates do. -/
theorem Passage.not_endless (places : Nat → Place) :
    ¬ ∀ i, ∃ m, Passage limit steps (places i) m (places (i + 1)) := by
  intro endless
  have falls (i : Nat) : (places i).left limit steps + i ≤ (places 0).left limit steps := by
    induction i with
    | zero => exact Nat.le_refl _
    | succ i ih =>
        obtain ⟨m, passage⟩ := endless i
        have less := passage.left_lt
        omega
  have too_far := falls ((places 0).left limit steps + 1)
  omega

/-! ## Positions -/

/-- A run in a session: the session, and the number of the next step. -/
structure Position where
  session : Session
  next : Nat

/-- Where a run in a session stands. -/
def Position.place (p : Position) : Place := ⟨p.next, p.session.cycle⟩

/-- The session after a look at the state, as a predicate has it. -/
def Session.looked (s : Session) (predicate : Predicate) : Session :=
  { s with state := (predicate s.state).2 }

/-- Work changes the state of a session and nothing else. -/
theorem Session.exists_state_of_perform {α : Type} {work : Context → Work α} {s s' : Session}
    (result : (∃ a, Session.perform work s = .ok a s') ∨
      ∃ e, Session.perform work s = .error e s') :
    ∃ state, s' = { s with state } := by
  unfold Session.perform at result
  cases done : work s.context s.state with
  | ok a state =>
      rw [done] at result
      obtain ⟨a', same⟩ | ⟨e, same⟩ := result
      · cases same
        exact ⟨state, rfl⟩
      · cases same
  | error e state =>
      rw [done] at result
      obtain ⟨a, same⟩ | ⟨e', same⟩ := result
      · cases same
      · cases same
        exact ⟨state, rfl⟩

/-- The moves of a run in a session. -/
inductive Position.Moves (steps : List Step) : Position → Move → Position → Prop
  | operated {p : Position} {work : Context → Work Unit} {s : Session}
      (here : steps[p.next]? = some (.operation work))
      (done : Session.perform work p.session = .ok () s) :
      Moves steps p .operated ⟨s, p.next + 1⟩
  | failed {p : Position} {work : Context → Work Unit} {e : MergeError} {s : Session}
      (here : steps[p.next]? = some (.operation work))
      (failed : Session.perform work p.session = .error e s) :
      Moves steps p (.failed e) ⟨s, steps.length⟩
  | jumped {p : Position} {target : Nat} {predicate : Predicate}
      (here : steps[p.next]? = some (.jump target predicate))
      (wanted : (predicate p.session.state).1 = true)
      (allowed : p.session.cycle < p.session.context.settings.maxCycles) :
      Moves steps p .jumped
        ⟨{ p.session.looked predicate with cycle := p.session.cycle + 1 }, target⟩
  | passed {p : Position} {target : Nat} {predicate : Predicate}
      (here : steps[p.next]? = some (.jump target predicate))
      (refused : ¬ ((predicate p.session.state).1 = true ∧
        p.session.cycle < p.session.context.settings.maxCycles)) :
      Moves steps p .passed ⟨p.session.looked predicate, p.next + 1⟩

namespace Position.Moves

variable {p q q' : Position} {m m' : Move}

/-- Moves are determined. -/
theorem determined (moves : Moves steps p m q) (moves' : Moves steps p m' q') :
    m = m' ∧ q = q' := by
  cases moves with
  | operated here done =>
      cases moves' with
      | operated here' done' =>
          cases here.symm.trans here'
          cases done.symm.trans done'
          exact ⟨rfl, rfl⟩
      | failed here' failed' =>
          cases here.symm.trans here'
          cases done.symm.trans failed'
      | jumped here' | passed here' => cases here.symm.trans here'
  | failed here failed =>
      cases moves' with
      | operated here' done' =>
          cases here.symm.trans here'
          cases failed.symm.trans done'
      | failed here' failed' =>
          cases here.symm.trans here'
          cases failed.symm.trans failed'
          exact ⟨rfl, rfl⟩
      | jumped here' | passed here' => cases here.symm.trans here'
  | jumped here wanted allowed =>
      cases moves' with
      | operated here' | failed here' => cases here.symm.trans here'
      | jumped here' =>
          cases here.symm.trans here'
          exact ⟨rfl, rfl⟩
      | passed here' refused =>
          cases here.symm.trans here'
          exact absurd ⟨wanted, allowed⟩ refused
  | passed here refused =>
      cases moves' with
      | operated here' | failed here' => cases here.symm.trans here'
      | jumped here' wanted allowed =>
          cases here.symm.trans here'
          exact absurd ⟨wanted, allowed⟩ refused
      | passed here' =>
          cases here.symm.trans here'
          exact ⟨rfl, rfl⟩

/-- Behind the last step there is no move. -/
theorem not_of_length_le (beyond : steps.length ≤ p.next) (m : Move) (q : Position) :
    ¬ Moves steps p m q := by
  have none_ := List.getElem?_eq_none beyond
  intro moves
  cases moves with
  | operated here | failed here | jumped here | passed here =>
      rw [none_] at here
      cases here

/-- As far as places go, the moves in a session are possible ones. -/
theorem passage (moves : Moves steps p m q) :
    Passage p.session.context.settings.maxCycles steps p.place m q.place ∧
      q.session.context = p.session.context := by
  cases moves with
  | operated here done =>
      obtain ⟨state, rfl⟩ := Session.exists_state_of_perform (.inl ⟨(), done⟩)
      exact ⟨.operated here, rfl⟩
  | failed here failed =>
      obtain ⟨state, rfl⟩ := Session.exists_state_of_perform (.inr ⟨_, failed⟩)
      exact ⟨.failed here, rfl⟩
  | jumped here wanted allowed => exact ⟨.jumped here allowed, rfl⟩
  | passed here refused => exact ⟨.passed here, rfl⟩

end Position.Moves

/-! ## Runs -/

/-- A run of a pipeline in a session. -/
def Takes (steps : List Step) : Position → List Move → Position → Prop :=
  Path (Position.Moves steps)

/-- **A run is a path of moves.** It leads past the last step. The log has one entry for each
operation carried out, and the run fails with what an operation failed with. -/
theorem exists_path_runFrom (b : Session) (steps : List Step) (next cycle : Nat) (s : State)
    (log : List Execution) :
    let outcome := runFrom b.context steps next cycle s log
    ∃ moves last, Takes steps ⟨{ b with state := s, cycle }, next⟩ moves
        ⟨{ b with state := outcome.state, cycle := outcome.cycle }, last⟩ ∧
      steps.length ≤ last ∧ outcome.log.length = log.length + moves.countP (·.isOperation) ∧
      ∀ e, .failed e ∈ moves ↔ outcome.failure = some e := by
  fun_induction runFrom b.context steps next cycle s log with
  | case1 next cycle s log inside work here s' done ih =>
      obtain ⟨moves, last, path, beyond, count, failed⟩ := ih
      have present := List.getElem?_eq_some_iff.mpr ⟨inside, here⟩
      refine ⟨.operated :: moves, last, .move (.operated present (Session.perform_eq done)) path,
        beyond, ?_, ?_⟩
      · rw [count, List.length_cons, List.countP_cons]
        simp only [Move.isOperation, if_true]
        omega
      · intro e
        rw [← failed e, List.mem_cons, or_iff_right nofun]
  | case2 next cycle s log inside work here e s' failed =>
      have present := List.getElem?_eq_some_iff.mpr ⟨inside, here⟩
      have stopped : Session.perform work { b with state := s, cycle } =
          .error e { b with state := s', cycle } := by
        simp only [Session.perform, failed]
      refine ⟨[.failed e], steps.length, .move (.failed present stopped) (.done _), Nat.le_refl _,
        rfl, ?_⟩
      intro e'
      rw [List.mem_singleton, Move.failed.injEq, Option.some.injEq]
      exact eq_comm
  | case3 next cycle s log inside target predicate here wanted s' look taken ih =>
      obtain ⟨moves, last, path, beyond, count, failed⟩ := ih
      have present := List.getElem?_eq_some_iff.mpr ⟨inside, here⟩
      have holds : (predicate s).1 = true := by rw [look]; exact taken.1
      obtain rfl : s' = (predicate s).2 := by rw [look]
      refine ⟨.jumped :: moves, last, .move (.jumped present holds taken.2) path, beyond, count, ?_⟩
      intro e
      rw [← failed e, List.mem_cons, or_iff_right nofun]
  | case4 next cycle s log inside target predicate here wanted s' look refused ih =>
      obtain ⟨moves, last, path, beyond, count, failed⟩ := ih
      have present := List.getElem?_eq_some_iff.mpr ⟨inside, here⟩
      obtain rfl : s' = (predicate s).2 := by rw [look]
      have stays : ¬ ((predicate s).1 = true ∧ cycle < b.context.settings.maxCycles) := by
        rw [look]
        exact refused
      refine ⟨.passed :: moves, last, .move (.passed present stays) path, beyond, count, ?_⟩
      intro e
      rw [← failed e, List.mem_cons, or_iff_right nofun]
  | case5 next cycle s log outside =>
      exact ⟨[], next, .done _, Nat.le_of_not_lt outside, rfl, fun e => ⟨nofun, nofun⟩⟩

namespace Takes

variable {p q q' : Position} {moves' : List Move}

/-- Any part of a run goes on to its end. -/
theorem continues (whole : Takes steps p moves q) (beyond : steps.length ≤ q.next)
    (part : Takes steps p moves' q') : ∃ rest, moves = moves' ++ rest ∧ Takes steps q' rest q :=
  Path.continues (fun _ _ _ _ _ first second => Position.Moves.determined first second)
    (Position.Moves.not_of_length_le beyond) whole part

/-- A run in a session is a run as far as places go. -/
theorem route (takes : Takes steps p moves q) :
    Route p.session.context.settings.maxCycles steps p.place moves q.place := by
  have located : Path (fun a m b => Passage p.session.context.settings.maxCycles steps
      a.place m b.place) p moves q := by
    generalize limited : p.session.context.settings.maxCycles = limit
    induction takes with
    | done p => exact .done p
    | move first rest ih =>
        obtain ⟨passage, context⟩ := first.passage
        exact .move (limited ▸ passage) (ih (context ▸ limited))
  exact located.map fun _ _ _ => id

end Takes

/-- **Runs end within the limit on the cycles.** Whatever jumps and predicates there are and
whatever the operations do, a run is a path of determined moves to a place behind the last step, so
it ends. On it, as many operations are carried out as the log has entries, and the number of cycles
grows by one for every jump that is taken. The operations are no more than the steps, times the
cycles that were left and the one the run began in, and no jump lifts the number of cycles above the
limit. These bounds hold as well where operations and predicates do not do the same each time. -/
theorem Session.run_ends_within_limit (s : Session) :
    let limit := s.context.settings.maxCycles
    let bound := (limit - s.cycle + 1) * s.steps.length
    let outcome := runSteps s.context s.steps s.cycle s.state
    (∃ moves last, s.steps.length ≤ last ∧
      Takes s.steps ⟨s, 0⟩ moves
        ⟨{ s with state := outcome.state, cycle := outcome.cycle }, last⟩ ∧
      (∀ moves' p, Takes s.steps ⟨s, 0⟩ moves' p → moves' <+: moves) ∧
      outcome.log.length = moves.countP (·.isOperation) ∧
      outcome.cycle = s.cycle + moves.countP (·.isJump)) ∧
    outcome.log.length ≤ bound ∧ outcome.cycle ≤ max s.cycle limit ∧
    (∀ moves p, Route limit s.steps ⟨0, s.cycle⟩ moves p →
      moves.length ≤ bound ∧ p.cycle = s.cycle + moves.countP (·.isJump) ∧
        p.cycle ≤ max s.cycle limit) ∧
    ∀ places : Nat → Place, ¬ ∀ i, ∃ m, Passage limit s.steps (places i) m (places (i + 1)) := by
  intro limit bound outcome
  have routes : ∀ moves p, Route limit s.steps ⟨0, s.cycle⟩ moves p →
      moves.length ≤ bound ∧ p.cycle = s.cycle + moves.countP (·.isJump) ∧
        p.cycle ≤ max s.cycle limit := by
    intro moves p route
    obtain ⟨uses, cycle, bounded⟩ := route.within_limit
    rw [Place.left_start] at uses
    exact ⟨Nat.le_trans (Nat.le_add_right _ _) uses, cycle, bounded⟩
  obtain ⟨moves, last, takes, beyond, count, -⟩ :=
    exists_path_runFrom s s.steps 0 s.cycle s.state []
  rw [List.length_nil, Nat.zero_add] at count
  obtain ⟨few, cycle, bounded⟩ := routes moves _ takes.route
  refine ⟨⟨moves, last, beyond, takes, ?_, count, cycle⟩, ?_, bounded, routes,
    Passage.not_endless⟩
  · intro moves' p part
    obtain ⟨rest, rfl, -⟩ := takes.continues beyond part
    exact List.prefix_append moves' rest
  · have operations : moves.countP (·.isOperation) ≤ moves.length := List.countP_le_length
    exact Nat.le_trans (Nat.le_of_eq count) (Nat.le_trans operations few)

end Namesake
