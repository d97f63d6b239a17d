import Mathlib.Data.List.Nodup
import Namesake.Proofs.Chronicle

/-! # Every confirmed method is handed over once

A merge compares the bodies of the methods it confirms, registration methods with a handler of their
own and the others in general. What a pass does with the pairs it hands over is to compare them
(`Pass.Compares`). No pair is handed over twice, whatever was asked of the session before and
however many cycles run. When a merge ends because a cycle confirmed nothing, the passes of that
cycle had all confirmed pairs before them, so none is left that was not followed up on.
-/

namespace Namesake

/-- Every confirmed pair of the two programs is marked. -/
def Partition.AllMerged {ι : Type} [KeyOrder ι] (p : Partition ι) : Prop :=
  ∀ o n, p.target? (.real o) = some n → p.IsMerged (.real o)

/-- At the end of a cycle that confirmed nothing all pairs are marked. -/
theorem Underway.allMerged {c : Context} {pool : Pool c.old.program c.new.program} {start : Ledger}
    {given : List (MethodId × MethodId)} {spare cycle : Nat} {s : State} {log : List Execution}
    (coherent : c.Coherent) (underway : Underway c pool start given spare 14 cycle s log)
    (none_ : s.changes = 0) :
    s.ledger.types.AllMerged ∧ s.ledger.methods.AllMerged ∧ s.ledger.fields.AllMerged := by
  obtain ⟨types, methods, fields⟩ := underway.quiet coherent none_
  have followed (pass : Pass) :
      pass.FollowedUp c (cycleStart start log cycle) s.ledger :=
    underway.followed pass pass.mem_all
  refine ⟨?_, ?_, ?_⟩
  · intro o n target
    rw [types] at target
    exact followed .confirmedTypes o n target
  · intro o n target
    rw [methods] at target
    exact followed .confirmedMethods o n target
  · intro o n target
    rw [fields] at target
    exact followed .confirmedFields o n target

namespace Session

/-- A pass that is asked for compares what it hands over. -/
theorem afterCall_pass_compares {c : Context} {pool : Pool c.old.program c.new.program}
    (coherent : c.Coherent) {s : Session} (about : s.context = c)
    (lawful : s.state.ledger.Lawful c pool) (pass : Pass) :
    ∃ actions, (s.afterCall (.pass pass)).state = actions.foldl (State.after c) s.state ∧
      pass.Compares c s.state.ledger actions := by
  subst about
  obtain ⟨reached, actions, done, trail, takes⟩ := pass.run_trail coherent lawful
  have ran : s.afterCall (.pass pass) = { s with state := reached } := by
    simp only [afterCall, Call.make, perform_eq done]
  rw [ran]
  exact ⟨actions, trail.eq_foldl, Pass.compares_of_takes takes⟩

/-- **Every confirmed method is handed over once.** After any calls on a new session about valid
programs, where votes are about members that exist, a merge with the usual pipeline succeeds. The
calls and the merge together hand over no method twice. What the merge hands over is compared by its
operations, and what the calls hand over by the passes they ask for. If the last look at the count
of changes found none, every confirmed pair is marked, and every confirmed pair of methods was
handed over exactly once. -/
theorem merge_hands_over_once (old : Program) (names : MappingSet) (new : Program)
    (known : MappingSet) (settings : MergeSettings) (calls : List Call)
    (validOld : old.validate = .ok ()) (validNew : new.validate = .ok ())
    (about : ∀ b, Call.vote b ∈ calls → b.IsAbout old) :
    let c := Context.of old names new settings
    let first := (start old names new known settings).withDefaultSteps
    let s := first.afterCalls calls
    let begun := (s.afterCall .seed).state.ledger
    ∃ log s', s.merge = .ok log s' ∧
      let handed := first.handedByCalls calls ++ handedIn c begun log
      (handed.map Prod.fst).Nodup ∧
      (∀ o n, (o, n) ∈ handed → s'.state.ledger.methods.target? (.real o) = some n) ∧
      (∀ e earlier, (e :: earlier) <:+ log → ∃ pass base actions,
        Pass.all[e.step]? = some pass ∧ e.state = actions.foldl (State.after c) base ∧
        base.ledger = ledgerAfter begun earlier ∧ pass.Compares c base.ledger actions) ∧
      (∀ before pass after, calls = before ++ .pass pass :: after → ∃ actions,
        let reached := first.afterCalls before
        (reached.afterCall (.pass pass)).state = actions.foldl (State.after c) reached.state ∧
        pass.Compares c reached.state.ledger actions) ∧
      ∃ latest earlier, log = latest :: earlier ∧ latest.cycle = s'.cycle ∧
        Pass.all[latest.step]? = some .collector ∧ s'.state = latest.state.takeChanges.2 ∧
        ((Predicate.changesSinceReset latest.state).1 = false →
          s'.state.ledger.types.AllMerged ∧ s'.state.ledger.methods.AllMerged ∧
          s'.state.ledger.fields.AllMerged ∧
          ∀ o n, s'.state.ledger.methods.target? (.real o) = some n → handed.count (o, n) = 1) := by
  intro c first s begun
  have coherent : c.Coherent := coherent_of_validate validOld validNew names settings
  have lawful : first.state.ledger.Lawful c (.unlimited new) :=
    start_lawful old names new known settings _
  have formed : ∀ call ∈ calls, call.IsWellFormed c (.unlimited new) := formed_of_isAbout about
  have usual : s.steps = defaultSteps := (steps_afterCalls first calls).trans rfl
  obtain ⟨context, lawful', handed'⟩ :=
    lawful_afterCalls coherent (rfl : first.context = _) lawful formed
  obtain ⟨log, s', look, merged, state, underway, -⟩ :=
    merge_default coherent context usual lawful' (handed' [] Partition.empty_handedOver)
  obtain ⟨_, _, again, -, chronicle, -⟩ := merge_chronicle coherent context usual lawful'
  cases merged.symm.trans again
  obtain ⟨earlier, ended⟩ := underway.ended
  have handed := underway.handed
  refine ⟨log, s', merged, handed.once, ?_, ?_, ?_, _, earlier, ended, rfl, rfl, state, ?_⟩
  · intro o n listed
    rw [state]
    exact (handed.mem_iff.mp listed).1
  · intro e earlier ends
    obtain ⟨pass, base, actions, here, takes, trail⟩ := (chronicle.of_suffix ends).entry
    exact ⟨pass, _, actions, here, trail.eq_foldl, rfl, Pass.compares_of_takes takes⟩
  · rintro before pass after rfl
    obtain ⟨context', reached, -⟩ := lawful_afterCalls coherent (rfl : first.context = _) lawful
      fun call member => formed call (List.mem_append_left _ member)
    exact afterCall_pass_compares coherent context' reached pass
  · intro unchanged
    have none_ : look.changes = 0 := Nat.eq_zero_of_not_pos (of_decide_eq_false unchanged)
    obtain ⟨types, methods, fields⟩ := underway.allMerged coherent none_
    rw [state]
    refine ⟨types, methods, fields, ?_⟩
    intro o n target
    apply List.count_eq_one_of_mem handed.once.of_map
    exact handed.mem_iff.mpr ⟨target, methods o n target⟩

/-- A static initializer that was handed over before a merge is not handed over by it again. -/
theorem merge_hands_over_once_of_compared :
    let old := Program.single "a" "b"
    let new := Program.single "x" "y"
    let calls : List Call := [.vote (.field ⟨0⟩ ⟨0⟩), .seed, .pass .collector,
      .pass .initializers, .pass .confirmedMethods]
    let first := (start old ∅ new ∅ .default).withDefaultSteps
    let s := first.afterCalls calls
    old.validate = .ok () ∧ new.validate = .ok () ∧ (∀ b, Call.vote b ∈ calls → b.IsAbout old) ∧
      first.handedByCalls calls = [(⟨0⟩, ⟨0⟩)] ∧
      ∃ log s', s.merge = .ok log s' ∧ ∀ n, (⟨0⟩, n) ∉
        handedIn (.of old ∅ new .default) (s.afterCall .seed).state.ledger log := by
  intro old new calls first s
  have validOld := Program.validate_single "a" "b"
  have validNew := Program.validate_single "x" "y"
  have about : ∀ b, Call.vote b ∈ calls → b.IsAbout old := by
    intro b member
    simp only [calls, List.mem_cons, Call.vote.injEq, List.not_mem_nil, or_false,
      reduceCtorEq] at member
    subst member
    decide
  have compared : first.handedByCalls calls = [(⟨0⟩, ⟨0⟩)] := by decide +kernel
  obtain ⟨log, s', merged, once, -⟩ :=
    merge_hands_over_once old ∅ new ∅ .default calls validOld validNew about
  refine ⟨validOld, validNew, about, compared, log, s', merged, ?_⟩
  intro n again
  rw [compared, List.map_append] at once
  simp only [s, first] at again
  have former : (⟨0⟩ : MethodId) ∈ [((⟨0⟩ : MethodId), (⟨0⟩ : MethodId))].map Prod.fst := by simp
  exact List.disjoint_of_nodup_append once former (List.mem_map.mpr ⟨_, again, rfl⟩)

/-- **Handlers need no memory.** A merge would hand over the same methods if the passes of
registrations skipped what they were offered before in it. -/
theorem merge_hands_over_afresh {c : Context} {pool : Pool c.old.program c.new.program}
    (coherent : c.Coherent) {s : Session} (about : s.context = c) (usual : s.steps = defaultSteps)
    (lawful : s.state.ledger.Lawful c pool) {given : List (MethodId × MethodId)}
    (handed : s.state.ledger.methods.HandedOver given) :
    ∃ log s', s.merge = .ok log s' ∧
      handedAfresh c (s.afterCall .seed).state.ledger log =
        handedIn c (s.afterCall .seed).state.ledger log := by
  obtain ⟨log, s', look, merged, -, underway, -⟩ :=
    merge_default coherent about usual lawful handed
  exact ⟨log, s', merged, underway.afresh⟩

end Session

end Namesake
