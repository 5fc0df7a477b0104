import Milp.Call.Method
import Milp.Proofs.Engine.Forgetting
import Milp.Proofs.Store.Solving
import Milp.Proofs.Store.Sound

/-!
# Solves do not depend on earlier ones

After any runs of `solve`, however they ended, a solver solves like one that `newSolver` just made
and that was given the same parameters and hooks (`FreshCopy`): the engine is told the same, and the
same comes of it. The two remember the same of the solve, unless it was broken off before the solver
forgot the last one.
-/

namespace Milp.Store

open Milp.Action

section

variable {b : Backend} {i j : Nat} {s s' : Store} {K ν : Type}

/-! ## Solvers -/

/-- A solver of the backend `b` whose members are its own: none was replaced or added. -/
structure Unextended (b : Backend) (i : Nat) (s : Store) : Prop where
  present : i < s.solvers.length
  backend : (s.solver i).backend = b
  parameters : (s.solver i).parameters < s.dicts.length
  extras : ∀ name, s.extra? (.object ⟨.solver b, i⟩) name = none

theorem Unextended.of_bare (present : i < s.solvers.length) (backend : (s.solver i).backend = b)
    (parameters : (s.solver i).parameters < s.dicts.length) (bare : s.extras = []) :
    Unextended b i s :=
  ⟨present, backend, parameters, by simp [extra?, bare]⟩

/-- A solver with no `lastStatus` and an empty `lastHistory`. -/
structure Fresh (b : Backend) (i : Nat) (s : Store) : Prop extends Unextended b i s where
  status : (s.solver i).lastStatus = .none
  history : ∃ l, (s.solver i).lastHistory = .object ⟨.list, l⟩ ∧ s.lists[l]? = some []

/-- The solver `j` is `Fresh`, and has the name, parameters and hooks of the solver `i`. -/
structure FreshCopy (b : Backend) (i j : Nat) (s : Store) : Prop where
  apart : i ≠ j
  used : Unextended b i s
  fresh : Fresh b j s
  name : (s.solver j).name = (s.solver i).name
  parameters : s.dict (s.solver j).parameters = s.dict (s.solver i).parameters
  hooks : (s.solver j).hooks = (s.solver i).hooks

/-- `newSolver` makes a solver without any memory. -/
theorem runOn_newSolver (b : Backend) (name : Value) (s : Logged Store) :
    (newSolver b name).runOn s = (.ok (.object ⟨.solver b, s.state.solvers.length⟩),
      { s with state := { s.state with
        dicts := s.state.dicts ++ [.empty]
        lists := s.state.lists ++ [[]]
        solvers := s.state.solvers ++ [⟨b, name, s.state.dicts.length, [], .none,
          .object ⟨.list, s.state.lists.length⟩⟩] } }) := rfl

/-- The solver that `newSolver` makes is `Fresh`. -/
theorem fresh_newSolver {name : Value}
    (made : ((newSolver b name).perform s).1 = .ok (.object ⟨.solver b, i⟩))
    (extras : ∀ name, s.extra? (.object ⟨.solver b, i⟩) name = none) :
    Fresh b i ((newSolver b name).perform s).2.state := by
  rw [perform, runOn_newSolver] at made ⊢
  obtain rfl : s.solvers.length = i := by simpa using made
  exact ⟨⟨by simp, by simp [solver], by simp [solver], extras⟩, by simp [solver],
    s.lists.length, by simp [solver], by simp⟩

theorem FreshCopy.viewSolver (h : FreshCopy b i j s) :
    s.viewSolver j = { s.viewSolver i with lastStatus := .none } := by
  simp only [Store.viewSolver, h.fresh.backend, h.used.backend, h.name, h.parameters, h.hooks,
    h.fresh.status]

/-! ## What two solvers remember -/

/-- Two runs of `solve` ended in the same way, with the same notes, and left the same store but for
solvers. -/
structure SameOutcome (run run' : Except Fault (Solved ν) × Logged Store) : Prop where
  solved : run'.1 = run.1
  notes : run'.2.log = run.2.log
  store : { run'.2.state with solvers := run.2.state.solvers } = run.2.state

/-- Two solvers have the same `lastStatus`, and for CP-SAT the same `lastHistory`. -/
structure SameMemory (b : Backend) (i j : Nat) (s s' : Store) : Prop where
  status : (s'.solver j).lastStatus = (s.solver i).lastStatus
  history : b = .cpsat → (s'.solver j).lastHistory = (s.solver i).lastHistory

/-- A run of `solve` was broken off and left its solver as it was. -/
structure Unsolved (i : Nat) (s : Store) (run : Except Fault (Solved ν) × Logged Store) : Prop where
  fault : ∃ f, run.1 = .ok ⟨.error f, []⟩
  solver : run.2.state.solver i = s.solver i

/-- What comes of `solve` by the used solver `i` and by the fresh one `j`: the same outcome; the
same memory, where `approach` ends well; and no change of either solver, where it does not. -/
structure SolvesAlike (b : Backend) (i j : Nat) (s : Store) (ready : Except Fault Unit)
    (run run' : Except Fault (Solved ν) × Logged Store) : Prop where
  same : SameOutcome run run'
  unsolved : ∀ f, ready = .error f → Unsolved i s run ∧ Unsolved j s run'
  solved : ready = .ok () → SameMemory b i j run.2.state run'.2.state

theorem solver_modify (present : i < s.solvers.length) (t : Store)
    (f : SolverObject → SolverObject) :
    ({ t with solvers := s.solvers.modify i f } : Store).solver i = f (s.solver i) := by
  simp [solver, present]

theorem solver_remembering (t : Store) :
    ({ t with
      solvers := s.solvers.modify i (remembering (s.solver i).lastStatus .none) } : Store).solver i =
      s.solver i := by
  cases h : s.solvers[i]? <;> simp [solver, h, remembering]

/-- `runSession` ends alike where the session does not depend on the status that it starts with
(`Session.Forgets`). -/
theorem solvesAlike_runSession (present : i < s.solvers.length) (present' : j < s.solvers.length)
    (forgotten : (s.solver j).lastStatus = .none) {x : Solver}
    (status : x.lastStatus = (s.solver i).lastStatus) {ready : Except Fault Unit}
    {run : Action (Session ν) (Option (Solution K))} (forgets : Session.Forgets b ready run)
    (problem : Value) (value : K → Value) (log : List Message) :
    SolvesAlike b i j s ready
      ((runSession ⟨.solver b, i⟩ x problem value run).runOn ⟨s, log⟩)
      ((runSession ⟨.solver b, j⟩ { x with lastStatus := .none } problem value run).runOn
        ⟨s, log⟩) := by
  cases ready with
  | error f =>
      obtain ⟨notes, same⟩ := forgets []
      rw [runOn_runSession _ x problem value (same x.lastStatus),
        runOn_runSession _ { x with lastStatus := .none } problem value (same .none)]
      refine ⟨⟨rfl, rfl, rfl⟩, fun _ _ => ⟨⟨⟨f, rfl⟩, ?_⟩, ⟨f, rfl⟩, ?_⟩, nofun⟩
      · rw [status]
        exact solver_remembering _
      · rw [← forgotten]
        exact solver_remembering _
  | ok u =>
      obtain ⟨⟨answer, session, notes⟩, recorded, same⟩ := forgets []
      rw [runOn_runSession _ x problem value (same x.lastStatus),
        runOn_runSession _ { x with lastStatus := .none } problem value (same .none)]
      refine ⟨⟨rfl, rfl, rfl⟩, nofun, fun _ => ⟨?_, fun cuts => ?_⟩⟩
      · dsimp only
        rw [solver_modify present, solver_modify present']
        rfl
      · obtain ⟨ns, history⟩ := Option.isSome_iff_exists.mp (recorded cuts)
        have history : session.history = some ns := history
        dsimp only
        rw [solver_modify present, solver_modify present', history]
        rfl

/-! ## Before the engine is asked -/

/-- What `solve` does up to where its solver forgets the last one: `prepare`, `checkProblem`, and
the settings. -/
def approach (solver : Ref) (problem : Value) : Action Store Unit := do
  let x := (← Action.read).viewSolver solver.id
  prepare solver x problem
  match ← attempt (checkProblem x.backend problem) with
  | .error _ => .ofExcept x.settled
  | .ok _ => .ofExcept (x.ready ((← Action.read).problemOf problem))

theorem runOn_approach (solver : Ref) (problem : Value) (s : Logged Store) :
    (approach solver problem).runOn s =
      let x := s.state.viewSolver solver.id
      match (prepare solver x problem).runOn s with
      | (.error f, t) => (.error f, t)
      | (.ok _, t) =>
        match (checkProblem x.backend problem).runOn t with
        | (.error _, t') => (x.settled, t')
        | (.ok _, t') => (x.ready (t'.state.problemOf problem), t') := by
  unfold approach
  rw [runOn_bind, runOn_read]
  dsimp only
  rw [runOn_bind]
  rcases (prepare solver (s.state.viewSolver solver.id) problem).runOn s with ⟨f | u, t⟩
  · rfl
  · dsimp only
    rw [runOn_bind, runOn_attempt]
    rcases (checkProblem (s.state.viewSolver solver.id).backend problem).runOn t with ⟨f | u, t'⟩
    · rfl
    · rfl

/-- `prepare` does not depend on which solver it is for. -/
theorem runOn_prepare_congr {solver solver' : Ref} {s : Logged Store}
    (plain : s.state.extra? (.object solver) "freeze" = none)
    (plain' : s.state.extra? (.object solver') "freeze" = none) (x : Solver) (problem : Value) :
    (prepare solver x problem).runOn s = (prepare solver' x problem).runOn s := by
  have known {solver : Ref} (plain : s.state.extra? (.object solver) "freeze" = none)
      {t : Logged Store} (same : t.state.extras = s.state.extras) :
      (checkSettings solver).runOn t = (.ok (), t) := by
    have plain : t.state.extra? (.object solver) "freeze" = none := by rw [extra?, same]; exact plain
    rw [checkSettings, runOn_bind, runOn_read]
    simp only [refusal?, plain]
    rfl
  have both {t : Logged Store} (same : t.state.extras = s.state.extras) :
      (checkSettings solver).runOn t = (checkSettings solver').runOn t :=
    (known plain same).trans (known plain' same).symm
  rw [prepare_eq, prepare_eq]
  by_cases cuts : x.backend = .cpsat
  · rw [if_pos cuts, if_pos cuts]
    refine runOn_bind_congr fun _ t ht => runOn_bind_congr fun _ t' ht' => both ?_
    have growing := growing_keepsSolvers
    have kept := (growing.keeps_raising (growing.keeps_checkBoolean _ _)).of_runOn ht
    have kept' := (growing.keeps_raising (growing.keeps_checkWhole _ _)).of_runOn ht'
    exact kept'.extras.trans kept.extras
  · rw [if_neg cuts, if_neg cuts]
    exact both rfl

/-! ## Two solvers -/

theorem KeepsSolvers.solver {t : Store} (h : KeepsSolvers s t) (k : Nat) :
    t.solver k = s.solver k := by
  rw [Store.solver, h.solvers]
  rfl

theorem SolvesAlike.of_keepsSolvers {t : Store} {ready : Except Fault Unit}
    {run run' : Except Fault (Solved ν) × Logged Store} (kept : KeepsSolvers s t)
    (h : SolvesAlike b i j t ready run run') : SolvesAlike b i j s ready run run' := by
  refine ⟨h.same, fun f hf => ?_, h.solved⟩
  obtain ⟨first, second⟩ := h.unsolved f hf
  exact ⟨⟨first.fault, first.solver.trans (kept.solver i)⟩,
    ⟨second.fault, second.solver.trans (kept.solver j)⟩⟩

/-- A solver and a `FreshCopy` of it solve alike. -/
theorem FreshCopy.solvesAlike (h : FreshCopy b i j s) {way : Way K ν} (adapter : Adapter b way)
    (problem : Value) :
    SolvesAlike b i j s ((approach ⟨.solver b, i⟩ problem).perform s).1
      ((solve way ⟨.solver b, i⟩ problem).perform s)
      ((solve way ⟨.solver b, j⟩ problem).perform s) := by
  have own : (s.viewSolver i).backend = b := h.used.backend
  simp only [perform]
  rw [runOn_approach, runOn_solve (h.used.extras _), runOn_solve (h.fresh.extras _)]
  dsimp only
  rw [h.viewSolver]
  have prepared := runOn_prepare_congr (s := ⟨s, []⟩) (h.fresh.extras "freeze")
    (h.used.extras "freeze") (s.viewSolver i) problem
  change (prepare ⟨.solver b, j⟩ { s.viewSolver i with lastStatus := .none } problem).runOn ⟨s, []⟩ =
    _ at prepared
  rw [prepared]
  rcases hp : (prepare ⟨.solver b, i⟩ (s.viewSolver i) problem).runOn ⟨s, []⟩ with ⟨f | u, t⟩
  · have kept := (growing_keepsSolvers.keeps_prepare _ _ _).of_runOn hp
    exact ⟨⟨rfl, rfl, rfl⟩, fun _ _ => ⟨⟨⟨f, rfl⟩, kept.solver i⟩, ⟨f, rfl⟩, kept.solver j⟩, nofun⟩
  · dsimp only
    rcases hc : (checkProblem (s.viewSolver i).backend problem).runOn t with ⟨f | u, t'⟩
    all_goals
      have kept : KeepsSolvers s t'.state := growing_keepsSolvers.rel_of_checks hp hc
      have present : i < t'.state.solvers.length := kept.solvers ▸ h.used.present
      have present' : j < t'.state.solvers.length := kept.solvers ▸ h.fresh.present
      have forgotten : (t'.state.solver j).lastStatus = .none := kept.solver j ▸ h.fresh.status
      have status : (s.viewSolver i).lastStatus = (t'.state.solver i).lastStatus := by
        rw [kept.solver i]
        rfl
      refine SolvesAlike.of_keepsSolvers kept ?_
      dsimp only
    · rw [adapter.breakOff_status (s.viewSolver i) .none]
      exact solvesAlike_runSession present present' forgotten status (adapter.forgets_breakOff own f)
        problem way.value t'.log
    · rw [adapter.solve_status (s.viewSolver i) .none]
      exact solvesAlike_runSession present present' forgotten status (adapter.forgets_solve own _)
        problem way.value t'.log

/-! ## Earlier solves -/

/-- Between two stores, a solver has another status and history at most; parameters and other
solvers are as they were. -/
structure Remembers (i : Nat) (s s' : Store) : Prop where
  lists : s.lists <+: s'.lists
  dicts : s.dicts <+: s'.dicts
  extras : s'.extras = s.extras
  count : s'.solvers.length = s.solvers.length
  own : ∃ status history, s'.solver i = remembering status history (s.solver i)
  others : ∀ k, k ≠ i → s'.solver k = s.solver k

theorem KeepsSolvers.remembers (h : KeepsSolvers s s') : Remembers i s s' :=
  ⟨h.lists, h.dicts, h.extras, by rw [h.solvers], ⟨_, .none, h.solver i⟩, fun k _ => h.solver k⟩

theorem remembers_runSession {t : Store} (before : KeepsSolvers s t) (present : i < s.solvers.length)
    (x : Solver) (problem : Value) (value : K → Value)
    (run : Action (Session ν) (Option (Solution K))) (log : List Message) :
    Remembers i s ((runSession ⟨.solver b, i⟩ x problem value run).runOn ⟨t, log⟩).2.state := by
  rcases h : run.perform (.start x) with ⟨answer, session, notes⟩
  rw [runOn_runSession _ x problem value h]
  have made := keeps_makeResult value problem answer growing_keepsSolvers
    ⟨t.afterSession session.history session.hookCalls, log ++ notes⟩
  have kept : KeepsSolvers s _ :=
    IsTrans.trans _ _ _ before (IsTrans.trans _ _ _ (keepsSolvers_afterSession t _ _) made)
  dsimp only
  rw [before.solvers]
  refine ⟨kept.lists, kept.dicts, kept.extras, List.length_modify .., ?_, fun k other => ?_⟩
  · exact ⟨_, _, solver_modify present _ _⟩
  · simp [solver, Ne.symm other]

/-- `solve` changes no more of solvers than what its own one remembers, however it ends. -/
theorem remembers_solve (h : Unextended b i s) (way : Way K ν) (problem : Value) :
    Remembers i s ((solve way ⟨.solver b, i⟩ problem).perform s).2.state := by
  rw [perform, runOn_solve (h.extras "solve")]
  dsimp only
  rcases hp : (prepare ⟨.solver b, i⟩ (s.viewSolver i) problem).runOn ⟨s, []⟩ with ⟨f | u, t⟩
  · exact KeepsSolvers.remembers ((growing_keepsSolvers.keeps_prepare _ _ _).of_runOn hp)
  · dsimp only
    rcases hc : (checkProblem (s.viewSolver i).backend problem).runOn t with ⟨f | u, t'⟩
    all_goals
      have kept : KeepsSolvers s t'.state := growing_keepsSolvers.rel_of_checks hp hc
      exact remembers_runSession kept h.present _ _ _ _ t'.log

theorem dict_eq_of_prefix (dicts : s.dicts <+: s'.dicts) {d : Nat} (hd : d < s.dicts.length) :
    s'.dict d = s.dict d := by
  rw [dict, dict, getElem?_mono dicts (List.getElem?_eq_getElem hd), List.getElem?_eq_getElem hd]

/-- A `FreshCopy` stays one when the solver that it is a copy of remembers something else. -/
theorem FreshCopy.of_remembers (h : FreshCopy b i j s) (remembers : Remembers i s s') :
    FreshCopy b i j s' := by
  obtain ⟨status, history, own⟩ := remembers.own
  have other := remembers.others j h.apart.symm
  have extras {k : Nat} (plain : Unextended b k s) (name : String) :
      s'.extra? (.object ⟨.solver b, k⟩) name = none := by
    rw [extra?, remembers.extras]
    exact plain.extras name
  have used : Unextended b i s' :=
    ⟨remembers.count ▸ h.used.present, own ▸ h.used.backend,
      own ▸ h.used.parameters.trans_le remembers.dicts.length_le, extras h.used⟩
  have plain : Unextended b j s' :=
    ⟨remembers.count ▸ h.fresh.present, other ▸ h.fresh.backend,
      other ▸ h.fresh.parameters.trans_le remembers.dicts.length_le, extras h.fresh.toUnextended⟩
  obtain ⟨l, hl, empty⟩ := h.fresh.history
  have first : s'.dict (s'.solver i).parameters = s.dict (s.solver i).parameters := by
    rw [own]
    exact dict_eq_of_prefix remembers.dicts h.used.parameters
  have second : s'.dict (s'.solver j).parameters = s.dict (s.solver j).parameters := by
    rw [other]
    exact dict_eq_of_prefix remembers.dicts h.fresh.parameters
  refine ⟨h.apart, used, ⟨plain, other ▸ h.fresh.status, l, other ▸ hl, ?_⟩, ?_, ?_, ?_⟩
  · exact getElem?_mono remembers.lists empty
  · rw [own, other]
    exact h.name
  · rw [first, second, h.parameters]
  · rw [own, other]
    exact h.hooks

/-- The store after some runs of `solve` by one solver, with any engines and problems. -/
inductive Solves (b : Backend) (i : Nat) (s : Store) : Store → Prop
  | start : Solves b i s s
  | solve {t : Store} {K ν : Type} (h : Solves b i s t) (way : Way K ν) (problem : Value) :
      Solves b i s ((Store.solve way ⟨.solver b, i⟩ problem).perform t).2.state

theorem FreshCopy.of_solves (h : FreshCopy b i j s) (solves : Solves b i s s') :
    FreshCopy b i j s' := by
  induction solves with
  | start => exact h
  | solve _ way problem copy =>
      exact copy.of_remembers (remembers_solve copy.used way problem)

/-- After any runs of `solve` (`Solves`), a `FreshCopy` of the solver is still one, and the two
solve alike. -/
theorem FreshCopy.independent (h : FreshCopy b i j s) (solves : Solves b i s s') {way : Way K ν}
    (adapter : Adapter b way) (problem : Value) :
    FreshCopy b i j s' ∧
      SolvesAlike b i j s' ((approach ⟨.solver b, i⟩ problem).perform s').1
        ((solve way ⟨.solver b, i⟩ problem).perform s')
        ((solve way ⟨.solver b, j⟩ problem).perform s') :=
  ⟨h.of_solves solves, (h.of_solves solves).solvesAlike adapter problem⟩

end

/-! ## A solver that keeps an old status -/

/-- Two solvers that were just made, a decision, and a whole number without any constraints. -/
def workshop : Store :=
  let nothing : Environment := ⟨fun _ => false, fun _ => false, fun _ => .ok false, fun _ => none⟩
  let x : Value := .text "x"
  let made := do
    let decision ← newProblem
    let _ ← callMethod nothing decision "set_objective" ⟨[.tuple [.term x (.int 1)], .text "max"], []⟩
    let _ ← callMethod nothing decision "set_var_type" ⟨[x, .type .bool], []⟩
    let count ← newProblem
    let _ ← callMethod nothing count "set_var_type" ⟨[x, .type .int], []⟩
    let _ ← newSolver .cpsat (.text "cpsat")
    newSolver .cpsat (.text "cpsat")
  (made.perform .empty).2.state

theorem solvers_workshop : workshop.solvers =
    [⟨.cpsat, .text "cpsat", 0, [], .none, .object ⟨.list, 2⟩⟩,
      ⟨.cpsat, .text "cpsat", 1, [], .none, .object ⟨.list, 3⟩⟩] := by
  with_unfolding_all rfl

theorem freshCopy_workshop : FreshCopy .cpsat 0 1 workshop := by
  have first : workshop.solver 0 =
      ⟨.cpsat, .text "cpsat", 0, [], .none, .object ⟨.list, 2⟩⟩ := by simp [solver, solvers_workshop]
  have second : workshop.solver 1 =
      ⟨.cpsat, .text "cpsat", 1, [], .none, .object ⟨.list, 3⟩⟩ := by simp [solver, solvers_workshop]
  have dicts : workshop.dicts = [.empty, .empty] := by with_unfolding_all rfl
  have lists : workshop.lists[3]? = some [] := by with_unfolding_all rfl
  have extras : workshop.extras = [] := by with_unfolding_all rfl
  refine ⟨Nat.zero_ne_one, ⟨?_, ?_, ?_, ?_⟩, ⟨⟨?_, ?_, ?_, ?_⟩, ?_, 3, ?_, lists⟩, ?_, ?_, ?_⟩ <;>
    simp [solvers_workshop, first, second, dicts, extras, extra?, dict]

/-- CP-SAT takes the decision, and finds nothing better. -/
def trade : Way Float CpSat.Question :=
  let engine := CpSat.Engine.replaying [⟨.optimal, [true], ""⟩] fun _ _ => .ok ()
  .atOnce .real (CpSat.solve engine (fun _ _ m => (m, none)) (fun _ => 0.0) 3)

/-- The workshop after the first solver has taken the decision. -/
def worked : Store :=
  ((solve trade ⟨.solver .cpsat, 0⟩ (.object ⟨.problem, 0⟩)).perform workshop).2.state

theorem eq_optimal_of_matches {v : Value} (h : v matches .symbol (.status .optimal)) :
    v = .symbol (.status .optimal) := by
  split at h
  · rfl
  · cases h

theorem lastStatus_worked : (worked.solver 0).lastStatus = .symbol (.status .optimal) :=
  eq_optimal_of_matches (by decide +kernel)

/-- A solver that cannot solve a problem is still said to have found an optimum, when it has found
one before; one that was just made is not. -/
theorem independent_workshop :
    let run (i : Nat) := (solve trade ⟨.solver .cpsat, i⟩ (.object ⟨.problem, 1⟩)).perform worked
    FreshCopy .cpsat 0 1 workshop ∧ Solves .cpsat 0 workshop worked ∧ SameOutcome (run 0) (run 1) ∧
      (∃ f, (run 0).1 = .ok ⟨.error f, []⟩) ∧
      ((run 0).2.state.solver 0).lastStatus = .symbol (.status .optimal) ∧
      ((run 1).2.state.solver 1).lastStatus = .none := by
  intro run
  have solves : Solves .cpsat 0 workshop worked := .solve .start trade _
  have adapter : Adapter .cpsat trade := .cpsat _ _ _ _ _
  obtain ⟨copy, alike⟩ := freshCopy_workshop.independent solves adapter (.object ⟨.problem, 1⟩)
  have refused : ((approach ⟨.solver .cpsat, 0⟩ (.object ⟨.problem, 1⟩)).perform worked).1.toBool =
      false := by decide +kernel
  obtain ⟨f, hf⟩ : ∃ f, ((approach ⟨.solver .cpsat, 0⟩ (.object ⟨.problem, 1⟩)).perform worked).1 =
      .error f := by
    cases h : ((approach ⟨.solver .cpsat, 0⟩ (.object ⟨.problem, 1⟩)).perform worked).1 with
    | error f => exact ⟨f, rfl⟩
    | ok u => rw [h] at refused; cases refused
  obtain ⟨first, second⟩ := alike.unsolved f hf
  have kept := congrArg SolverObject.lastStatus first.solver
  have forgotten := congrArg SolverObject.lastStatus second.solver
  rw [lastStatus_worked] at kept
  rw [copy.fresh.status] at forgotten
  dsimp only [run]
  exact ⟨freshCopy_workshop, solves, alike.same, first.fault, kept, forgotten⟩

end Milp.Store
