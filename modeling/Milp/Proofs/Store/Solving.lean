import Milp.Proofs.Store.IgnoresSolvers

/-!
# The course of a solve

What a solve does to the store: what it looks at before the engine is asked, what it takes over from
the session, and what it makes of a solution. All it changes in a solver is what the solver remembers
of its last solve.
-/

namespace Milp.Store

open Milp.Action

section

variable {K ν : Type}

/-! ## Leaving a session -/

/-- A solver after a session, which has begun a history or not. -/
def remembering (status : Value) (history : Option Value) (x : SolverObject) : SolverObject :=
  { x with lastStatus := status, lastHistory := history.getD x.lastHistory }

/-- The columns that a hook was given, with its name. -/
def hookRecord? (s : Store) (call : Value × Index) : Option (String × List (Value × Value)) :=
  match call.1 with
  | .object ⟨.hook, id⟩ => some ((s.hook id).name, call.2.entries.map fun e => (e.1, .int e.2))
  | _ => none

/-- The store with what a session leaves besides what its solver remembers. -/
def afterSession (s : Store) (history : Option (List Int)) (calls : List (Value × Index)) : Store :=
  { s with
    lists := s.lists ++ (history.map (·.map Value.int)).toList
    hookCalls := s.hookCalls ++ calls.filterMap s.hookRecord? }

/-- The history that a session has begun is the newest list. -/
def newestList (s : Store) (history : Option (List Int)) : Option Value :=
  history.map fun _ => .object ⟨.list, s.lists.length⟩

theorem keepsSolvers_afterSession (s : Store) (history : Option (List Int))
    (calls : List (Value × Index)) : KeepsSolvers s (s.afterSession history calls) :=
  ⟨List.prefix_append _ _, List.prefix_refl _, rfl, rfl⟩

theorem distinguishAll_ints (ns : List Int) (s : Logged Store) :
    (distinguishAll (ns.map .int)).runOn s = (.ok (ns.map .int), s) := by
  induction ns with
  | nil => rfl
  | cons n ns ih =>
      change (do
        let v ← distinguish (.int n)
        let vs ← distinguishAll (ns.map .int)
        pure (v :: vs) : Action Store (List Value)).runOn s = _
      rw [runOn_bind]
      change (distinguishAll (ns.map .int) >>= fun vs => pure (Value.int n :: vs)).runOn s = _
      rw [runOn_bind, ih]
      rfl

/-- Whole numbers need not be told apart, so a list of them is as it was given. -/
theorem runOn_newList_ints (ns : List Int) (s : Logged Store) :
    (newList (ns.map .int)).runOn s = (.ok (.object ⟨.list, s.state.lists.length⟩),
      { s with state := { s.state with lists := s.state.lists ++ [ns.map .int] } }) := by
  unfold newList
  rw [runOn_bind, distinguishAll_ints]
  rfl

def recordHook (call : Value × Index) : Action Store Unit :=
  match call.1 with
  | .object ⟨.hook, id⟩ => do
    recordHookCall ((← Action.read).hook id).name (call.2.entries.map fun e => (e.1, .int e.2))
  | _ => pure ()

theorem runOn_recordHook (call : Value × Index) (s : Logged Store) :
    (recordHook call).runOn s = (.ok (), { s with state := { s.state with
      hookCalls := s.state.hookCalls ++ (s.state.hookRecord? call).toList } }) := by
  unfold recordHook hookRecord?
  split
  · rfl
  · rw [Option.toList_none, List.append_nil]
    rfl

theorem runOn_recordHooks (calls : List (Value × Index)) (s : Logged Store) :
    (calls.forM recordHook).runOn s = (.ok (), { s with state := { s.state with
      hookCalls := s.state.hookCalls ++ calls.filterMap s.state.hookRecord? } }) := by
  induction calls generalizing s with
  | nil => simp
  | cons call calls ih =>
      change (recordHook call >>= fun _ => calls.forM recordHook).runOn s = _
      rw [runOn_bind, runOn_recordHook]
      refine (ih _).trans ?_
      have more : (s.state.hookRecord? call).toList ++ calls.filterMap s.state.hookRecord? =
          (call :: calls).filterMap s.state.hookRecord? := by
        cases h : s.state.hookRecord? call <;> simp [h]
      rw [← more, ← List.append_assoc]
      rfl

theorem leaveSession_eq (i : Nat) (session : Session ν) : leaveSession i session = (do
    changeSolver i fun x => { x with lastStatus := session.status }
    match session.history with
    | some history =>
      let history ← newList (history.map .int)
      changeSolver i fun x => { x with lastHistory := history }
    | none => pure ()
    session.hookCalls.forM recordHook) := by
  rfl

theorem runOn_leaveSession (i : Nat) (session : Session ν) (s : Logged Store) :
    (leaveSession i session).runOn s =
      (.ok (), ⟨{ s.state.afterSession session.history session.hookCalls with
        solvers := s.state.solvers.modify i
          (remembering session.status (s.state.newestList session.history)) }, s.log⟩) := by
  rw [leaveSession_eq, runOn_bind]
  cases history : session.history with
  | none =>
      change (session.hookCalls.forM recordHook).runOn _ = _
      rw [runOn_recordHooks]
      simp only [afterSession, newestList, Option.map_none, Option.toList_none, List.append_nil]
      rfl
  | some ns =>
      change (newList (ns.map .int) >>= fun h => changeSolver i (fun x => { x with lastHistory := h })
        >>= fun _ => session.hookCalls.forM recordHook).runOn _ = _
      rw [runOn_bind, runOn_newList_ints]
      change (session.hookCalls.forM recordHook).runOn _ = _
      rw [runOn_recordHooks]
      have both : (s.state.solvers.modify i fun x => { x with lastStatus := session.status }).modify i
          (fun x => { x with lastHistory := .object ⟨.list, s.state.lists.length⟩ }) =
          s.state.solvers.modify i
            (remembering session.status (s.state.newestList (some ns))) :=
        List.modify_modify_eq _ _ i s.state.solvers
      rw [← both]
      rfl

/-! ## After the engine was asked -/

/-- What `solve` makes of the answer of a session: a result, nothing, or a fault. -/
def makeResult (value : K → Value) (problem : Value)
    (answer : Except Fault (Option (Solution K))) : Action Store Value := do
  match ← Action.ofExcept answer with
  | none => return .none
  | some solution => resultOf value ((← Action.read).objectiveIn problem) solution

section

variable (value : K → Value) (problem : Value) (answer : Except Fault (Option (Solution K)))

theorem ignoresSolvers_makeResult : IgnoresSolvers (makeResult value problem answer) := by
  refine (incidental_ignoresSolvers.ofExcept answer).bind fun x => ?_
  cases x with
  | none => exact ignoresSolvers_pure _
  | some solution => exact ignoresSolvers_look (fun _ _ => rfl) fun _ => ignoresSolvers_resultOf _ _ _

theorem keeps_makeResult {R : Store → Store → Prop} [Std.Refl R] [IsTrans Store R] (h : Growing R) :
    Keeps R (makeResult value problem answer) := by
  refine (keeps_ofExcept answer).bind fun x => ?_
  cases x with
  | none => exact keeps_pure _
  | some solution => exact keeps_read.bind fun _ => h.keeps_resultOf _ _ _

/-- Of a fault no result is made. -/
theorem runOn_makeResult_error (f : Fault) (s : Logged Store) :
    (makeResult value problem (.error f)).runOn s = (.error f, s) := rfl

end

/-- `runSession` leaves the status and history of the session with the solver, and makes a result of
its answer. -/
theorem runOn_runSession (solver : Ref) (x : Solver) (problem : Value) (value : K → Value)
    {run : Action (Session ν) (Option (Solution K))} {answer : Except Fault (Option (Solution K))}
    {session : Session ν} {notes : List Message}
    (h : run.perform (.start x) = (answer, ⟨session, notes⟩)) (s : Logged Store) :
    (runSession solver x problem value run).runOn s =
      let made := (makeResult value problem answer).runOn
        ⟨s.state.afterSession session.history session.hookCalls, s.log ++ notes⟩
      (.ok ⟨made.1, session.tellings⟩, ⟨{ made.2.state with
        solvers := s.state.solvers.modify solver.id
          (remembering session.status (s.state.newestList session.history)) }, made.2.log⟩) := by
  have course : runSession solver x problem value run = (do
      leaveSession solver.id session
      .noteAll notes
      let answer ← attempt (makeResult value problem answer)
      return ⟨answer, session.tellings⟩) := by
    unfold runSession
    rw [h]
    rfl
  rw [course, runOn_bind, runOn_leaveSession]
  dsimp only
  rw [runOn_bind, runOn_noteAll]
  dsimp only
  rw [runOn_bind, runOn_attempt]
  rw [ignoresSolvers_makeResult value problem answer
    ⟨s.state.afterSession session.history session.hookCalls, s.log ++ notes⟩]
  rfl

/-! ## The whole course -/

/-- `solve` goes through `prepare` and `checkProblem` to `runSession`, when its solver was given
nothing else in its place. -/
theorem runOn_solve {way : Way K ν} {solver : Ref} {s : Logged Store}
    (own : s.state.extra? (.object solver) "solve" = none) (problem : Value) :
    (solve way solver problem).runOn s =
      let x := s.state.viewSolver solver.id
      match (prepare solver x problem).runOn s with
      | (.error f, t) => (.ok ⟨.error f, []⟩, t)
      | (.ok _, t) =>
        match (checkProblem x.backend problem).runOn t with
        | (.error f, t') => (runSession solver x problem way.value (way.breakOff x f)).runOn t'
        | (.ok _, t') =>
          (runSession solver x problem way.value
            (way.solve x (t'.state.problemOf problem))).runOn t' := by
  unfold solve
  rw [runOn_bind, runOn_read]
  dsimp only
  rw [own]
  dsimp only
  rw [runOn_bind, runOn_read]
  dsimp only
  rw [runOn_bind, runOn_attempt]
  rcases (prepare solver (s.state.viewSolver solver.id) problem).runOn s with ⟨f | u, t⟩
  · rfl
  · dsimp only
    rw [runOn_bind, runOn_attempt]
    rcases (checkProblem (s.state.viewSolver solver.id).backend problem).runOn t with ⟨f | u, t'⟩
    · rfl
    · rfl

end

end Milp.Store
