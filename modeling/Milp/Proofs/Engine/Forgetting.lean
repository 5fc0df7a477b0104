import Milp.Engine.Gurobi
import Milp.Engine.Highs
import Milp.Engine.Pyomo
import Milp.Engine.Scipy
import Milp.Proofs.CutLoop.Frame
import Milp.Proofs.Engine.CpSat.Course
import Milp.Proofs.Engine.Session
import Milp.Store.Solve

/-!
# Forgetting the last solve

A session starts with the status that the last solve left. A solve looks at what it needs first, and
may break off then; if it does not, it puts that status away before anything else happens. So nothing
that happens in a session depends on the status that it started with.
-/

namespace Milp

open Milp.Action

/-- The settings of a solver can be read. -/
def Solver.settled (x : Solver) : Except Fault Unit := do
  let _ ← (Settings.ofParameters x.name x.parameters).1

/-- What a solver makes sure of before it forgets the last solve: `Solver.settled`, and for CP-SAT
that it can solve the problem at all. -/
def Solver.ready (x : Solver) (p : Problem) : Except Fault Unit := do
  if x.backend = .cpsat then
    p.checkBoolean x.name
    p.checkWhole Float x.name
  x.settled

namespace Session

section

variable {ν α β : Type} {b : Backend}

/-- What becomes of a session whatever status it starts with: when something is not ready it is as
it was, and otherwise the status that it started with is gone, and CP-SAT has begun a history. -/
def Forgets (b : Backend) (ready : Except Fault Unit) (a : Action (Session ν) α) : Prop :=
  ∀ log, match ready with
    | .error f => ∃ log', ∀ status,
        a.runOn ⟨⟨status, none, []⟩, log⟩ = (.error f, ⟨⟨status, none, []⟩, log'⟩)
    | .ok _ => ∃ run, (b = .cpsat → run.2.state.history.isSome) ∧
        ∀ status, a.runOn ⟨⟨status, none, []⟩, log⟩ = run

theorem Forgets.ofExcept {e : Except Fault β} {ready : β → Except Fault Unit}
    {f : β → Action (Session ν) α} (h : ∀ x, Forgets b (ready x) (f x)) :
    Forgets b (e >>= ready) (Action.ofExcept e >>= f) := by
  cases e with
  | error e => exact fun log => ⟨log, fun _ => rfl⟩
  | ok x => exact h x

theorem Forgets.freeze {x : Solver} {f : Settings → Action (Session ν) α}
    (h : ∀ settings, Forgets b (.ok ()) (f settings)) :
    Forgets b x.settled (Settings.freeze x.name x.parameters >>= f) := by
  intro log
  let log' := log ++ (Settings.ofParameters x.name x.parameters).2
  have frozen (s : Session ν) : (Settings.freeze x.name x.parameters).runOn ⟨s, log⟩ =
      ((Settings.ofParameters x.name x.parameters).1, ⟨s, log'⟩) := rfl
  unfold Solver.settled
  cases read : (Settings.ofParameters x.name x.parameters).1 with
  | error e =>
      refine ⟨log', fun status => ?_⟩
      rw [runOn_bind, frozen, read]
  | ok settings =>
      obtain ⟨run, recorded, same⟩ := h settings log'
      refine ⟨run, recorded, fun status => ?_⟩
      rw [runOn_bind, frozen, read]
      exact same status

theorem forgets_setStatus (apart : b ≠ .cpsat) (status : Option Status)
    (f : Unit → Action (Session ν) α) : Forgets b (.ok ()) (setStatus status >>= f) := by
  intro log
  refine ⟨(f ()).runOn ⟨⟨.ofOption (status.map fun st => .symbol (.status st)), none, []⟩, log⟩,
    fun cuts => absurd cuts apart, fun _ => ?_⟩
  rfl

/-- A history that was begun goes on. -/
def Records (s s' : Session ν) : Prop :=
  s.history.isSome → s'.history.isSome

instance : Std.Refl (Records (ν := ν)) := ⟨fun _ => id⟩

instance : IsTrans (Session ν) Records := ⟨fun _ _ _ h h' => h' ∘ h⟩

theorem forgets_setHistory (status : Option Status) (history : List Int)
    {f : Unit → Action (Session ν) α} (h : Keeps Records (f ())) :
    Forgets b (.ok ()) (setStatus status >>= fun _ => setHistory history >>= f) := by
  intro log
  let begun : Session ν := ⟨.ofOption (status.map fun st => .symbol (.status st)), some history, []⟩
  exact ⟨(f ()).runOn ⟨begun, log⟩, fun _ => h ⟨begun, log⟩ rfl, fun _ => rfl⟩

end

end Session

open Session

/-- A question or a cut goes on with the history. -/
def CpSat.KeepsHistory (st st' : CpSat.State) : Prop :=
  Records st.session st'.session

instance : Std.Refl CpSat.KeepsHistory := ⟨fun _ => id⟩

instance : IsTrans CpSat.State CpSat.KeepsHistory := ⟨fun _ _ _ h h' => h' ∘ h⟩

theorem CpSat.records_optimize (engine : CpSat.Engine) (s : Settings) (p : Problem) (index : Index)
    (objective : WholeSum) (model : PseudoBoolean) (clock : Nat → Float) (questions : Nat) :
    Keeps Records (CpSat.optimize engine s p index objective model clock questions) := by
  have run : Keeps CpSat.KeepsHistory ((CpSat.task p s clock).optimize
      (CpSat.oracle engine s index objective (p.sense == .max)) questions) := by
    refine CutLoop.keeps_optimize (CpSat.keeps_decide (fun _ _ => id) engine s index) (fun _ => ?_) _
    exact (keeps_ofExcept _).bind fun _ => keeps_update fun _ => id
  unfold CpSat.optimize
  refine Keeps.tryCatch (run.onPart fun _ _ kept => kept) fun f => ?_
  split
  · exact (keeps_update fun _ => id).bind fun _ => keeps_throw _
  · exact keeps_throw _

theorem CpSat.records_conclude (p : Problem) (o : CutLoop.Outcome (Table Int)) :
    Keeps Records (CpSat.conclude p o) := by
  refine (keeps_update fun _ => id).bind fun _ => (keeps_update fun _ _ => rfl).bind fun _ => ?_
  split
  · exact (keeps_note _ _ _).bind fun _ => keeps_pure _
  · exact (keeps_ofExcept _).bind fun _ => keeps_pure _

/-- The ways in which solvers use their engines (`Way`), one for each `Backend`. -/
inductive Adapter : {K ν : Type} → Backend → Store.Way K ν → Prop
  | highs {K : Type} [Numeric K] (value : K → Value) (engine : Highs.Engine K)
      (hooks : Hooks (Columnwise K)) : Adapter .highs (.atOnce value (Highs.solve engine hooks))
  | scipy {K : Type} [Numeric K] (value : K → Value) (engine : Scipy.Engine K)
      (hooks : Hooks (Ranged K)) : Adapter .scipy (.atOnce value (Scipy.solve engine hooks))
  | cpsat (value : Float → Value) (engine : CpSat.Engine) (hooks : Hooks PseudoBoolean)
      (clock : Nat → Float) (questions : Nat) :
      Adapter .cpsat (.atOnce value (CpSat.solve engine hooks clock questions))
  | pyomo {K : Type} [Numeric K] (value : K → Value) (env : Environment) (engine : Pyomo.Engine K)
      (hooks : Hooks (Symbolic K)) :
      Adapter .pyomo (.atOnce value (Pyomo.solve value env engine hooks))
  | gurobi {K : Type} [Numeric K] (value : K → Value) (engine : Gurobi.Engine K)
      (hooks : Hooks (Incremental K)) :
      Adapter .gurobi ⟨value, Gurobi.solve engine hooks, fun x f =>
        Gurobi.opening engine x fun _ => throw f⟩

section

variable {K ν : Type} {b : Backend} {way : Store.Way K ν} {x : Solver}

/-- No `Adapter` depends on how the last solve ended. -/
theorem Adapter.solve_status (h : Adapter b way) (x : Solver) (status : Value) (p : Problem) :
    way.solve { x with lastStatus := status } p = way.solve x p := by
  cases h <;> rfl

theorem Adapter.breakOff_status (h : Adapter b way) (x : Solver) (status : Value) (f : Fault) :
    way.breakOff { x with lastStatus := status } f = way.breakOff x f := by
  cases h <;> rfl

theorem Solver.ready_eq_settled (h : x.backend ≠ .cpsat) (p : Problem) : x.ready p = x.settled :=
  if_neg h

theorem Adapter.forgets_solve (h : Adapter b way) (own : x.backend = b) (p : Problem) :
    Forgets b (x.ready p) (way.solve x p) := by
  cases h with
  | cpsat value engine hooks clock questions =>
      have ready : x.ready p = (do
          p.checkBoolean x.name
          p.checkWhole Float x.name
          x.settled) := if_pos own
      rw [ready]
      change Forgets _ _ (CpSat.solve engine hooks clock questions x p)
      rw [CpSat.solve_eq]
      refine .ofExcept fun _ => .ofExcept fun _ => .freeze fun settings => ?_
      refine forgets_setHistory _ _ ?_
      refine (keeps_ofExcept _).bind fun model => Keeps.bind ?_ fun model => ?_
      · exact keeps_hooks (fun _ _ _ => id) _ _ _ _ _
      · exact (keeps_ofExcept _).bind fun _ => (CpSat.records_optimize _ _ _ _ _ _ _ _).bind fun _ =>
          CpSat.records_conclude p _
  | _ =>
      rw [Solver.ready_eq_settled (by simp [own])]
      exact .freeze fun _ => forgets_setStatus (by simp) _ _

theorem forgets_breakOffAtOnce (own : x.backend = b) (f : Fault) :
    Forgets b x.settled
      (Store.breakOffAtOnce x f : Action (Session ν) (Option (Solution K))) := by
  subst own
  refine .freeze fun _ => ?_
  by_cases cuts : x.backend = .cpsat
  · rw [if_pos cuts]
    exact forgets_setHistory _ _ (keeps_throw f)
  · rw [if_neg cuts]
    exact forgets_setStatus cuts _ _

theorem Adapter.forgets_breakOff (h : Adapter b way) (own : x.backend = b) (f : Fault) :
    Forgets b x.settled (way.breakOff x f) := by
  cases h with
  | gurobi value engine hooks => exact .freeze fun _ => forgets_setStatus (by simp) _ _
  | _ => exact forgets_breakOffAtOnce own f

end

end Milp
