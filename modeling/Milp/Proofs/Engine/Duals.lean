import Milp.Proofs.Engine.Gurobi.Duals
import Milp.Proofs.Engine.Highs.Duals
import Milp.Proofs.Engine.Scipy.DualTable
import Milp.Proofs.Engine.Scipy.Duals

/-!
# What becomes of the duals

A linear program may be solved by HiGHS, by SciPy, or by Gurobi. Each of them reports a dual for
every row and a reduced cost for every column, and what is found under a name or under a variable is
the same for all three.
-/

namespace Milp

variable {K : Type} [Numeric K]

/-- Where HiGHS, SciPy or Gurobi reply with duals, a solve of a linear program that is `Store.Built`
gives a table of them (`Tabulates`). Duals whose keys are equal share an entry, and nothing else is
lost. -/
theorem Store.Built.tabulates {store : Store} {id : Nat} (built : store.Built id)
    (real : ∀ v ∈ (store.viewProblem id).variableList, (store.viewProblem id).domainOf v = .real)
    (hashable : ∀ c ∈ (store.viewProblem id).constraints.items, c.name.checkKey = .ok ())
    (solver : Solver) :
    let p := store.viewProblem id
    (∀ (engine : Highs.Engine K) (hooks : Hooks (Columnwise K)) (reply : Highs.Reply K)
        (ys ds : List K),
      let run := (Highs.solve engine hooks solver p).perform (.start solver)
      Highs.Replied engine run.2.state.tellings reply → reply.Carries p ys ds →
        ∃ s, run.1 = .ok (some s) ∧ p.Tabulates s.dual ys ds) ∧
    (∀ (engine : Scipy.Engine K) (hooks : Hooks (Ranged K)) (reply : Scipy.Reply K)
        (m : Ranged K),
      let run := (Scipy.solve engine hooks solver p).perform (.start solver)
      Scipy.OnlyOptions hooks → p.ranged p.index = .ok m →
        Scipy.Replied engine run.2.state.tellings reply → reply.Complete p m →
          ∃ s, run.1 = .ok (some s) ∧ p.Tabulates s.dual (reply.rowDuals m) (reply.reducedCosts m)) ∧
    (∀ (engine : Gurobi.Engine K) (hooks : Hooks (Incremental K)) (reply : Gurobi.Reply K)
        (ys ds : List K),
      let run := (Gurobi.solve engine hooks solver p).perform (.start solver)
      Gurobi.Replied engine run.2.state.tellings reply → reply.Carries p ys ds →
        ∃ s, run.1 = .ok (some s) ∧ p.Tabulates s.dual ys ds) := by
  intro p
  have h : p.WellFormed := built.sound.wellFormed
  refine ⟨?_, ?_, ?_⟩
  · intro engine hooks reply ys ds run replied carries
    exact Highs.exists_tabulates h real hashable carries replied
  · intro engine hooks reply m run only made replied complete
    exact Scipy.exists_tabulates h real hashable made complete only replied
  · intro engine hooks reply ys ds run replied carries
    exact Gurobi.exists_tabulates h real hashable carries replied

section

open Scipy

def planRanged : Ranged Extended :=
  { cost := [.finite (-3), .finite (-2), .finite (-1)]
    matrix := ⟨3, [[(0, .finite 1), (1, .finite 2)], [(1, .finite 1)],
      [(0, .finite 1), (2, .finite (-1))]]⟩
    rowLower := [.negInf, .finite 1, .finite (-3)]
    rowUpper := [.finite 4, .posInf, .finite (-3)]
    lower := [.negInf, .negInf, .negInf]
    upper := [.posInf, .posInf, .finite 5]
    integrality := [0, 0, 0]
    maximize := true
    options := .empty }

def reported (x : Rat) : Reported Extended :=
  .number (.real (.finite x))

/-- HiGHS takes everything it is given, and replies. -/
def highsWith (reply : Highs.Reply Extended) : Highs.Engine Extended :=
  ⟨fun _ _ => true, fun _ => true, fun _ => .ok reply⟩

def planHighsReply : Highs.Reply Extended :=
  { failed := false, modelStatus := .optimal, description := "optimal", primalStatus := .int 2
    objective := reported 13, values := [reported 2, reported 1, reported 5]
    columnDuals := [reported 0, reported 0, reported 2]
    rowDuals := [reported 2, reported (-2), reported 1], dualValid := true }

def planGurobiReply : Gurobi.Reply Extended :=
  { code := .int 2, solutions := .int 1, mixed := false, objective := reported 13
    value := fun j => [reported 2, reported 1, reported 5].getD j (reported 0)
    reducedCost := fun j => [reported 0, reported 0, reported 2].getD j (reported 0)
    rowDual := fun i => [reported 2, reported (-2), reported 1].getD i (reported 0) }

def planRows : List Extended := [.finite 2, .finite (-2), .finite 1]

def planColumns : List Extended := [.finite 0, .finite 0, .finite 2]

theorem highs_carries_plan : planHighsReply.Carries planProblem planRows planColumns where
  succeeded := rfl
  optimal := rfl
  valid := rfl
  values := ⟨[.finite 2, .finite 1, .finite 5], .cons rfl (.cons rfl (.cons rfl .nil)), rfl⟩
  rowDuals := .cons rfl (.cons rfl (.cons rfl .nil))
  rowCount := rfl
  columnDuals := .cons rfl (.cons rfl (.cons rfl .nil))
  columnCount := rfl

theorem gurobi_carries_plan : planGurobiReply.Carries planProblem planRows planColumns where
  optimal := rfl
  linear := rfl
  values
    | 0, _ => ⟨_, rfl⟩
    | 1, _ => ⟨_, rfl⟩
    | 2, _ => ⟨_, rfl⟩
    | j + 3, hj => absurd (show j + 3 < 3 from hj) (by omega)
  rowDuals
    | 0, _, rfl => rfl
    | 1, _, rfl => rfl
    | 2, _, rfl => rfl
  rowCount := rfl
  columnDuals
    | 0, _, rfl => rfl
    | 1, _, rfl => rfl
    | 2, _, rfl => rfl
  columnCount := rfl

theorem complete_plan : planReply.Complete planProblem planRanged where
  optimal := rfl
  values := ⟨_, rfl, rfl⟩
  objective y hy := by
    obtain rfl := Option.some.inj hy
    exact ⟨_, rfl⟩
  marginal := ⟨by decide +kernel, by decide +kernel, rfl, rfl⟩

def planSolver : Solver :=
  Solver.fresh .scipy "scipy"

theorem replied_highsWith {reply : Highs.Reply Extended} {told : List (Highs.Call Extended)}
    (ran : (told.any fun c => c matches .run _) = true) :
    Highs.Replied (highsWith reply) told reply := by
  obtain ⟨_ | _ | m, ran, last⟩ := List.any_eq_true.mp ran
  · cases last
  · cases last
  · exact ⟨m, ran, rfl⟩

theorem gurobi_replied_plan : Gurobi.Replied ⟨fun _ => none, fun _ => planGurobiReply⟩
    ((Gurobi.solve ⟨fun _ => none, fun _ => planGurobiReply⟩ (fun _ _ m => (m, none)) planSolver
      planProblem).perform (.start planSolver)).2.state.tellings planGurobiReply := by
  have optimised : (((Gurobi.solve ⟨fun _ => none, fun _ => planGurobiReply⟩
      (fun _ _ m => (m, none)) planSolver planProblem).perform
        (.start planSolver)).2.state.tellings.any fun c => c matches .stage .optimize) = true := by
    decide +kernel
  obtain ⟨c, told, last⟩ := List.any_eq_true.mp optimised
  split at last
  · exact ⟨told, rfl, fun _ => rfl⟩
  · cases last

theorem scipy_replied_plan : Scipy.Replied (fun _ => .ok planReply)
    ((Scipy.solve (fun _ => .ok planReply) (fun _ _ m => (m, none)) planSolver
      planProblem).perform (.start planSolver)).2.state.tellings planReply := by
  have asked : ((Scipy.solve (fun _ => .ok planReply) (fun _ _ m => (m, none)) planSolver
      planProblem).perform (.start planSolver)).2.state.tellings = [.linear planSplit] := by
    with_unfolding_all rfl
  exact ⟨_, asked ▸ List.mem_singleton_self _, rfl⟩

/-- All three find the same duals of the plan. -/
theorem tabulates_plan :
    let p := plan.viewProblem 0
    plan.Built 0 ∧ p.Named ∧
      (∃ s, ((Highs.solve (highsWith planHighsReply) (fun _ _ m => (m, none)) planSolver p).perform
        (.start planSolver)).1 = .ok (some s) ∧ p.Tabulates s.dual planRows planColumns) ∧
      (∃ s, ((Scipy.solve (fun _ => .ok planReply) (fun _ _ m => (m, none)) planSolver p).perform
        (.start planSolver)).1 = .ok (some s) ∧ p.Tabulates s.dual planRows planColumns) ∧
      (∃ s, ((Gurobi.solve ⟨fun _ => none, fun _ => planGurobiReply⟩ (fun _ _ m => (m, none))
        planSolver p).perform (.start planSolver)).1 = .ok (some s) ∧
          p.Tabulates s.dual planRows planColumns) := by
  have real : ∀ v ∈ (plan.viewProblem 0).variableList,
      (plan.viewProblem 0).domainOf v = .real := by
    rw [viewProblem_plan]
    exact fun _ _ => rfl
  have named : (plan.viewProblem 0).Named := viewProblem_plan ▸ named_planProblem
  have made : planProblem.ranged planProblem.index = .ok planRanged := by
    with_unfolding_all rfl
  have rows : planReply.rowDuals planRanged = planRows := by decide +kernel
  have columns : planReply.reducedCosts planRanged = planColumns := by decide +kernel
  have all := Store.Built.tabulates (K := Extended) built_plan real named.hashable planSolver
  refine ⟨built_plan, named, ?_⟩
  rw [viewProblem_plan] at all ⊢
  obtain ⟨highs, scipy, gurobi⟩ := all
  refine ⟨?_, ?_, ?_⟩
  · exact highs _ _ _ _ _ (replied_highsWith (by decide +kernel)) highs_carries_plan
  · rw [← rows, ← columns]
    exact scipy _ _ _ _ (fun _ _ m => ⟨m.options, rfl⟩) made scipy_replied_plan complete_plan
  · exact gurobi _ _ _ _ _ gurobi_replied_plan gurobi_carries_plan

/-! ## Names that are equal -/

/-- Rows of different variables that look alike. -/
def alike : Store :=
  (Store.newProblem.perform .empty).2.state
    |> Store.called "add" [.tuple [.term (.int 1) (.int 1)], .text "<=", .int 4]
    |> Store.called "add" [.tuple [.term (.text "1") (.int 1)], .text "<=", .int 4]

theorem built_alike : alike.Built 0 :=
  (Store.built_first.called rfl (by decide)).called rfl (by decide)

def alikeProblem : Problem :=
  { vars := ⟨[(.int 1, ()), (.text "1", ())]⟩, domains := .empty, lowers := .empty
    uppers := .empty, objective := none, sense := .min
    constraints := .ofList [
      ⟨.linear ⟨[⟨.int 1, .int 1⟩]⟩, .symbol (.relation .le), .int 4, .text "1*1 <= 4"⟩,
      ⟨.linear ⟨[⟨.text "1", .int 1⟩]⟩, .symbol (.relation .le), .int 4, .text "1*1 <= 4"⟩] }

theorem viewProblem_alike : alike.viewProblem 0 = alikeProblem := by
  with_unfolding_all rfl

def alikeReply : Highs.Reply Extended :=
  { failed := false, modelStatus := .optimal, description := "optimal", primalStatus := .int 2
    objective := reported 0, values := [reported 4, reported 4]
    columnDuals := [reported 0, reported 0], rowDuals := [reported (-2), reported (-3)]
    dualValid := true }

/-- Rows that look alike have one name by default, and the dual of the first is lost. -/
theorem dual_lost_of_alike :
    let p := alike.viewProblem 0
    let run := (Highs.solve (highsWith alikeReply) (fun _ _ m => (m, none)) planSolver p).perform
      (.start planSolver)
    alike.Built 0 ∧ (∀ v ∈ p.variableList, p.domainOf v = .real) ∧
      Highs.Replied (highsWith alikeReply) run.2.state.tellings alikeReply ∧
      alikeReply.Carries p [.finite (-2), .finite (-3)] [.finite 0, .finite 0] ∧
      ∃ c s, p.constraints.items[0]? = some c ∧ run.1 = .ok (some s) ∧
        s.dual.get? c.name = some (.finite (-3)) ∧
        s.dual.size ≠ p.variableList.length + p.constraints.items.length := by
  intro p run
  have view : p = alikeProblem := viewProblem_alike
  have carries : alikeReply.Carries alikeProblem [.finite (-2), .finite (-3)]
      [.finite 0, .finite 0] :=
    { succeeded := rfl, optimal := rfl, valid := rfl
      values := ⟨[.finite 4, .finite 4], .cons rfl (.cons rfl .nil), rfl⟩
      rowDuals := .cons rfl (.cons rfl .nil), rowCount := rfl
      columnDuals := .cons rfl (.cons rfl .nil), columnCount := rfl }
  have replied : Highs.Replied (highsWith alikeReply) run.2.state.tellings alikeReply := by
    refine replied_highsWith ?_
    unfold run
    rw [view]
    decide +kernel
  have kept : (run.1.toOption.join.map fun s => (s.dual.get? (.text "1*1 <= 4"), s.dual.size)) =
      some (some (.finite (-3)), 3) := by
    unfold run
    rw [view]
    decide +kernel
  obtain ⟨s, hs, found⟩ := Option.map_eq_some_iff.mp kept
  obtain ⟨last, size⟩ := Prod.mk.inj found
  have solved : run.1 = .ok (some s) := join_toOption_eq_some.mp hs
  rw [view]
  refine ⟨built_alike, fun _ _ => rfl, replied, carries, _, s, rfl, solved, last, ?_⟩
  rw [size]
  decide

end

end Milp
