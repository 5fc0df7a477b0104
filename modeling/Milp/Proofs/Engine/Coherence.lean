import Milp.Proofs.Engine.CpSat.Status
import Milp.Proofs.Engine.Gurobi.Status
import Milp.Proofs.Engine.Highs.Status
import Milp.Proofs.Engine.Pyomo.Status
import Milp.Proofs.Engine.Scipy.Status
import Milp.Proofs.Store.Built

/-!
# Answers and statuses

For each adapter, what `solve` of a problem that is `Store.Built` ends with agrees with the status
that it leaves (`Store.Built.coherent`).
-/

namespace Milp

open Session

/-- For each adapter, the answer of `solve` and its status are `Coherent`, and an engine that
stopped at a limit is `Limited`: with something found the status is that of a feasible solution. -/
theorem Store.Built.coherent {store : Store} {id : Nat} (built : store.Built id) {solver : Solver}
    (fresh : solver.lastStatus = .none) :
    let p := store.viewProblem id
    (∀ (engine : Highs.Engine Float) (hooks : Hooks (Columnwise Float)),
      engine.Harmless → Harmless hooks →
      let run := (Highs.solve engine hooks solver p).perform (.start solver)
      Coherent p.toDeclarations run ∧
        ∀ reply : Highs.Reply Float, Highs.Replied engine run.2.state.tellings reply →
          reply.failed = false → reply.modelStatus.outcome? = some .timeLimit →
            Limited run (reply.primalStatus.same (.int 2) = true)
              (Highs.readSolution p p.index reply)) ∧
    (∀ (engine : Scipy.Engine Float) (hooks : Hooks (Ranged Float)),
      Scipy.Harmless engine → Harmless hooks →
      let run := (Scipy.solve engine hooks solver p).perform (.start solver)
      Coherent p.toDeclarations run ∧
        ∀ reply : Scipy.Reply Float, Scipy.Replied engine run.2.state.tellings reply →
          Scipy.outcome? reply.code = some .timeLimit →
            ∃ m, Scipy.callOf m ∈ run.2.state.tellings ∧ engine (Scipy.callOf m) = .ok reply ∧
              ∀ d, (reply.values.isSome = true → Scipy.Collects p m reply d) →
                Limited run (reply.values.isSome = true)
                  (Scipy.readSolution p p.index m ⟨.feasible, reply, d⟩)) ∧
    (∀ (engine : Gurobi.Engine Float) (hooks : Hooks (Incremental Float)),
      engine.Harmless → Harmless hooks →
      let run := (Gurobi.solve engine hooks solver p).perform (.start solver)
      Coherent p.toDeclarations run ∧
        ∀ (reply : Gurobi.Reply Float) (found : Bool),
          Gurobi.Replied engine run.2.state.tellings reply →
          Gurobi.outcome? reply.code = some .timeLimit →
          reply.solutions.isAbove (.int 0) = .ok found →
            Limited run (found = true) (Gurobi.readSolution p reply)) ∧
    (∀ (value : Float → Value) (env : Environment) (engine : Pyomo.Engine Float)
        (hooks : Hooks (Symbolic Float)), engine.Harmless → Harmless hooks →
      let run := (Pyomo.solve value env engine hooks solver p).perform (.start solver)
      Coherent p.toDeclarations run ∧
        ∀ reply : Pyomo.Reply Float, Pyomo.Replied engine run.2.state.tellings reply →
          reply.condition.outcome? = some .timeLimit →
            ∃ m read, m.read = .ok read ∧ engine.solve read = .ok reply ∧
              Limited run (0 < reply.solutions)
                (Pyomo.readSolution value p p.index m read reply)) ∧
    (∀ (engine : CpSat.Engine) (hooks : Hooks PseudoBoolean) (clock : Nat → Float)
        (questions : Nat), engine.Harmless → Harmless hooks →
      let run := (CpSat.solve engine hooks clock questions solver p).perform (.start solver)
      Coherent p.toDeclarations run ∧
        (engine.GaveUp run.2.state.tellings →
          ∃ x, Limited run (engine.Found run.2.state.tellings) (.ok x))) := by
  intro p
  have h : p.WellFormed := built.sound.wellFormed
  refine ⟨?_, ?_, ?_, ?_, ?_⟩
  · intro engine hooks harmless quiet run
    exact ⟨Highs.coherent_solve h harmless quiet fresh,
      fun reply replied succeeded limit => Highs.limited_solve succeeded limit replied⟩
  · intro engine hooks harmless quiet run
    exact ⟨Scipy.coherent_solve h harmless quiet fresh,
      fun reply replied limit => Scipy.limited_solve limit replied⟩
  · intro engine hooks harmless quiet run
    exact ⟨Gurobi.coherent_solve h harmless quiet fresh,
      fun reply found replied limit count => Gurobi.limited_solve limit count replied⟩
  · intro value env engine hooks harmless quiet run
    exact ⟨Pyomo.coherent_solve h harmless quiet fresh,
      fun reply replied limit => Pyomo.limited_solve limit replied⟩
  · intro engine hooks clock questions harmless quiet run
    exact ⟨CpSat.coherent_solve h harmless quiet fresh, CpSat.limited_solve h.distinct⟩

section

/-- A decision, to be taken if possible. -/
def pick : Store :=
  (Store.newProblem.perform .empty).2.state
    |> Store.called "set_objective" [.tuple [.term (.text "x") (.int 1)], .text "max"]
    |> Store.called "add" [.text "cap", .tuple [.term (.text "x") (.int 1)], .text "<=", .int 1]
    |> Store.called "set_var_type" [.text "x", .type .bool]

theorem built_pick : pick.Built 0 :=
  ((Store.built_first.called rfl (by decide)).called rfl (by decide)).called rfl (by decide)

def pickProblem : Problem :=
  { vars := ⟨[(.text "x", ())]⟩, domains := ⟨[(.text "x", .bool)]⟩, lowers := .empty
    uppers := .empty, objective := some (.linear ⟨[⟨.text "x", .int 1⟩]⟩), sense := .max
    constraints := .ofList
      [⟨.linear ⟨[⟨.text "x", .int 1⟩]⟩, .symbol (.relation .le), .int 1, .text "cap"⟩] }

set_option maxRecDepth 4000 in
theorem viewProblem_pick : pick.viewProblem 0 = pickProblem := by
  with_unfolding_all rfl

def pickSolver : Solver :=
  Solver.fresh .highs "highs"

def one : Reported Float :=
  .number (.real 1.0)

/-- A hook that does nothing. -/
def idle {μ : Type} : Hooks μ :=
  fun _ _ m => (m, none)

theorem harmless_idle {μ : Type} : Harmless (idle : Hooks μ) := by
  rintro hook index m f ⟨⟩

def stoppedHighs : Highs.Reply Float :=
  { failed := false, modelStatus := .timeLimit, description := "time limit", primalStatus := .int 2
    objective := one, values := [one], columnDuals := [], rowDuals := [], dualValid := false }

def stoppedScipy : Scipy.Reply Float :=
  { code := .int 1, values := some [1.0], objective := some one, upperMarginals := none
    equationMarginals := none, lowerBoundMarginals := none, upperBoundMarginals := none }

def stoppedGurobi : Gurobi.Reply Float :=
  { code := .int 9, solutions := .int 1, mixed := true, objective := one, value := fun _ => one
    reducedCost := fun _ => one, rowDual := fun _ => one }

/-- A plugin stopped before it found anything. -/
def stoppedPlugin : Pyomo.Reply Float :=
  { condition := .maxTimeLimit, solutions := 0, values := [], duals := [] }

def highsReplying (reply : Highs.Reply Float) : Highs.Engine Float :=
  ⟨fun _ _ => true, fun _ => true, fun _ => .ok reply⟩

def gurobiReplying (reply : Gurobi.Reply Float) : Gurobi.Engine Float :=
  ⟨fun _ => none, fun _ => reply⟩

def pluginReplying (reply : Pyomo.Reply Float) : Pyomo.Engine Float :=
  ⟨fun _ => .ok true, fun _ => .ok reply⟩

def anywhere : Environment :=
  ⟨fun _ => false, fun _ => false, fun _ => .ok true, fun _ => none⟩

/-- CP-SAT finds an assignment, and leaves open whether there is a better one. -/
def stoppedCpSat : CpSat.Engine where
  setOption _ _ := .ok ()
  fits _ := .ok ()
  answer asked _ := .ok (if asked = 0 then ⟨.feasible, [true], ""⟩ else ⟨.unknown, [], ""⟩)

theorem exists_mem_run {told : List (Highs.Call Float)}
    (ran : (told.any fun c => c matches .run _) = true) : ∃ m, .run m ∈ told := by
  obtain ⟨_ | _ | m, ran, last⟩ := List.any_eq_true.mp ran
  · cases last
  · cases last
  · exact ⟨m, ran⟩

theorem highs_replied {reply : Highs.Reply Float} {told : List (Highs.Call Float)}
    (ran : (told.any fun c => c matches .run _) = true) :
    Highs.Replied (highsReplying reply) told reply := by
  obtain ⟨m, ran⟩ := exists_mem_run ran
  exact ⟨m, ran, rfl⟩

theorem mem_optimize {told : List (Gurobi.Call Float)}
    (ran : (told.any fun c => c matches .stage .optimize) = true) : .stage .optimize ∈ told := by
  obtain ⟨c, ran, last⟩ := List.any_eq_true.mp ran
  split at last
  · exact ran
  · cases last

theorem gurobi_replied {reply : Gurobi.Reply Float} {told : List (Gurobi.Call Float)}
    (ran : (told.any fun c => c matches .stage .optimize) = true) :
    Gurobi.Replied (gurobiReplying reply) told reply :=
  ⟨mem_optimize ran, rfl, fun _ => rfl⟩

theorem exists_mem_read {told : List (Pyomo.Call Float)}
    (ran : (told.any fun c => c matches .read _) = true) : ∃ m, .read m ∈ told := by
  obtain ⟨_ | _ | _ | _ | m, ran, last⟩ := List.any_eq_true.mp ran
  · cases last
  · cases last
  · cases last
  · cases last
  · exact ⟨m, ran⟩

theorem plugin_replied {reply : Pyomo.Reply Float} {told : List (Pyomo.Call Float)}
    (ran : (told.any fun c => c matches .read _) = true) :
    Pyomo.Replied (pluginReplying reply) told reply := by
  obtain ⟨m, ran⟩ := exists_mem_read ran
  exact ⟨m, ran, rfl⟩

theorem scipy_replied {reply : Scipy.Reply Float} {told : List (Scipy.Call Float)}
    (ran : (told.any fun c => c matches .mixed _) = true) :
    Scipy.Replied (fun _ => .ok reply) told reply := by
  obtain ⟨c, ran, -⟩ := List.any_eq_true.mp ran
  exact ⟨c, ran, rfl⟩

theorem isMixed_of_callOf {told : List (Scipy.Call Float)}
    (only : (told.all fun c => c matches .mixed _) = true) {m : Ranged Float}
    (h : Scipy.callOf m ∈ told) : m.isMixed = true := by
  have mixed := List.all_eq_true.mp only _ h
  unfold Scipy.callOf at mixed
  cases linear : m.isMixed with
  | true => rfl
  | false => simp [linear] at mixed

theorem gaveUp_stoppedCpSat {told : List CpSat.Question} (twice : told.length = 2) :
    stoppedCpSat.GaveUp told := by
  obtain ⟨q, q', rfl⟩ := List.length_eq_two.mp twice
  exact ⟨_, rfl, rfl⟩

theorem found_stoppedCpSat {told : List CpSat.Question} (twice : told.length = 2) :
    stoppedCpSat.Found told := by
  obtain ⟨q, q', rfl⟩ := List.length_eq_two.mp twice
  exact ⟨_, List.mem_cons_self, .inr rfl⟩

/-- The engines that stopped at a limit with the decision taken leave the status of a feasible
solution, and the one that stopped without it leaves that of a limit. -/
theorem coherent_pick :
    let p := pick.viewProblem 0
    let feasible : Value := .symbol (.status .feasible)
    let highs := (Highs.solve (highsReplying stoppedHighs) idle pickSolver p).perform
      (.start pickSolver)
    let scipy := (Scipy.solve (fun _ => .ok stoppedScipy) idle pickSolver p).perform
      (.start pickSolver)
    let gurobi := (Gurobi.solve (gurobiReplying stoppedGurobi) idle pickSolver p).perform
      (.start pickSolver)
    let plugin := (Pyomo.solve .real anywhere (pluginReplying stoppedPlugin) idle pickSolver
      p).perform (.start pickSolver)
    let cuts := (CpSat.solve stoppedCpSat idle (fun _ => 0.0) 3 pickSolver p).perform
      (.start pickSolver)
    pick.Built 0 ∧
      (highs.2.state.status = feasible ∧ ∃ s, highs.1 = .ok (some s) ∧ s.Covers p.toDeclarations) ∧
      (scipy.2.state.status = feasible ∧ ∃ s, scipy.1 = .ok (some s) ∧ s.Covers p.toDeclarations) ∧
      (gurobi.2.state.status = feasible ∧
        ∃ s, gurobi.1 = .ok (some s) ∧ s.Covers p.toDeclarations) ∧
      (plugin.2.state.status = .symbol (.status .timeLimit) ∧ plugin.1 = .ok none) ∧
      (cuts.2.state.status = feasible ∧ ∃ s, cuts.1 = .ok (some s) ∧ s.Covers p.toDeclarations) := by
  intro p feasible
  have view : p = pickProblem := viewProblem_pick
  have all := Store.Built.coherent built_pick (rfl : pickSolver.lastStatus = .none)
  rw [show pick.viewProblem 0 = p from rfl, view] at all
  rw [view]
  obtain ⟨highs, scipy, gurobi, pyomo, cpsat⟩ := all
  have solved {ν : Type} {run : Except Fault (Option (Solution Float)) × Logged (Session ν)}
      (coherent : Coherent pickProblem.toDeclarations run)
      (answered : run.1.toOption.join.isSome = true) :
      ∃ s, run.1 = .ok (some s) ∧ s.Covers pickProblem.toDeclarations := by
    obtain ⟨s, hs⟩ := Option.isSome_iff_exists.mp answered
    have ended := join_toOption_eq_some.mp hs
    exact ⟨s, ended, (coherent.agrees _ ended).2⟩
  refine ⟨built_pick, ?_, ?_, ?_, ?_, ?_⟩
  · obtain ⟨coherent, limited⟩ := highs (highsReplying stoppedHighs) idle
      (fun _ => breaksBy_ok _) harmless_idle
    exact ⟨((limited _ (highs_replied (by decide +kernel)) rfl rfl).found rfl).1,
      solved coherent (by decide +kernel)⟩
  · obtain ⟨coherent, limited⟩ := scipy (fun _ => .ok stoppedScipy) idle
      (fun _ => breaksBy_ok _) harmless_idle
    obtain ⟨m, told, -, limited⟩ := limited stoppedScipy (scipy_replied (by decide +kernel)) rfl
    have mixed : m.isMixed = true := isMixed_of_callOf (by decide +kernel) told
    exact ⟨((limited .empty fun _ => .inl ⟨mixed, rfl⟩).found rfl).1,
      solved coherent (by decide +kernel)⟩
  · obtain ⟨coherent, limited⟩ := gurobi (gurobiReplying stoppedGurobi) idle
      (by rintro s f ⟨⟩) harmless_idle
    exact ⟨((limited _ true (gurobi_replied (by decide +kernel)) rfl rfl).found rfl).1,
      solved coherent (by decide +kernel)⟩
  · obtain ⟨-, limited⟩ := pyomo .real anywhere (pluginReplying stoppedPlugin) idle
      ⟨fun _ => breaksBy_ok _, fun _ => breaksBy_ok _⟩ harmless_idle
    obtain ⟨_, _, -, -, limited⟩ := limited _ (plugin_replied (by decide +kernel)) rfl
    exact limited.spent (Nat.lt_irrefl 0)
  · obtain ⟨coherent, limited⟩ := cpsat stoppedCpSat idle (fun _ => 0.0) 3
      ⟨fun _ _ => breaksBy_ok _, fun _ => breaksBy_ok _, fun _ _ => breaksBy_ok _⟩ harmless_idle
    obtain ⟨x, limited⟩ := limited (gaveUp_stoppedCpSat (by decide +kernel))
    exact ⟨(limited.found (found_stoppedCpSat (by decide +kernel))).1,
      solved coherent (by decide +kernel)⟩

/-! ## Values that cannot be read -/

/-- A whole number, to be made as large as possible. -/
def endless : Store :=
  (Store.newProblem.perform .empty).2.state
    |> Store.called "set_objective" [.tuple [.term (.text "x") (.int 1)], .text "max"]
    |> Store.called "set_var_type" [.text "x", .type .int]

theorem built_endless : endless.Built 0 :=
  (Store.built_first.called rfl (by decide)).called rfl (by decide)

def endlessProblem : Problem :=
  { vars := ⟨[(.text "x", ())]⟩, domains := ⟨[(.text "x", .int)]⟩, lowers := .empty
    uppers := .empty, objective := some (.linear ⟨[⟨.text "x", .int 1⟩]⟩), sense := .max
    constraints := .ofList [] }

set_option maxRecDepth 4000 in
theorem viewProblem_endless : endless.viewProblem 0 = endlessProblem := by
  with_unfolding_all rfl

/-- HiGHS stopped at a limit with a point at infinity. -/
def infiniteHighs : Highs.Reply Float :=
  { failed := false, modelStatus := .timeLimit, description := "time limit", primalStatus := .int 2
    objective := .number (.real Binary64.infinity), values := [.number (.real Binary64.infinity)]
    columnDuals := [], rowDuals := [], dualValid := false }

/-- A point at infinity counts as found, but `Highs.readSolution` cannot read it: the status is that
of a feasible solution, and there is none. -/
theorem unread_of_endless :
    let p := endless.viewProblem 0
    let engine := highsReplying infiniteHighs
    let run := (Highs.solve engine idle pickSolver p).perform (.start pickSolver)
    endless.Built 0 ∧ engine.Harmless ∧ Harmless (idle : Hooks (Columnwise Float)) ∧
      Highs.Replied engine run.2.state.tellings infiniteHighs ∧ infiniteHighs.failed = false ∧
      infiniteHighs.modelStatus.outcome? = some .timeLimit ∧
      infiniteHighs.primalStatus.same (.int 2) = true ∧
      infiniteHighs.values.length = p.variableList.length ∧
      run.2.state.status = .symbol (.status .feasible) ∧ run.1 = .error .infinityToInt := by
  intro p
  rw [show p = endlessProblem from viewProblem_endless]
  intro engine run
  have harmless : engine.Harmless := fun _ => breaksBy_ok _
  have replied : Highs.Replied engine run.2.state.tellings infiniteHighs :=
    highs_replied (by decide +kernel)
  obtain ⟨status, answer⟩ := (Highs.limited_solve rfl rfl replied).found rfl
  refine ⟨built_endless, harmless, harmless_idle, replied, rfl, rfl, rfl, rfl, status, ?_⟩
  rw [answer]
  rfl

end

end Milp
