import Milp.Proofs.Engine.Coherence
import Milp.Proofs.Engine.Writes

/-!
# Which option is in force

In a solve without hooks the option in force under a name, when the engine is run, is the
`preferred` one: that of the caller, if the engine takes it, or else what the adapter passes on for
the settings. There is one exception: SciPy is never given a gap for a problem without integral
columns.
-/

namespace Milp

open Milp.Action

/-- An option that is refused counts as if the caller had not given it. -/
theorem preferred_erase {takes : String → Value → Bool} {t : Table Value} {m : Mapping}
    {refused : String} {v : Value} (given : t.get? (.text refused) = some v)
    (no : takes refused v = false) (name : String) :
    preferred takes (t.erase (.text refused)) m name = preferred takes t m name := by
  unfold preferred
  by_cases same : name = refused
  · subst same
    rw [t.get?_erase_self, given]
    simp [Option.filter, no]
  · have other : (Value.text refused).key ≠ (Value.text name).key :=
      fun h => same (Key.text.inj h).symm
    rw [Table.get?_erase_of_ne other]

/-- An option of the caller that is taken goes before all else. -/
theorem preferred_of_taken {takes : String → Value → Bool} {t : Table Value} {m : Mapping}
    {name : String} {v : Value} (given : t.get? (.text name) = some v) (yes : takes name v = true) :
    preferred takes t m name = some v := by
  rw [preferred, given]
  simp [Option.filter, yes]

/-- When an engine is run in a solve without hooks, the value in force under each name is the
`preferred` one; SciPy is never given a gap for a problem without integral columns. What HiGHS and
CP-SAT refuse counts as if it had not been given, and breaks nothing off. The settings are read off
the parameters by `Settings.ofParameters`; a verbosity that is not set counts as zero. -/
theorem Solver.options_inForce {K : Type} [Numeric K] {solver : Solver} {s : Settings}
    {notes : List Message} (plain : solver.hooks = [])
    (apart : solver.parameters.keys.Pairwise fun k k' => k.key ≠ k'.key)
    (frozen : Settings.ofParameters solver.name solver.parameters = (.ok s, notes)) (p : Problem) :
    s.Reads solver.name solver.parameters ∧
    (∀ (engine : Highs.Engine K) (hooks : Hooks (Columnwise K)) before m after,
      ((Highs.solve engine hooks solver p).perform (.start solver)).2.state.tellings =
        before ++ .run m :: after → ∀ name,
      inForce engine.accepts (Highs.optionsOf before) name =
        preferred engine.accepts solver.parameters (Highs.mapping s) name) ∧
    (∀ (engine : Scipy.Engine K) (hooks : Hooks (Ranged K)),
      ∀ c ∈ ((Scipy.solve engine hooks solver p).perform (.start solver)).2.state.tellings,
      ∀ name, c.options.get? (.text name) =
        if c.isMixed = false ∧ name = "mip_rel_gap" then none
        else preferred anything solver.parameters (Scipy.mapping s c.isMixed) name) ∧
    (∀ (value : K → Value) (env : Environment) (engine : Pyomo.Engine K)
        (hooks : Hooks (Symbolic K)) before output after,
      ((Pyomo.solve value env engine hooks solver p).perform (.start solver)).2.state.tellings =
        before ++ .solve output :: after → ∀ name,
      inForce anything (Pyomo.optionsOf before) name =
        preferred anything solver.parameters (Pyomo.mapping s) name) ∧
    (∀ (engine : Gurobi.Engine K) (hooks : Hooks (Incremental K)) before after,
      ((Gurobi.solve engine hooks solver p).perform (.start solver)).2.state.tellings =
        before ++ .stage .optimize :: after →
      (∀ w ∈ before.filterMap Gurobi.setting?, engine.takes w.1 w.2 = true) ∧ ∀ name,
      inForce engine.takes (before.filterMap Gurobi.setting?) name =
        preferred engine.takes solver.parameters (Gurobi.mapping s) name) ∧
    (∀ (engine : CpSat.Engine) (hooks : Hooks PseudoBoolean) (clock : Nat → Float)
        (questions : Nat),
      ∀ q ∈ ((CpSat.solve engine hooks clock questions solver p).perform
        (.start solver)).2.state.tellings,
      ∃ n remaining, (CpSat.task p s clock).budget n = some remaining ∧
        (∀ w ∈ q.options, engine.takes w.1 w.2 = true) ∧
        (∀ w ∈ (CpSat.mapping s remaining).writes, engine.takes w.1 w.2 = true) ∧ ∀ name,
        inForce engine.takes q.options name =
          preferred engine.takes solver.parameters (CpSat.mapping s remaining) name) ∧
    (∀ (takes : String → Value → Bool) (m : Mapping) (refused : String) (v : Value),
      solver.parameters.get? (.text refused) = some v → takes refused v = false →
      ∀ name, preferred takes (solver.parameters.erase (.text refused)) m name =
        preferred takes solver.parameters m name) ∧
    (∀ engine : Highs.Engine K, Raises (fun _ => False) (Highs.configure engine s)) ∧
    (∀ (engine : CpSat.Engine) (taken : List (String × Value)),
      Raises (fun f => ∃ name v, engine.setOption name v = .error f ∧ CpSat.isRefusal f = false)
        (s.options.entries.foldlM (CpSat.setOption engine) taken :
          Action CpSat.State (List (String × Value)))) := by
  have reads : s.Reads solver.name solver.parameters := Settings.reads_of_ofParameters apart frozen
  refine ⟨reads, ?_, ?_, ?_, ?_, ?_, fun takes m refused v => preferred_erase,
    fun engine => Highs.raises_configure s, fun engine taken =>
      CpSat.raises_foldlM_setOption taken s.options.entries⟩
  · intro engine hooks before m after told name
    rw [Highs.optionsOf_before frozen told]
    exact inForce_written _ reads apart (Highs.nodup_mapping s)
  · intro engine hooks c told name
    exact Scipy.get?_options plain frozen apart told name
  · intro value env engine hooks before output after told name
    rw [Pyomo.optionsOf_before frozen told]
    exact Pyomo.inForce_pluginOptions reads apart name
  · intro engine hooks before after told
    obtain ⟨written, taken⟩ := Gurobi.settings_before frozen told
    refine ⟨taken, fun name => ?_⟩
    rw [written]
    exact inForce_written _ reads apart (Gurobi.nodup_mapping s)
  · intro engine hooks clock questions q told
    have asked := (CpSat.keeps_solve_options frozen ⟨.start solver, []⟩).tellings q told
    obtain ⟨n, remaining, left, optioned⟩ := asked.resolve_left (by simp)
    refine ⟨n, remaining, left, optioned.takes, optioned.taken, fun name => ?_⟩
    exact optioned.inForce_options reads apart name

section

/-- A caller who insists on some options, of which two are no use to the engines that know them. -/
private def insisting : Table Value :=
  ⟨[(Settings.keyOf .threads, .int 4), (.text "threads", .text "many"),
    (.text "num_search_workers", .text "many"), (.text "output_flag", .bool true),
    (.text "disp", .bool true), (.text "OutputFlag", .int 1)]⟩

private def insistingSolver : Solver :=
  { pickSolver with parameters := insisting }

/-- Four threads, and the options that the caller insists on. -/
private def insistingSettings : Settings :=
  { Settings.initial (.text "highs") with
      threads := some 4
      options := ⟨[(.text "threads", .text "many"), (.text "num_search_workers", .text "many"),
        (.text "output_flag", .bool true), (.text "disp", .bool true),
        (.text "OutputFlag", .int 1)]⟩ }

/-- HiGHS that wants no words. -/
private def wordlessHighs : Highs.Engine Float :=
  { highsReplying stoppedHighs with accepts := fun _ v => !(v matches .text _) }

/-- CP-SAT that wants no words. -/
private def wordlessCpSat : CpSat.Engine :=
  { stoppedCpSat with
      setOption := fun _ v =>
        if v matches .text _ then .error (.raised "TypeError" "bad argument type") else .ok () }

private theorem exists_split {ν : Type} {told : List ν} {kind : ν → Bool}
    (one : told.any kind = true) :
    ∃ before x after, told = before ++ x :: after ∧ kind x = true := by
  obtain ⟨x, hx, isKind⟩ := List.any_eq_true.mp one
  obtain ⟨before, after, split⟩ := List.append_of_mem hx
  exact ⟨before, x, after, split, isKind⟩

private theorem exists_run {told : List (Highs.Call Float)}
    (ran : (told.any fun c => c matches .run _) = true) :
    ∃ before m after, told = before ++ .run m :: after := by
  obtain ⟨before, _ | _ | m, after, split, isRun⟩ := exists_split ran
  · cases isRun
  · cases isRun
  · exact ⟨before, m, after, split⟩

private theorem exists_solve {told : List (Pyomo.Call Float)}
    (solved : (told.any fun c => c matches .solve _) = true) :
    ∃ before output after, told = before ++ .solve output :: after := by
  obtain ⟨before, c, after, split, isSolve⟩ := exists_split solved
  cases c with
  | solve output => exact ⟨before, output, after, split⟩
  | _ => cases isSolve

private theorem exists_optimize {told : List (Gurobi.Call Float)}
    (optimized : (told.any fun c => c matches .stage .optimize) = true) :
    ∃ before after, told = before ++ .stage .optimize :: after := by
  obtain ⟨before, c, after, cut, isOptimize⟩ := exists_split optimized
  split at isOptimize
  · exact ⟨before, after, cut⟩
  · cases isOptimize

theorem Solver.options_inForce_insisting :
    let p := pickProblem
    let x := insistingSolver
    x.hooks = [] ∧ (x.parameters.keys.Pairwise fun k k' => k.key ≠ k'.key) ∧
    Settings.ofParameters x.name x.parameters = (.ok insistingSettings, []) ∧
    (∃ before m after, ((Highs.solve wordlessHighs idle x p).perform (.start x)).2.state.tellings =
        before ++ .run m :: after ∧
      inForce wordlessHighs.accepts (Highs.optionsOf before) "output_flag" = some (.bool true) ∧
      inForce wordlessHighs.accepts (Highs.optionsOf before) "threads" = some (.int 4) ∧
      inForce wordlessHighs.accepts (Highs.optionsOf before) "time_limit" = none) ∧
    (∃ c ∈ ((Scipy.solve (fun _ => .ok stoppedScipy) idle x p).perform
        (.start x)).2.state.tellings, c.options.get? (.text "disp") = some (.bool true)) ∧
    (∃ before output after, ((Pyomo.solve .real anywhere (pluginReplying stoppedPlugin) idle x
        p).perform (.start x)).2.state.tellings = before ++ .solve output :: after ∧
      inForce anything (Pyomo.optionsOf before) "threads" = some (.text "many")) ∧
    (∃ before after, ((Gurobi.solve (gurobiReplying stoppedGurobi) idle x p).perform
        (.start x)).2.state.tellings = before ++ .stage .optimize :: after ∧
      inForce (gurobiReplying stoppedGurobi).takes (before.filterMap Gurobi.setting?)
        "OutputFlag" = some (.int 1)) ∧
    (∃ q ∈ ((CpSat.solve wordlessCpSat idle (fun _ => 0.0) 3 x p).perform
        (.start x)).2.state.tellings,
      inForce wordlessCpSat.takes q.options "num_search_workers" = some (.int 4)) := by
  intro p x
  have plain : x.hooks = [] := rfl
  have apart : x.parameters.keys.Pairwise fun k k' => k.key ≠ k'.key := by decide
  have frozen : Settings.ofParameters x.name x.parameters = (.ok insistingSettings, []) := rfl
  obtain ⟨-, highs, scipy, pyomo, gurobi, cpsat, -⟩ :=
    Solver.options_inForce (K := Float) plain apart frozen p
  refine ⟨plain, apart, frozen, ?_, ?_, ?_, ?_, ?_⟩
  · have ran : ∃ before m after, ((Highs.solve wordlessHighs idle x p).perform
        (.start x)).2.state.tellings = before ++ .run m :: after := exists_run (by decide +kernel)
    obtain ⟨before, m, after, told⟩ := ran
    have held := highs wordlessHighs idle before m after told
    exact ⟨before, m, after, told, held "output_flag", held "threads", held "time_limit"⟩
  · have asked : (((Scipy.solve (fun _ => .ok stoppedScipy) idle x p).perform
        (.start x)).2.state.tellings.any Scipy.Call.isMixed) = true := by decide +kernel
    obtain ⟨c, told, isMixed⟩ := List.any_eq_true.mp asked
    refine ⟨c, told, (scipy _ idle c told "disp").trans ?_⟩
    rw [isMixed]
    rfl
  · have solved : ∃ before output after, ((Pyomo.solve .real anywhere
        (pluginReplying stoppedPlugin) idle x p).perform (.start x)).2.state.tellings =
          before ++ .solve output :: after := exists_solve (by decide +kernel)
    obtain ⟨before, output, after, told⟩ := solved
    have held := pyomo .real anywhere _ idle before output after told "threads"
    exact ⟨before, output, after, told, held.trans (preferred_of_taken rfl rfl)⟩
  · have optimized : ∃ before after, ((Gurobi.solve (gurobiReplying stoppedGurobi) idle x p).perform
        (.start x)).2.state.tellings = before ++ .stage .optimize :: after :=
      exists_optimize (by decide +kernel)
    obtain ⟨before, after, told⟩ := optimized
    have held := (gurobi (gurobiReplying stoppedGurobi) idle before after told).2 "OutputFlag"
    exact ⟨before, after, told, held.trans (preferred_of_taken rfl rfl)⟩
  · have asked : (((CpSat.solve wordlessCpSat idle (fun _ => 0.0) 3 x p).perform
        (.start x)).2.state.tellings.any fun _ => true) = true := by decide +kernel
    obtain ⟨q, told, -⟩ := List.any_eq_true.mp asked
    obtain ⟨n, remaining, -, -, -, held⟩ := cpsat wordlessCpSat idle (fun _ => 0.0) 3 q told
    have four : preferred wordlessCpSat.takes insisting (CpSat.mapping insistingSettings remaining)
        "num_search_workers" = some (.int 4) := by
      have given : insisting.get? (.text "num_search_workers") = some (.text "many") := rfl
      have no : wordlessCpSat.takes "num_search_workers" (.text "many") = false := rfl
      have yes : wordlessCpSat.takes "num_search_workers" (.int 4) = true := rfl
      rw [preferred, given]
      simp [Option.filter, no, yes, CpSat.mapping, Mapping.value?, insistingSettings, List.lookup]
    exact ⟨q, told, (held "num_search_workers").trans four⟩

/-- Without any parameters HiGHS is told to be silent, although nothing asks for that. -/
theorem Highs.silent_unasked :
    let engine := highsReplying stoppedHighs
    pickSolver.hooks = [] ∧ pickSolver.parameters = .empty ∧
    pickSolver.parameters.get? (.text "output_flag") = none ∧
    pickSolver.parameters.given? (Settings.keyOf .verbose) = none ∧
    ∃ before m after, ((Highs.solve engine idle pickSolver pickProblem).perform
        (.start pickSolver)).2.state.tellings = before ++ .run m :: after ∧
      inForce engine.accepts (Highs.optionsOf before) "output_flag" = some (.bool false) := by
  intro engine
  have frozen : Settings.ofParameters pickSolver.name pickSolver.parameters =
      (.ok (.initial pickSolver.name), []) := rfl
  have ran : ∃ before m after, ((Highs.solve engine idle pickSolver pickProblem).perform
      (.start pickSolver)).2.state.tellings = before ++ .run m :: after :=
    exists_run (by decide +kernel)
  obtain ⟨before, m, after, told⟩ := ran
  refine ⟨rfl, rfl, rfl, rfl, before, m, after, told, ?_⟩
  rw [Highs.optionsOf_before frozen told]
  rfl

end

end Milp
