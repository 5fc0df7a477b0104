import Milp.Proofs.Engine.Scipy.Reply
import Milp.Proofs.Store.Built

/-!
# Solutions of SciPy

For a problem that is `Store.Built`, `Scipy.solve` gives a best solution where the reply reports an
optimal point, and none where there is none. Without variables SciPy is not asked.
-/

namespace Milp.Scipy

open Milp.Action (runOn_bind runOn_ofExcept)

/-! ## Problems without variables -/

section

variable {p : Problem}

theorem exists_allHold {cs : Series Constraint} (complete : cs.ending = .complete)
    {rest : List Constraint} (finite : ∀ c ∈ rest, c.rhs.ReadsFinite) :
    ∃ b, allHoldWithoutTerms.go Extended cs rest = .ok b ∧
      (b = true ↔ ∀ c ∈ rest, c.relation.Holds 0 c.rhs.toRat) := by
  induction rest with
  | nil =>
      refine ⟨true, ?_, by simp⟩
      rw [allHoldWithoutTerms.go, Series.finish, complete]
      rfl
  | cons c rest ih =>
      obtain ⟨head, tail⟩ := List.forall_mem_cons.mp finite
      obtain ⟨b, hb, holds⟩ := Constraint.holdsWithoutTerms_eq_ok head
      obtain ⟨b', hb', holds'⟩ := ih tail
      rw [allHoldWithoutTerms.go, hb, List.forall_mem_cons]
      cases b with
      | true => exact ⟨b', hb', by simp [← holds, holds']⟩
      | false => exact ⟨false, rfl, by simp [← holds]⟩

theorem terms_eq_nil (none : p.variableList = []) {ts : List Term}
    (registered : ∀ t ∈ ts, p.Registered t.var) : ts = [] := by
  refine List.eq_nil_iff_forall_not_mem.mpr fun t ht => ?_
  obtain ⟨w, hw, -⟩ := (registered t ht).exists_mem
  rw [none] at hw
  cases hw

theorem satisfies_iff (h : p.WellFormed) (none : p.variableList = []) {c : Constraint}
    (hc : c ∈ p.constraints.items) (x : Key → Rat) :
    Problem.Satisfies c x ↔ c.relation.Holds 0 c.rhs.toRat := by
  obtain ⟨l, hl, registered⟩ := h.constraints c hc
  refine Problem.satisfies_of_items_eq_nil ?_ x
  rw [hl, Expression.terms_linear, Series.items_ofList, terms_eq_nil none registered]

theorem objectiveAt_eq_zero (h : p.WellFormed) (none : p.variableList = []) (x : Key → Rat) :
    p.objectiveAt x = 0 := by
  unfold Problem.objectiveAt
  cases ho : p.objective with
  | none => rfl
  | some e =>
      obtain ⟨l, rfl, registered⟩ := h.objective e ho
      simp [Expression.total, terms_eq_nil none registered]

theorem runOn_solveEmpty (none : p.variableList = []) {b : Bool}
    (hb : allHoldWithoutTerms Extended p.constraints = .ok b)
    (s : Logged (Session (Call Extended))) :
    ∃ log, (solveEmpty p).runOn s =
      (.ok (if b then some (⟨.empty, .empty, .none⟩ : Solution Extended) else .none),
        ⟨{ s.state with
          status := .symbol (.status (if b then .optimal else .infeasible)) }, log⟩) := by
  have status : p.statusWithoutVariables Extended =
      .ok (if b then .optimal else .infeasible) := bind_eq_ok.mpr ⟨b, hb, rfl⟩
  have extracted (absent : Value → Except Fault Extended) :
      Solution.extract p.toDeclarations absent .none = .ok ⟨.empty, .empty, .none⟩ := by
    rw [Solution.extract, none]
    rfl
  unfold solveEmpty
  rw [runOn_bind, runOn_ofExcept, status]
  dsimp only
  rw [extracted]
  cases b <;> exact ⟨_, rfl⟩

theorem solves_empty (h : p.WellFormed) (finite : p.FiniteData) (none : p.variableList = [])
    (hold : ∀ c ∈ p.constraints.items, c.relation.Holds 0 c.rhs.toRat) :
    p.Solves ⟨.empty, .empty, .none⟩ fun _ => 0 := by
  have holds : Solution.Holds ⟨.empty, .empty, .none⟩ p.toDeclarations fun _ => 0 := by
    refine ⟨?_, fun v hv => ?_⟩
    · rw [none]
      rfl
    · rw [none] at hv
      cases hv
  refine ⟨holds, ⟨fun c hc => (satisfies_iff h none hc _).mpr (hold c hc), fun v hv => ?_⟩,
    fun y _ => ?_, fun l hl => ?_⟩
  · rw [none] at hv
    cases hv
  · simp [objectiveAt_eq_zero h none]
  · exact h.exists_evaluate finite holds hl

end

/-! ## Whole solves -/

/-- What a solve gave, and the session it left. -/
abbrev Run : Type :=
  Except Fault (Option (Solution Extended)) × Logged (Session (Call Extended))

/-- A solve gave a solution, and the status of one that is proved to be best. -/
def Run.Solves (run : Run) (p : Problem) (s : Solution Extended) (x : Key → Rat) : Prop :=
  run.1 = .ok (some s) ∧ p.Solves s x ∧ run.2.state.status = .symbol (.status .optimal)

/-- A solve gave no solution, and the status that there is none. -/
def Run.FindsNone (run : Run) : Prop :=
  run.1 = .ok none ∧ run.2.state.status = .symbol (.status .infeasible)

/-- A problem without variables is answered without SciPy: its constraints hold or fail by
themselves. -/
structure Run.AnswersEmpty (run : Run) (p : Problem) : Prop where
  untold : run.2.state.tellings = []
  solved : (∀ c ∈ p.constraints.items, c.relation.Holds 0 c.rhs.toRat) →
    ∃ s x, run.Solves p s x ∧ s.primal = .empty ∧ s.objectiveValue = none
  unsolved : ¬(∀ c ∈ p.constraints.items, c.relation.Holds 0 c.rhs.toRat) →
    run.FindsNone ∧ ∀ x, ¬p.Feasible x

/-- The duals of a linear program are entered under the names of its constraints, which must be keys
of a dictionary for that. -/
def Call.Nameable (call : Call Extended) (p : Problem) : Prop :=
  match call with
  | .mixed _ => True
  | .linear _ => ∀ c ∈ p.constraints.items, c.name.checkKey = .ok ()

/-- SciPy is told once. A reply that reports an optimal point gives a solution with the objective
value of the problem, where its duals can be entered (`Call.Nameable`), and one that says that there
is no point gives none; if there is none, the problem cannot be satisfied. -/
structure Run.Answers (run : Run) (p : Problem) (engine : Engine Extended)
    (call : Call Extended) : Prop where
  told : run.2.state.tellings = [call]
  solved : ∀ r q, engine call = .ok r → call.Reports r q → call.Nameable p →
    ∃ s x, run.Solves p s x ∧
      s.objectiveValue = p.objective.map fun _ => .number (.real (.finite (p.objectiveAt x)))
  unsolved : ∀ r, engine call = .ok r → r.code = .int 2 → run.FindsNone
  infeasible : (∀ q, ¬call.Admits q) → ∀ x, ¬p.Feasible x

section

variable {p : Problem} {solver : Solver} {settings : Settings} {engine : Engine Extended}
  {hooks : Hooks (Ranged Extended)}

theorem answersEmpty_solve (h : p.WellFormed) (finite : p.FiniteData) (plain : solver.hooks = [])
    (frozen : (Settings.ofParameters solver.name solver.parameters).1 = .ok settings)
    (none : p.variableList = []) :
    Run.AnswersEmpty ((solve engine hooks solver p).perform (.start solver)) p := by
  obtain ⟨m, hm, -⟩ := h.exists_ranged finite
  obtain ⟨opts, log, run⟩ := perform_solve engine hooks plain frozen hm
  obtain ⟨b, hb, holds⟩ := exists_allHold h.complete finite.sides
  have empty : p.index.size = 0 := by simp [none]
  obtain ⟨log', answer⟩ := runOn_solveEmpty none hb ⟨⟨.none, Option.none, []⟩, log⟩
  rw [if_pos empty, answer] at run
  rw [run]
  refine ⟨rfl, fun hold => ?_, fun fails => ?_⟩
  · rw [holds.mpr hold]
    exact ⟨_, _, ⟨rfl, solves_empty h finite none hold, rfl⟩, rfl, rfl⟩
  · rw [Bool.eq_false_iff.mpr fun hb => fails (holds.mp hb)]
    refine ⟨⟨rfl, rfl⟩, fun x feasible => fails fun c hc => ?_⟩
    exact (satisfies_iff h none hc x).mp (feasible.constraints c hc)

theorem answers_solve (h : p.WellFormed) (finite : p.FiniteData) (plain : solver.hooks = [])
    (frozen : (Settings.ofParameters solver.name solver.parameters).1 = .ok settings)
    (some : p.variableList ≠ []) :
    ∃ call, Run.Answers ((solve engine hooks solver p).perform (.start solver)) p engine call := by
  obtain ⟨m₀, hm, presents⟩ := h.exists_ranged finite
  obtain ⟨opts, log, run⟩ := perform_solve engine hooks plain frozen hm
  have nonempty : p.index.size ≠ 0 := by simp [some]
  rw [if_neg nonempty] at run
  rw [run]
  replace presents := presents.withOptions opts
  generalize { m₀ with options := opts } = m at presents
  refine ⟨callOf m, ?_, fun r q reply reports named => ?_, fun r reply code => ?_,
    fun empty x feasible => ?_⟩
  · exact tellings_answer engine solver p m (callOf m) log
  · have dual : ∃ d, (m.isMixed = true ∧ d = .empty) ∨
        (m.isMixed = false ∧ duals p p.index m r = .ok d) := by
      cases mixed : m.isMixed with
      | true => exact ⟨.empty, .inl ⟨rfl, rfl⟩⟩
      | false =>
          have fits := reports.marginals
          rw [callOf, mixed] at fits named
          obtain ⟨d, hd⟩ := exists_duals h named presents fits
          exact ⟨d, .inr ⟨rfl, hd⟩⟩
    obtain ⟨d, dual⟩ := dual
    obtain ⟨s, read, solves, objective⟩ := solves_of_reports h finite presents reports d
    have classified : classify r.code r.values.isSome = .ok .optimal := by
      rw [reports.code]
      cases r.values.isSome <;> rfl
    obtain ⟨log', answer⟩ := runOn_of_solved solver reply classified rfl dual read
      ⟨⟨.none, none, [.told (callOf m)]⟩, log⟩
    rw [answer]
    exact ⟨s, _, ⟨rfl, solves, rfl⟩, objective⟩
  · obtain ⟨log', answer⟩ := runOn_of_infeasible solver p reply code
      ⟨⟨.none, none, [.told (callOf m)]⟩, log⟩
    rw [answer]
    exact ⟨rfl, rfl⟩
  · refine empty (p.pointOf x) ((admits_callOf presents.proper).mpr ?_)
    exact (presents.admits x _ (p.reads_pointOf x)).mpr feasible

end

/-- A problem that is `Store.Built` is solved as it stands: by `Run.AnswersEmpty` without variables,
and by `Run.Answers` with them. -/
theorem solve_sound {id : Nat} {store : Store} (built : store.Built id)
    (finite : (store.viewProblem id).FiniteData)
    {solver : Solver} (plain : solver.hooks = []) {settings : Settings}
    (frozen : (Settings.ofParameters solver.name solver.parameters).1 = .ok settings)
    (engine : Engine Extended) (hooks : Hooks (Ranged Extended)) :
    let p := store.viewProblem id
    let run : Run := (solve engine hooks solver p).perform (.start solver)
    (p.variableList = [] → run.AnswersEmpty p) ∧
      (p.variableList ≠ [] → ∃ call, run.Answers p engine call) :=
  have h := built.sound.wellFormed
  ⟨answersEmpty_solve h finite plain frozen, answers_solve h finite plain frozen⟩

def decisionModel : Ranged Extended :=
  { cost := [.finite (-3), .finite 0]
    matrix := ⟨2, [[(0, .finite 2), (1, .finite 2)]]⟩
    rowLower := [.negInf], rowUpper := [.finite 3]
    lower := [.finite 0, .finite 0], upper := [.finite 2, .finite 1]
    integrality := [1, 1], maximize := true, options := ⟨[(.text "disp", .bool false)]⟩ }

/-- A reply that is some way off the best point. -/
def roughReply : Reply Extended :=
  { code := .int 0, values := some [.finite (5 / 4), .finite (-1 / 4)]
    objective := some (.number (.real (.finite (-3)))), upperMarginals := none
    equationMarginals := none, lowerBoundMarginals := none, upperBoundMarginals := none }

theorem rows_decisionModel (q : Nat → Rat) :
    (∀ e ∈ decisionModel.matrix.rows.zip decisionModel.ranges,
      e.2.contains (e.1.dot q) = true) ↔ 2 * q 0 + 2 * q 1 ≤ 3 := by
  have zipped : decisionModel.matrix.rows.zip decisionModel.ranges =
      [([(0, .finite 2), (1, .finite 2)], ⟨.negInf, .finite 3⟩)] := rfl
  have row : SparseRow.dot [(0, .finite 2), (1, .finite 2)] q =
      .finite (2 * q 0 + (2 * q 1 + 0)) := rfl
  rw [zipped, List.forall_mem_singleton, row]
  simp [Range.contains]

theorem costAt_decisionModel (q : Nat → Rat) :
    costAt decisionModel.cost q = .finite (-3 * q 0 + (0 * q 1 + 0)) := rfl

theorem admits_decisionModel : decisionModel.Admits fun j => if j = 0 then 1 else 0 := by
  refine ⟨(rows_decisionModel _).mpr (by norm_num), fun j lo h => ?_, fun j up h => ?_,
    fun j _ => ?_⟩
  · rcases j with _ | _ | j
    · cases h
      simp
    · cases h
      simp
    · cases h
  · rcases j with _ | _ | j
    · cases h
      norm_num
    · cases h
      norm_num
    · cases h
  · split
    · exact ⟨1, by simp⟩
    · exact ⟨0, by simp⟩

/-- No admitted point has more than one unit in the first column. -/
theorem le_one_of_admits {q : Nat → Rat} (h : decisionModel.Admits q) : q 0 ≤ 1 := by
  have weight := (rows_decisionModel q).mp h.rows
  have positive : 0 ≤ q 1 := by simpa using h.columns.lower 1 _ rfl
  obtain ⟨n, hn⟩ := h.columns.integral 0 rfl
  have small : n < 2 := by
    rw [hn] at weight
    exact_mod_cast (by linarith : (n : Rat) < 2)
  rw [hn]
  exact_mod_cast (by omega : n ≤ 1)

theorem reports_roughReply :
    (Call.mixed decisionModel).Reports roughReply fun j => if j = 0 then 1 else 0 := by
  refine ⟨rfl, ⟨admits_decisionModel, fun q admits => ?_⟩, ⟨_, rfl, rfl, fun j y hy => ?_⟩, ?_,
    trivial⟩
  · have least := le_one_of_admits admits
    change Numeric.le (costAt decisionModel.cost _) (costAt decisionModel.cost q) = true
    rw [costAt_decisionModel, costAt_decisionModel, Extended.le_finite]
    simp only [if_true, one_ne_zero, if_false]
    linarith
  · rcases j with _ | _ | j
    · cases hy
      exact ⟨_, rfl, by norm_num [Call.Close, decisionModel, abs_lt]⟩
    · cases hy
      exact ⟨_, rfl, by norm_num [Call.Close, decisionModel, abs_lt]⟩
    · cases hy
  · change some _ = some (Reported.number (.real (costAt decisionModel.cost _)))
    rw [costAt_decisionModel]
    norm_num

set_option maxRecDepth 8000 in
/-- The decision is solved although the reply has to be rounded. -/
theorem solve_sound_decision :
    let solver := Solver.fresh .scipy "scipy"
    let p := Store.decision.viewProblem 0
    let run : Run :=
      (solve (fun _ => .ok roughReply) (fun _ _ m => (m, none)) solver p).perform (.start solver)
    Store.decision.Built 0 ∧ p.FiniteData ∧ p.variableList ≠ [] ∧
      ∃ s x, run.Solves p s x ∧ s.objectiveValue =
        p.objective.map fun _ => .number (.real (.finite (p.objectiveAt x))) := by
  intro solver p run
  have vars : p.variableList = [.text "x", .text "y"] := by
    with_unfolding_all rfl
  have some : p.variableList ≠ [] := by
    rw [vars]
    exact List.cons_ne_nil _ _
  have told : run.2.state.tellings = [.mixed decisionModel] := by
    with_unfolding_all rfl
  have plain : solver.hooks = [] := rfl
  have frozen : (Settings.ofParameters solver.name solver.parameters).1 =
      .ok (Settings.initial (.text "scipy")) := rfl
  obtain ⟨call, answers⟩ :=
    (solve_sound Store.built_decision Store.finiteData_decision plain frozen _ _).2 some
  obtain rfl : call = .mixed decisionModel := by simpa using answers.told.symm.trans told
  exact ⟨Store.built_decision, Store.finiteData_decision, some,
    answers.solved roughReply _ rfl reports_roughReply trivial⟩

/-! ## A name that is no key -/

/-- A constraint whose name is a list. -/
def listed : Store :=
  (Store.newProblem.perform ((Store.newList []).perform .empty).2.state).2.state
    |> Store.called "add" [.object ⟨.list, 0⟩, .tuple [.term (.text "x") (.int 1)], .text ">=",
      .int 0]

theorem built_listed : listed.Built 0 := by
  have new : (Store.newProblem.perform ((Store.newList []).perform .empty).2.state).2.state.Built 0 :=
    .new rfl rfl
  exact new.called rfl (by decide)

def listedProblem : Problem :=
  { vars := ⟨[(.text "x", ())]⟩, domains := .empty, lowers := .empty, uppers := .empty
    objective := none, sense := .min
    constraints := .ofList [
      ⟨.linear ⟨[⟨.text "x", .int 1⟩]⟩, .symbol (.relation .ge), .int 0, .object ⟨.list, 0⟩⟩] }

set_option maxRecDepth 8000 in
theorem viewProblem_listed : listed.viewProblem 0 = listedProblem := by
  with_unfolding_all rfl

theorem finiteData_listedProblem : listedProblem.FiniteData := by
  have whole (n : Int) : (Value.int n).ReadsFinite := Value.readsFinite_of_eq rfl
  exact ⟨by simp [listedProblem, whole], by simp [listedProblem, whole], by simp [listedProblem],
    fun v _ => ⟨nofun, nofun⟩⟩

def listedSplit : Split Extended :=
  { cost := [.finite 0], upperRows := some (⟨1, [[(0, .finite (-1))]]⟩, [.finite 0])
    equations := none, bounds := [⟨none, none⟩]
    options := ⟨[(.text "disp", .bool false)]⟩ }

def listedReply : Reply Extended :=
  { code := .int 0, values := some [.finite 0], objective := some (.number (.real (.finite 0)))
    upperMarginals := some [.finite 0], equationMarginals := none
    lowerBoundMarginals := some [.finite 0], upperBoundMarginals := some [.finite 0] }

theorem reports_listedReply : (Call.linear listedSplit).Reports listedReply fun _ => 0 := by
  have cost (q : Nat → Rat) : costAt listedSplit.cost q = .finite (0 * q 0 + 0) := rfl
  refine ⟨rfl, ⟨⟨?_, nofun, ?_⟩, fun q _ => ?_⟩, ⟨_, rfl, rfl, fun j y hy => ?_⟩, ?_, ?_⟩
  · rintro a sides ⟨⟩
    decide +kernel
  · rintro (_ | j) b hb
    · cases hb
      exact ⟨nofun, nofun⟩
    · cases hb
  · change Numeric.le (costAt listedSplit.cost _) (costAt listedSplit.cost q) = true
    rw [cost, cost, Extended.le_finite]
    simp
  · rcases j with _ | j
    · cases hy
      exact ⟨0, rfl, rfl⟩
    · cases hy
  · change some _ = some (Reported.number (.real (costAt listedSplit.cost _)))
    rw [cost]
    norm_num
  · refine ⟨?_, nofun, ?_, ?_⟩ <;> rintro ys ⟨⟩ <;> rfl

set_option maxRecDepth 8000 in
/-- Without `Call.Nameable` an honest reply is answered by a fault: the duals are collected before
the solution is read. -/
theorem broken_of_listed :
    let solver := Solver.fresh .scipy "scipy"
    let p := listed.viewProblem 0
    let run : Run :=
      (solve (fun _ => .ok listedReply) (fun _ _ m => (m, none)) solver p).perform (.start solver)
    listed.Built 0 ∧ p.FiniteData ∧ run.2.state.tellings = [.linear listedSplit] ∧
      (Call.linear listedSplit).Reports listedReply (fun _ => 0) ∧
      run.1 = .error (.unhashable "list") := by
  intro solver p run
  have view : p = listedProblem := viewProblem_listed
  have told : run.2.state.tellings = [.linear listedSplit] := by
    with_unfolding_all rfl
  have broken : run.1 = .error (.unhashable "list") := by
    with_unfolding_all rfl
  exact ⟨built_listed, view ▸ finiteData_listedProblem, told, reports_listedReply, broken⟩

end Milp.Scipy
