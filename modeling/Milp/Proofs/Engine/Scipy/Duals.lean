import Milp.Proofs.Engine.Scipy.Correctness
import Milp.Proofs.Problem.Duals

/-!
# Duals of SciPy

The marginals of a linear program belong to its split rows, and are those of something to be made
small. A solution reports them by constraint and by variable, as duals of the problem that it
solves.
-/

namespace Milp.Scipy

/-! ## Marginals of a reply -/

/-- A reply gives the numbers of a point, and multipliers as its marginals. -/
structure Reply.Carries (r : Reply Extended) (size : Nat) (k : Multipliers) (q : Nat → Rat) :
    Prop where
  status : ∃ s, classify r.code true = .ok s ∧ s.hasSolution = true
  values : r.values = some ((List.range size).map fun j => .finite (q j))
  objective : ∀ y, r.objective = some y → ∃ z, y = .number z
  upperMarginals : r.upperMarginals.getD [] = k.upperRows.map .finite
  equationMarginals : r.equationMarginals.getD [] = k.equations.map .finite
  lowerBoundMarginals : r.lowerBoundMarginals = some (k.lower.map .finite)
  upperBoundMarginals : r.upperBoundMarginals = some (k.upper.map .finite)

theorem scatter_finite (xs : List Rat) (places : List Nat) (ys : List Rat) :
    scatter (xs.map Extended.finite) places (ys.map .finite) =
      (deposit xs places ys).map .finite := by
  unfold scatter deposit
  rw [List.zip_map_right, List.foldl_map]
  induction places.zip ys generalizing xs with
  | nil => rfl
  | cons z sent ih =>
      have step : (xs.map Extended.finite).modify z.1 (· + .finite z.2) =
          (xs.modify z.1 (· + z.2)).map .finite := by
        refine List.ext_getElem? fun i => ?_
        simp only [List.getElem?_map, List.getElem?_modify]
        cases xs[i]? <;> split <;> rfl
      rw [List.foldl_cons, List.foldl_cons, ← ih, ← step]
      rfl

/-- `gatherRows` of finite marginals are the `gathered` multipliers. -/
theorem gatherRows_finite (m : Ranged Extended) (k : Multipliers) :
    gatherRows m (k.upperRows.map .finite) (k.equations.map .finite) =
      (m.gathered k).map .finite := by
  have zeros (n : Nat) : List.replicate n (Numeric.zero : Extended) =
      (List.replicate n (0 : Rat)).map .finite := by
    simp
  have opposite (ys : List Rat) : (ys.map Extended.finite).map (fun a => -a) =
      (ys.map fun y => -y).map .finite := by
    simp [List.map_map, Function.comp_def]
  unfold gatherRows Ranged.gathered
  simp only [zeros, ← List.map_take, ← List.map_drop, opposite, scatter_finite]

section

variable {m : Ranged Extended} {k : Multipliers} {q : Nat → Rat} {r : Reply Extended} {size : Nat}

theorem rowDuals_of_carries (proper : m.Proper) (stationary : m.split.Stationary k q)
    (carries : r.Carries size k q) :
    rowDuals m.matrix.rows.length m r = .ok ((m.gathered k).map .finite) := by
  obtain ⟨parts, equations⟩ := Ranged.length_of_stationary proper stationary
  have upper : ∀ ys, r.upperMarginals = some ys → ys.length =
      (m.rowsWhere Ranged.hasUpper).length + (m.rowsWhere Ranged.hasLower).length := by
    intro ys hys
    have given := carries.upperMarginals
    rw [hys, Option.getD_some] at given
    rw [given, List.length_map, parts]
  have equation : ∀ ys, r.equationMarginals = some ys →
      ys.length = (m.rowsWhere Ranged.isEquation).length := by
    intro ys hys
    have given := carries.equationMarginals
    rw [hys, Option.getD_some] at given
    rw [given, List.length_map, equations]
  rw [rowDuals_eq_ok proper.aligned upper equation, carries.upperMarginals, carries.equationMarginals,
    gatherRows_finite]

theorem columnDuals_of_carries (proper : m.Proper) (stationary : m.split.Stationary k q)
    (carries : r.Carries size k q) :
    columnDuals m.lower.length r = .ok ((List.zipWith (· + ·) k.lower k.upper).map .finite) := by
  obtain ⟨lowerCount, upperCount⟩ := Ranged.length_bounds_of_stationary proper stationary
  have added {xs ys : List Rat} (h : ys.length = xs.length) :
      addPresent (some (ys.map Extended.finite)) (xs.map .finite) =
        .ok ((List.zipWith (· + ·) xs ys).map .finite) := by
    refine bind_eq_ok.mpr ⟨_, fit_eq_ok (by simp [h]), ?_⟩
    rw [List.zipWith_map, List.map_zipWith]
    rfl
  have zeros : List.replicate m.lower.length (Numeric.zero : Extended) =
      (List.replicate k.lower.length (0 : Rat)).map .finite := by
    simp [lowerCount]
  have first : List.zipWith (· + ·) (List.replicate k.lower.length (0 : Rat)) k.lower = k.lower :=
    List.ext_getElem (by simp) fun i _ _ => by simp
  unfold columnDuals
  rw [carries.lowerBoundMarginals, carries.upperBoundMarginals, zeros]
  refine bind_eq_ok.mpr ⟨_, added (by simp), ?_⟩
  rw [first, added (upperCount.trans lowerCount.symm)]

theorem signed_finite {p : Problem} (sense : m.maximize = p.isMaximize) (a : Rat) :
    signed m (.finite a) = .finite (p.inSense a) := by
  have one : (Numeric.ofFloat 1.0 : Extended) = .finite 1 := by decide +kernel
  unfold signed Problem.inSense
  rw [one, sense]
  cases p.isMaximize <;> simp

/-- Duals of rows and columns are reported in the sense of the problem by every solution that takes
them over. -/
theorem exists_reports {p : Problem} (h : p.WellFormed) (named : p.Named)
    (presents : p.Presents m) {ys ds : List Rat}
    (hrows : rowDuals p.constraints.items.length m r = .ok (ys.map .finite))
    (hcolumns : columnDuals p.index.size r = .ok (ds.map .finite))
    (rowCount : ys.length = p.constraints.items.length)
    (columnCount : ds.length = p.index.size) :
    ∃ d, duals p p.index m r = .ok d ∧
      ∀ s : Solution Extended, s.dual = Table.empty.insertAll d.entries →
        p.Reports s (ys.map p.inSense) (ds.map p.inSense) := by
  obtain ⟨es, keys, entered, made⟩ := duals_eq_ok h named.hashable hrows hcolumns
    (by simpa using columnCount)
  have turned : (ys.map Extended.finite).map (signed m) = (ys.map p.inSense).map .finite := by
    simp [Function.comp_def, signed_finite presents.maximize]
  rw [turned] at made
  have names : (es ++ (p.constraints.items.map (·.name)).zip
      ((ys.map p.inSense).map Extended.finite)).map (·.1) =
        p.variableList ++ p.constraints.items.map (·.name) := by
    rw [List.map_append, keys, List.map_fst_zip (by simp [rowCount])]
  have apart : (p.variableList ++ p.constraints.items.map (·.name)).Pairwise
      fun k k' => k.key ≠ k'.key := by
    refine List.pairwise_append.mpr ⟨h.distinct.keys, named.keys, fun v hv w hw => ?_⟩
    obtain ⟨c, hc, rfl⟩ := List.mem_map.mp hw
    exact named.fresh v hv c hc
  rw [← names] at apart
  refine ⟨_, made, fun s hs => ?_⟩
  rw [Table.insertAll_ofList apart] at hs
  have found {v : Value} {y : Extended} (there : (v, y) ∈
      es ++ (p.constraints.items.map (·.name)).zip ((ys.map p.inSense).map Extended.finite)) :
      s.dual.get? v = some y := by
    have told := List.pairwise_map.mp apart
    rw [hs]
    exact Table.get?_of_pairwise told there rfl
  refine ⟨List.forall₂_iff_zip.mpr ⟨by simp [rowCount], fun {c y} hcy => ?_⟩,
    List.forall₂_iff_zip.mpr ⟨by simpa using columnCount.symm, fun {v d} hvd => ?_⟩⟩
  · refine found (List.mem_append_right _ ?_)
    rw [List.zip_map]
    exact List.mem_map.mpr ⟨(c, y), hcy, rfl⟩
  · obtain ⟨j, hj⟩ := List.getElem?_of_mem hvd
    obtain ⟨hv, hd⟩ := List.getElem?_zip_eq_some.mp hj
    obtain ⟨a, ha, rfl⟩ := Option.map_eq_some_iff.mp (List.getElem?_map.symm.trans hd)
    refine found (List.mem_append_left _ ?_)
    rw [← signed_finite presents.maximize]
    exact entered j v _ hv (by rw [List.getElem?_map, ha]; rfl)

end

/-! ## Whole solves -/

/-- A solve gave a solution that holds the numbers of variables, and that reports duals of the
problem there. -/
def Run.ReportsDuals (run : Run) (p : Problem) (x : Key → Rat) : Prop :=
  ∃ s ys ds, run.1 = .ok (some s) ∧ s.Holds p.toDeclarations x ∧ p.Reports s ys ds ∧
    p.Duals x ys ds

section

variable {p : Problem} {m : Ranged Extended} {k : Multipliers} {q : Nat → Rat} {r : Reply Extended}

theorem isMixed_of_real (presents : p.Presents m)
    (real : ∀ v ∈ p.variableList, p.domainOf v = .real) : m.isMixed = false := by
  rw [Ranged.isMixed, presents.integrality, List.any_map]
  refine List.any_eq_false.mpr fun v hv => ?_
  rw [Function.comp_apply, real v hv]
  decide

/-- A reply with marginals is read as a solution that holds the numbers of its point. -/
theorem exists_readSolution_of_carries (h : p.WellFormed)
    (real : ∀ v ∈ p.variableList, p.domainOf v = .real)
    (carries : r.Carries p.index.size k q) (status : Status) (d : Table Extended) :
    ∃ s, readSolution p p.index m ⟨status, r, d⟩ = .ok s ∧
      s.Holds p.toDeclarations (p.assignmentAt q) ∧
      s.dual = Table.empty.insertAll d.entries := by
  have reads := p.reads_assignmentAt q
  have objective : ∀ y, r.objective = some y → ∃ z, y.neg = .ok z := by
    intro y hy
    obtain ⟨z, rfl⟩ := carries.objective y hy
    exact ⟨.number z.neg, rfl⟩
  obtain ⟨o, ho⟩ := exists_readObjective (p := p) (m := m) objective
  obtain ⟨s, read, holds, dual, -⟩ := exists_readSolution h (a := ⟨status, r, d⟩) ho carries.values
    (x := p.assignmentAt q) (by simp) fun j v y hv hy => by
      obtain ⟨-, rfl⟩ := List.getElem?_eq_some_iff.mp hy
      refine ⟨q j, by simp, ?_⟩
      rw [Domain.Near, real v (List.mem_of_getElem? hv)]
      exact reads.at_place h.distinct hv
  exact ⟨s, read, holds, dual⟩

/-- A reply with marginals gives a solution that reports them in the sense of the problem. -/
theorem exists_answer_of_carries (h : p.WellFormed)
    (real : ∀ v ∈ p.variableList, p.domainOf v = .real) (named : p.Named)
    (presents : p.Presents m) (linear : m.isMixed = false) {engine : Engine Extended}
    (solver : Solver) (reply : engine (callOf m) = .ok r) (stationary : m.split.Stationary k q)
    (carries : r.Carries m.split.cost.length k q) (t : Logged (Session (Call Extended))) :
    ∃ s state, (guarded solver.name (takeReply engine p m) >>= conclude p m).runOn t =
        (.ok (some s), state) ∧
      s.Holds p.toDeclarations (p.assignmentAt q) ∧
      p.Reports s ((m.gathered k).map p.inSense)
        ((List.zipWith (· + ·) k.lower k.upper).map p.inSense) := by
  have duals := Ranged.duals_of_stationary presents.proper stationary
  have rows := rowDuals_of_carries presents.proper stationary carries
  have columns := columnDuals_of_carries presents.proper stationary carries
  rw [presents.rowCount] at rows
  rw [presents.columnCount] at columns
  obtain ⟨d, hd, reported⟩ := exists_reports h named presents rows columns
    (duals.rowCount.trans presents.rowCount) (duals.columnCount.trans presents.columnCount)
  obtain ⟨status, classified, solution⟩ := carries.status
  have size : m.split.cost.length = p.index.size := presents.costCount
  obtain ⟨s, read, holds, dual⟩ :=
    exists_readSolution_of_carries h real (size ▸ carries) status d
  have there : classify r.code r.values.isSome = .ok status := by
    rw [carries.values]
    exact classified
  obtain ⟨log, answer⟩ := runOn_of_solved solver reply there solution (.inr ⟨linear, hd⟩) read t
  exact ⟨s, _, answer, holds, reported s dual⟩

end

/-- SciPy is told the split form of a linear program that is `Store.Built`. Marginals with which
that is `Split.Stationary` at the point of a reply are reported as duals of the problem itself
(`Run.ReportsDuals`). -/
theorem solve_duals {id : Nat} {store : Store} (built : store.Built id)
    (finite : (store.viewProblem id).FiniteData)
    (real : ∀ v ∈ (store.viewProblem id).variableList, (store.viewProblem id).domainOf v = .real)
    (some : (store.viewProblem id).variableList ≠ []) (named : (store.viewProblem id).Named)
    {solver : Solver} (plain : solver.hooks = []) {settings : Settings}
    (frozen : (Settings.ofParameters solver.name solver.parameters).1 = .ok settings)
    (engine : Engine Extended) (hooks : Hooks (Ranged Extended)) :
    let p := store.viewProblem id
    let run : Run := (solve engine hooks solver p).perform (.start solver)
    ∃ s : Split Extended, run.2.state.tellings = [.linear s] ∧
      ∀ r k q, engine (.linear s) = .ok r → s.Stationary k q → r.Carries s.cost.length k q →
        run.ReportsDuals p (p.assignmentAt q) := by
  intro p run
  have h : p.WellFormed := built.sound.wellFormed
  obtain ⟨m₀, made, presents⟩ := h.exists_ranged finite
  obtain ⟨opts, log, course⟩ := perform_solve engine hooks plain frozen made
  have nonempty : p.index.size ≠ 0 := by simpa using some
  -- The options that the model is given have no part in its duals.
  have without {q : Nat → Rat} {ys ds : List Rat}
      (d : Ranged.Duals { m₀ with options := opts } q ys ds) : m₀.Duals q ys ds :=
    ⟨d.rowCount, d.columnCount, d.rows, d.cost, d.column⟩
  rw [if_neg nonempty] at course
  replace presents := presents.withOptions opts
  generalize { m₀ with options := opts } = m at presents course without
  have linear := isMixed_of_real presents real
  have told : callOf m = .linear m.split := by
    rw [callOf, linear]
    rfl
  change ∃ s, ((solve engine hooks solver p).perform (.start solver)).2.state.tellings = _ ∧ _
  rw [course, told]
  refine ⟨m.split, tellings_answer engine solver p m _ log,
    fun r k q reply stationary carries => ?_⟩
  obtain ⟨s, log', answer, holds, reported⟩ := exists_answer_of_carries h real named presents linear
    solver (told ▸ reply) stationary carries ⟨⟨.none, none, [.told (.linear m.split)]⟩, log⟩
  rw [told, answer] at course
  exact ⟨s, _, _, congrArg Prod.fst course, holds, reported,
    Problem.duals_of_ranged h finite real made (p.reads_assignmentAt q)
      (without (Ranged.duals_of_stationary presents.proper stationary))⟩

/-- Something to be made large, with a row of each relation and a bound. -/
def plan : Store :=
  let x : Value := .text "x"
  let y : Value := .text "y"
  let z : Value := .text "z"
  (Store.newProblem.perform .empty).2.state
    |> Store.called "set_objective" [.tuple [.term x (.int 3), .term y (.int 2),
      .term z (.int 1)], .text "max"]
    |> Store.called "add" [.text "cap", .tuple [.term x (.int 1), .term y (.int 2)], .text "<=",
      .int 4]
    |> Store.called "add" [.text "floor", .tuple [.term y (.int 1)], .text ">=", .int 1]
    |> Store.called "add" [.text "tie", .tuple [.term x (.int 1), .term z (.int (-1))], .text "=",
      .int (-3)]
    |> Store.called "set_var_upper_bound" [z, .int 5]

theorem built_plan : plan.Built 0 :=
  ((((Store.built_first.called rfl (by decide)).called rfl (by decide)).called rfl
    (by decide)).called rfl (by decide)).called rfl (by decide)

def planProblem : Problem :=
  let x : Value := .text "x"
  let y : Value := .text "y"
  let z : Value := .text "z"
  { vars := ⟨[(x, ()), (y, ()), (z, ())]⟩, domains := .empty, lowers := .empty
    uppers := ⟨[(z, .int 5)]⟩
    objective := some (.linear ⟨[⟨x, .int 3⟩, ⟨y, .int 2⟩, ⟨z, .int 1⟩]⟩), sense := .max
    constraints := .ofList [
      ⟨.linear ⟨[⟨x, .int 1⟩, ⟨y, .int 2⟩]⟩, .symbol (.relation .le), .int 4, .text "cap"⟩,
      ⟨.linear ⟨[⟨y, .int 1⟩]⟩, .symbol (.relation .ge), .int 1, .text "floor"⟩,
      ⟨.linear ⟨[⟨x, .int 1⟩, ⟨z, .int (-1)⟩]⟩, .symbol (.relation .eq), .int (-3), .text "tie"⟩] }

set_option maxRecDepth 8000 in
theorem viewProblem_plan : plan.viewProblem 0 = planProblem := by
  with_unfolding_all rfl

theorem finiteData_planProblem : planProblem.FiniteData := by
  have whole (n : Int) : (Value.int n).ReadsFinite := Value.readsFinite_of_eq rfl
  refine ⟨by simp [planProblem, whole], by simp [planProblem, whole],
    by simp [planProblem, whole], fun v _ => ⟨fun b hb => ?_, fun b hb => ?_⟩⟩
  · cases hb
  · obtain rfl := Table.eq_of_get?_singleton hb
    rfl

theorem named_planProblem : planProblem.Named := by
  refine ⟨?_, ?_, ?_⟩
  · simp only [planProblem, Series.items_ofList, List.forall_mem_cons]
    exact ⟨rfl, rfl, rfl, by simp⟩
  · simp [planProblem]
    decide
  · simp [planProblem, Declarations.variableList, Table.keys]
    decide

def planSplit : Split Extended :=
  { cost := [.finite (-3), .finite (-2), .finite (-1)]
    upperRows := some (⟨3, [[(0, .finite 1), (1, .finite 2)], [(1, .finite (-1))]]⟩,
      [.finite 4, .finite (-1)])
    equations := some (⟨3, [[(0, .finite 1), (2, .finite (-1))]]⟩, [.finite (-3)])
    bounds := [⟨none, none⟩, ⟨none, none⟩, ⟨none, some (.finite 5)⟩]
    options := ⟨[(.text "disp", .bool false)]⟩ }

def planPoint (j : Nat) : Rat := [2, 1, 5].getD j 0

def planMultipliers : Multipliers := ⟨[-2, -2], [-1], [0, 0, 0], [0, 0, -2]⟩

def planReply : Reply Extended :=
  { code := .int 0, values := some [.finite 2, .finite 1, .finite 5]
    objective := some (.number (.real (.finite (-13))))
    upperMarginals := some [.finite (-2), .finite (-2)]
    equationMarginals := some [.finite (-1)]
    lowerBoundMarginals := some [.finite 0, .finite 0, .finite 0]
    upperBoundMarginals := some [.finite 0, .finite 0, .finite (-2)] }

theorem stationary_planSplit : planSplit.Stationary planMultipliers planPoint := by
  constructor <;> decide +kernel

theorem carries_planReply : planReply.Carries 3 planMultipliers planPoint where
  status := ⟨.optimal, rfl, rfl⟩
  values := by decide +kernel
  objective y hy := ⟨_, (Option.some.inj hy).symm⟩
  upperMarginals := rfl
  equationMarginals := rfl
  lowerBoundMarginals := rfl
  upperBoundMarginals := rfl

set_option maxRecDepth 8000 in
/-- The plan reports duals of the side that every row has. -/
theorem solve_duals_plan :
    let solver := Solver.fresh .scipy "scipy"
    let p := plan.viewProblem 0
    let run : Run :=
      (solve (fun _ => .ok planReply) (fun _ _ m => (m, none)) solver p).perform (.start solver)
    plan.Built 0 ∧ p.FiniteData ∧ (∀ v ∈ p.variableList, p.domainOf v = .real) ∧
      p.variableList ≠ [] ∧ p.Named ∧ planSplit.Stationary planMultipliers planPoint ∧
      planReply.Carries 3 planMultipliers planPoint ∧
      run.ReportsDuals p (p.assignmentAt planPoint) := by
  intro solver p run
  have view : p = planProblem := viewProblem_plan
  have finite : p.FiniteData := view ▸ finiteData_planProblem
  have named : p.Named := view ▸ named_planProblem
  have real : ∀ v ∈ p.variableList, p.domainOf v = .real := by
    rw [view]
    exact fun _ _ => rfl
  have some : p.variableList ≠ [] := by
    rw [view]
    exact List.cons_ne_nil _ _
  have plain : solver.hooks = [] := rfl
  have frozen : (Settings.ofParameters solver.name solver.parameters).1 =
      .ok (Settings.initial (.text "scipy")) := rfl
  have told : run.2.state.tellings = [.linear planSplit] := by
    with_unfolding_all rfl
  obtain ⟨s, hs, reports⟩ := solve_duals built_plan finite real some named plain frozen
    (fun _ => .ok planReply) fun _ _ m => (m, none)
  obtain rfl : s = planSplit := by simpa using hs.symm.trans told
  exact ⟨built_plan, finite, real, some, named, stationary_planSplit, carries_planReply,
    reports planReply planMultipliers planPoint rfl stationary_planSplit carries_planReply⟩

/-! ## A sense without an objective -/

/-- Nothing, to be made large. -/
def aimless : Store :=
  let x : Value := .text "x"
  (Store.newProblem.perform .empty).2.state
    |> Store.called "set_optimization_type" [.text "max"]
    |> Store.called "add" [.text "cap", .tuple [.term x (.int 1)], .text "<=", .int 1]
    |> Store.called "set_var_lower_bound" [x, .int 1]

theorem built_aimless : aimless.Built 0 :=
  ((Store.built_first.call rfl (fun add => absurd add (by decide))).called rfl
    (by decide)).called rfl (by decide)

def aimlessProblem : Problem :=
  let x : Value := .text "x"
  { vars := ⟨[(x, ())]⟩, domains := .empty, lowers := ⟨[(x, .int 1)]⟩, uppers := .empty
    objective := none, sense := .max
    constraints := .ofList [
      ⟨.linear ⟨[⟨x, .int 1⟩]⟩, .symbol (.relation .le), .int 1, .text "cap"⟩] }

set_option maxRecDepth 8000 in
theorem viewProblem_aimless : aimless.viewProblem 0 = aimlessProblem := by
  with_unfolding_all rfl

theorem finiteData_aimlessProblem : aimlessProblem.FiniteData := by
  have whole (n : Int) : (Value.int n).ReadsFinite := Value.readsFinite_of_eq rfl
  refine ⟨by simp [aimlessProblem, whole], by simp [aimlessProblem, whole],
    by simp [aimlessProblem], fun v _ => ⟨fun b hb => ?_, fun b hb => ?_⟩⟩
  · obtain rfl := Table.eq_of_get?_singleton hb
    rfl
  · cases hb

theorem named_aimlessProblem : aimlessProblem.Named := by
  refine ⟨?_, ?_, ?_⟩
  · simp only [aimlessProblem, Series.items_ofList, List.forall_mem_singleton]
    rfl
  · simp [aimlessProblem]
  · simp [aimlessProblem, Declarations.variableList, Table.keys]
    decide

def aimlessSplit : Split Extended :=
  { cost := [.finite 0], upperRows := some (⟨1, [[(0, .finite 1)]]⟩, [.finite 1])
    equations := none, bounds := [⟨some (.finite 1), none⟩]
    options := ⟨[(.text "disp", .bool false)]⟩ }

def aimlessReply : Reply Extended :=
  { code := .int 0, values := some [.finite 1], objective := some (.number (.real (.finite 0)))
    upperMarginals := some [.finite (-1)], equationMarginals := none
    lowerBoundMarginals := some [.finite 1], upperBoundMarginals := some [.finite 0] }

theorem stationary_aimlessSplit : aimlessSplit.Stationary ⟨[-1], [], [1], [0]⟩ fun _ => 1 := by
  constructor <;> decide +kernel

set_option maxRecDepth 8000 in
/-- The sense of a problem without an objective does not turn its duals: a row that bounds from
above reports a negative number, although the sense is that of something to be made large. -/
theorem dual_neg_of_aimless :
    let solver := Solver.fresh .scipy "scipy"
    let p := aimless.viewProblem 0
    let run : Run :=
      (solve (fun _ => .ok aimlessReply) (fun _ _ m => (m, none)) solver p).perform (.start solver)
    aimless.Built 0 ∧ p.sense = .max ∧ p.FiniteData ∧
      (∀ v ∈ p.variableList, p.domainOf v = .real) ∧ p.Named ∧
      run.2.state.tellings = [.linear aimlessSplit] ∧
      aimlessSplit.Stationary ⟨[-1], [], [1], [0]⟩ (fun _ => 1) ∧
      aimlessReply.Carries 1 ⟨[-1], [], [1], [0]⟩ (fun _ => 1) ∧
      ∃ c s, p.constraints.items = [c] ∧ c.relation = .le ∧ run.1 = .ok (some s) ∧
        s.dual.get? c.name = some (.finite (-1)) := by
  intro solver p run
  have view : p = aimlessProblem := viewProblem_aimless
  have carries : aimlessReply.Carries 1 ⟨[-1], [], [1], [0]⟩ fun _ => 1 :=
    ⟨⟨.optimal, rfl, rfl⟩, by decide +kernel, fun y hy => ⟨_, (Option.some.inj hy).symm⟩, rfl, rfl,
      rfl, rfl⟩
  have told : run.2.state.tellings = [.linear aimlessSplit] := by
    with_unfolding_all rfl
  have dual : (run.1.toOption.join.bind fun s => s.dual.get? (.text "cap")) =
      some (.finite (-1)) := by
    decide +kernel
  obtain ⟨s, hs, found⟩ := Option.bind_eq_some_iff.mp dual
  have solved : run.1 = .ok (some s) := join_toOption_eq_some.mp hs
  rw [view]
  exact ⟨built_aimless, rfl, finiteData_aimlessProblem, fun _ _ => rfl, named_aimlessProblem, told,
    stationary_aimlessSplit, carries, _, s, rfl, rfl, solved, found⟩

end Milp.Scipy
