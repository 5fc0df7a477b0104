import Milp.Proofs.Engine.Scipy.Course
import Milp.Proofs.Problem.Optimum
import Milp.Proofs.Problem.Ranged

/-!
# Replies of SciPy

A reply that is within rounding distance of a best point of what SciPy was told is read as a best
solution of the problem, whichever form the problem was told in.
-/

namespace Milp.Scipy

variable {q : Nat → Rat}

/-! ## Replies -/

def Call.Admits : Call Extended → (Nat → Rat) → Prop
  | .mixed m, q => m.Admits q
  | .linear s, q => s.Admits q

def Call.cost : Call Extended → List Extended
  | .mixed m => m.cost
  | .linear s => s.cost

/-- A point is admitted, and no other that is has less cost. -/
structure Call.Optimal (c : Call Extended) (q : Nat → Rat) : Prop where
  admits : c.Admits q
  least : ∀ q', c.Admits q' → Numeric.le (costAt c.cost q) (costAt c.cost q') = true

/-- A value is the entry of a point at a column, up to rounding if the column is integral. -/
def Call.Close : Call Extended → Nat → Rat → Rat → Prop
  | .mixed m, j, a, b => if m.integrality[j]?.getD 0 = 0 then a = b else |a - b| < 1 / 2
  | .linear _, _, a, b => a = b

/-- The marginals that are there are as many as the sides of the rows and the columns. -/
def Call.FitsMarginals (c : Call Extended) (r : Reply Extended) : Prop :=
  match c with
  | .mixed _ => True
  | .linear s =>
    (∀ ys, r.upperMarginals = some ys → ys.length = (s.upperRows.map (·.2.length)).getD 0) ∧
    (∀ ys, r.equationMarginals = some ys → ys.length = (s.equations.map (·.2.length)).getD 0) ∧
    (∀ ys, r.lowerBoundMarginals = some ys → ys.length = s.bounds.length) ∧
    ∀ ys, r.upperBoundMarginals = some ys → ys.length = s.bounds.length

/-- A reply reports an optimal point, with the cost that it has. -/
structure Call.Reports (c : Call Extended) (r : Reply Extended) (q : Nat → Rat) : Prop where
  code : r.code = .int 0
  optimal : c.Optimal q
  values : ∃ xs, r.values = some xs ∧ xs.length = c.cost.length ∧
    ∀ (j : Nat) y, xs[j]? = some y → ∃ a, y = .finite a ∧ c.Close j a (q j)
  objective : r.objective = some (.number (.real (costAt c.cost q)))
  marginals : c.FitsMarginals r

/-- Duals of rows and of columns are the duals of the constraints and of the variables. -/
theorem duals_eq_ok {p : Problem} (h : p.WellFormed)
    (named : ∀ c ∈ p.constraints.items, c.name.checkKey = .ok ()) {m : Ranged Extended}
    {r : Reply Extended} {rows columns : List Extended}
    (hrows : rowDuals p.constraints.items.length m r = .ok rows)
    (hcolumns : columnDuals p.index.size r = .ok columns) (count : columns.length = p.index.size) :
    ∃ es : List (Value × Extended), es.map (·.1) = p.variableList ∧
      (∀ (j : Nat) v d, p.variableList[j]? = some v → columns[j]? = some d →
        (v, signed m d) ∈ es) ∧
      duals p p.index m r = .ok (Table.ofList
        (es ++ (p.constraints.items.map (·.name)).zip (rows.map (signed m)))) := by
  obtain ⟨es, hes, keys, entered⟩ := Index.exists_values p.toDeclarations
    (fun j => .placeOutOfRange j 0 (columns.map (signed m)).length)
    ((List.length_map _).trans count)
  have constraints : p.constraints.toList "name" = .ok p.constraints.items := by
    rw [Series.toList, Series.finish, h.complete]
    rfl
  have hashable : ∀ e ∈ es ++ (p.constraints.items.map (·.name)).zip (rows.map (signed m)),
      e.1.checkKey = .ok () := by
    intro e he
    rcases List.mem_append.mp he with he | he
    · exact h.distinct.hashable e.1 (keys ▸ List.mem_map_of_mem he)
    · obtain ⟨c, hc, hname⟩ := List.mem_map.mp (List.of_mem_zip he).1
      exact hname ▸ named c hc
  refine ⟨es, keys, fun j v d hv hd => entered j v _ hv (by rw [List.getElem?_map, hd]; rfl), ?_⟩
  exact bind_eq_ok.mpr ⟨_, constraints, bind_eq_ok.mpr ⟨_, hrows, bind_eq_ok.mpr ⟨_, hcolumns,
    bind_eq_ok.mpr ⟨_, hes, Table.collect_eq_ok hashable⟩⟩⟩⟩

/-- Marginals that fit what was told (`Call.FitsMarginals`) give duals of all variables and
constraints. -/
theorem exists_duals {p : Problem} (h : p.WellFormed)
    (named : ∀ c ∈ p.constraints.items, c.name.checkKey = .ok ()) {m : Ranged Extended}
    (presents : p.Presents m) {r : Reply Extended}
    (fits : (Call.linear m.split).FitsMarginals r) : ∃ d, duals p p.index m r = .ok d := by
  obtain ⟨upper, equation, lowerBound, upperBound⟩ := fits
  rw [m.count_split_upperRows] at upper
  rw [m.count_split_equations] at equation
  have bounds : m.split.bounds.length = m.lower.length := by
    simp [Ranged.split, presents.proper.columns]
  rw [bounds, presents.columnCount] at lowerBound upperBound
  obtain ⟨columns, hcolumns, count⟩ := exists_columnDuals lowerBound upperBound
  have rows := rowDuals_eq_ok presents.proper.aligned upper equation
  rw [presents.rowCount] at rows
  obtain ⟨es, -, -, made⟩ := duals_eq_ok h named rows hcolumns count
  exact ⟨_, made⟩

/-! ## Reading solutions -/

section

variable {K : Type} [Numeric K] {p : Problem} {m : Ranged K}

/-- The objective value of a reply in the sense of the problem. -/
def readObjective (p : Problem) (m : Ranged K) (r : Reply K) :
    Except Fault (Option (Reported K)) :=
  if p.objective.isSome then r.objective.mapM fun y => if m.maximize then y.neg else pure y
  else pure none

theorem readSolution_eq (a : Answer K) : readSolution p p.index m a = (do
    let objective ← readObjective p m a.reply
    match a.reply.values with
    | none => throw (.notSubscriptable "NoneType")
    | some xs =>
      let values ← p.index.values xs fun j => .placeOutOfRange j 0 xs.length
      let solution ← Solution.extract p.toDeclarations values.require objective
      return solution.withDuals a.duals) := by
  unfold readSolution readObjective
  cases p.objective <;> rfl

theorem readSolution_eq_ok {a : Answer K} {o : Option (Reported K)} {xs : List K} {t : Table K}
    {s : Solution K} (objective : readObjective p m a.reply = .ok o)
    (values : a.reply.values = some xs)
    (table : p.index.values xs (fun j => .placeOutOfRange j 0 xs.length) = .ok t)
    (extracted : Solution.extract p.toDeclarations t.require o = .ok s) :
    readSolution p p.index m a = .ok (s.withDuals a.duals) := by
  rw [readSolution_eq, values]
  exact bind_eq_ok.mpr ⟨o, objective, bind_eq_ok.mpr ⟨t, table,
    bind_eq_ok.mpr ⟨s, extracted, rfl⟩⟩⟩

/-- An objective value can be read if its opposite can. -/
theorem exists_readObjective {r : Reply K}
    (h : ∀ y, r.objective = some y → ∃ z, y.neg = .ok z) : ∃ o, readObjective p m r = .ok o := by
  unfold readObjective
  split
  · cases ho : r.objective with
    | none => exact ⟨none, rfl⟩
    | some y =>
        obtain ⟨z, hz⟩ := h y ho
        cases m.maximize with
        | true => exact ⟨some z, by simp [hz]⟩
        | false => exact ⟨some y, rfl⟩
  · exact ⟨none, rfl⟩

end

/-! ## Solutions -/

section

variable {p : Problem} {m : Ranged Extended}

@[simp] theorem cost_callOf (m : Ranged Extended) : (callOf m).cost = m.cost := by
  unfold callOf
  split <;> rfl

theorem admits_callOf (proper : m.Proper) : (callOf m).Admits q ↔ m.Admits q := by
  unfold callOf
  split
  · exact Iff.rfl
  · rename_i linear
    exact Ranged.admits_split_iff proper (Bool.not_eq_true _ ▸ linear)

/-- What is close to an entry of an admitted point is taken for it. -/
theorem near_of_close (presents : p.Presents m) {x : Key → Rat} (feasible : p.Feasible x) {j : Nat}
    {v : Value} (hv : p.variableList[j]? = some v) (entry : q j = x v.key) {a : Rat}
    (close : (callOf m).Close j a (q j)) : (p.domainOf v).Near a (x v.key) := by
  have flag : m.integrality[j]? = some (if (p.domainOf v).isInt then 1 else 0) := by
    rw [presents.integrality, List.getElem?_map, hv]
    rfl
  have takes := (feasible.numbers v (List.mem_of_getElem? hv)).takes
  rw [entry] at close
  unfold callOf at close
  unfold Domain.Near
  split at close
  · simp only [Call.Close, flag, Option.getD_some] at close
    split
    · rename_i integral
      exact ⟨takes integral, by simpa [integral] using close⟩
    · rename_i continuous
      simpa [continuous] using close
  · rename_i linear
    have continuous : ¬(p.domainOf v).isInt = true := by
      intro integral
      refine linear (List.any_eq_true.mpr ⟨1, List.mem_of_getElem? (flag.trans ?_), rfl⟩)
      rw [if_pos integral]
    rw [if_neg continuous]
    exact close

/-- The numbers at an optimal point solve the problem. -/
theorem best_of_optimal (presents : p.Presents m) (optimal : (callOf m).Optimal q) {x y : Key → Rat}
    (reads : p.Reads x q) (feasible : p.Feasible y) : p.lossAt x ≤ p.lossAt y := by
  have admits := (admits_callOf presents.proper).mpr
    ((presents.admits y _ (p.reads_pointOf y)).mpr feasible)
  have least := optimal.least _ admits
  rw [cost_callOf, presents.cost x q reads, presents.cost y _ (p.reads_pointOf y),
    Extended.le_finite] at least
  exact least

/-- Values that can be taken for numbers of variables are read as a solution that holds these. -/
theorem exists_readSolution (h : p.WellFormed) {a : Answer Extended}
    {o : Option (Reported Extended)} (objective : readObjective p m a.reply = .ok o)
    {xs : List Extended} (values : a.reply.values = some xs) (count : xs.length = p.index.size)
    {x : Key → Rat}
    (near : ∀ (j : Nat) v y, p.variableList[j]? = some v → xs[j]? = some y →
      ∃ b, y = .finite b ∧ (p.domainOf v).Near b (x v.key)) :
    ∃ s, readSolution p p.index m a = .ok s ∧ s.Holds p.toDeclarations x ∧
      s.dual = Table.empty.insertAll a.duals.entries ∧ s.objectiveValue = o := by
  obtain ⟨es, hes, keys, entered⟩ := Index.exists_values p.toDeclarations
    (fun j => .placeOutOfRange j 0 xs.length) count
  have each : ∀ v ∈ p.variableList, ∃ y b, (v, y) ∈ es ∧ y = .finite b ∧
      (p.domainOf v).Near b (x v.key) := by
    intro v hv
    obtain ⟨i, hi⟩ := List.getElem?_of_mem hv
    obtain ⟨hlt, -⟩ := List.getElem?_eq_some_iff.mp hi
    have hx : i < xs.length := by
      rw [count, Declarations.size_index]
      exact hlt
    obtain ⟨b, hb, close⟩ := near i v _ hi (List.getElem?_eq_getElem hx)
    exact ⟨_, b, entered i v _ hi (List.getElem?_eq_getElem hx), hb, close⟩
  have rounded : ∀ v ∈ p.variableList, ∃ y, (⟨es⟩ : Table Extended).require v = .ok y ∧
      Solution.roundValue (p.domainOf v) y = .ok ((p.domainOf v).number (x v.key)) := by
    intro v hv
    obtain ⟨_, b, there, rfl, close⟩ := each v hv
    exact ⟨_, Index.require_values h.distinct keys there, Solution.roundValue_of_near close⟩
  refine ⟨_, readSolution_eq_ok objective values hes
    (Solution.extract_eq_ok h.distinct rounded o), ⟨rfl, fun v hv => ?_⟩, rfl, rfl⟩
  obtain ⟨_, b, -, -, close⟩ := each v hv
  exact close.takes

theorem readObjective_of_reports (presents : p.Presents m) {r : Reply Extended}
    (reports : (callOf m).Reports r q) {x : Key → Rat} (reads : p.Reads x q) :
    readObjective p m r =
      .ok (p.objective.map fun _ => .number (.real (.finite (p.objectiveAt x)))) := by
  unfold readObjective
  have value := presents.cost x q reads
  rw [reports.objective, cost_callOf, value, presents.maximize]
  cases ho : p.objective with
  | none => rfl
  | some e =>
      unfold Problem.lossAt
      cases hm : p.isMaximize with
      | true => simp [Reported.neg, Number.neg]
      | false => rfl

/-- A reply that `Reports` an optimal point is read as a solution that `Solves` the problem. -/
theorem solves_of_reports (h : p.WellFormed) (finite : p.FiniteData) (presents : p.Presents m)
    {r : Reply Extended} (reports : (callOf m).Reports r q) (d : Table Extended) :
    ∃ s, readSolution p p.index m ⟨.optimal, r, d⟩ = .ok s ∧ p.Solves s (p.assignmentAt q) ∧
      s.objectiveValue =
        p.objective.map fun _ => .number (.real (.finite (p.objectiveAt (p.assignmentAt q)))) := by
  have reads := p.reads_assignmentAt q
  have feasible : p.Feasible (p.assignmentAt q) :=
    (presents.admits _ q reads).mp ((admits_callOf presents.proper).mp reports.optimal.admits)
  obtain ⟨xs, hxs, count, close⟩ := reports.values
  rw [cost_callOf, presents.costCount] at count
  obtain ⟨s, read, holds, -, objective⟩ := exists_readSolution h (a := ⟨.optimal, r, d⟩)
    (readObjective_of_reports presents reports reads) hxs count fun j v y hv hy =>
      have ⟨b, hb, near⟩ := close j y hy
      ⟨b, hb, near_of_close presents feasible hv (reads.at_place h.distinct hv) near⟩
  refine ⟨s, read, ⟨holds, feasible, fun y hy => ?_, fun l hl => ?_⟩, objective⟩
  · exact Problem.lossAt_le_iff.mp (best_of_optimal presents reports.optimal reads hy)
  · exact h.exists_evaluate finite holds hl

end

end Milp.Scipy
