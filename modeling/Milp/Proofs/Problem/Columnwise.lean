import Milp.Proofs.Encoding.Columnwise
import Milp.Proofs.Encoding.Entries
import Milp.Proofs.Encoding.Inversion
import Milp.Proofs.Store.Built

/-!
# The column-wise form of a problem

The column-wise form of a problem can be made exactly if its numbers can be read. It then says the
same as the problem and as its rows: what stands where, in one numbering of rows and columns.
-/

namespace Milp

variable {K : Type} [Numeric K]

/-! ## Costs -/

theorem getElem?_addEntries (cost : List K) (es : List (Int × K)) (j : Nat) :
    (addEntries cost es)[j]? = cost[j]?.map fun x =>
      ((es.filter fun e => e.1.toNat == j).map (·.2)).foldl (· + ·) x := by
  induction es generalizing cost with
  | nil => simp [addEntries]
  | cons e es ih =>
      have step : addEntries cost (e :: es) =
          addEntries (cost.modify e.1.toNat (· + e.2)) es := rfl
      rw [step, ih, List.getElem?_modify]
      by_cases hj : e.1.toNat = j
      · simp [hj, Option.map_map, Function.comp_def]
      · simp [hj]

/-! ## Readable problems -/

/-- All numbers in a problem can be read. -/
structure Problem.Readable (K : Type) [Numeric K] (p : Problem) : Prop where
  coefficients : ∀ c ∈ p.constraints.items, ∀ t ∈ c.lhs.terms.items,
    ∃ x : K, Numeric.ofValue t.coefficient = .ok x
  sides : ∀ c ∈ p.constraints.items, ∃ r : Range K, c.range = .ok r
  costs : ∀ e, p.objective = some e → ∀ t ∈ e.terms.items,
    ∃ x : K, Numeric.ofValue t.coefficient = .ok x
  bounds : ∀ v ∈ p.variableList, ∃ c, p.column K v = .ok c

namespace Problem

variable {p : Problem}

theorem WellFormed.row_eq_ok (h : p.WellFormed) {c : Constraint} (hc : c ∈ p.constraints.items)
    {r : List (Int × K) × Range K} : Constraint.row p.index.require c = .ok r ↔ p.RowOf c r := by
  obtain ⟨l, hl, registered⟩ := h.constraints c hc
  exact Declarations.row_eq_ok h.distinct hl registered

theorem WellFormed.exists_rowOf (h : p.WellFormed) (readable : p.Readable K) {c : Constraint}
    (hc : c ∈ p.constraints.items) : ∃ r : List (Int × K) × Range K, p.RowOf c r := by
  obtain ⟨l, hl, registered⟩ := h.constraints c hc
  have terms := readable.coefficients c hc
  obtain ⟨range, hrange⟩ := readable.sides c hc
  obtain ⟨es, hes⟩ := exists_forall₂ fun t (ht : t ∈ c.lhs.terms.items) =>
    Declarations.exists_entryOf h.distinct (registered t (by simpa [hl] using ht)) (terms t ht)
  exact ⟨(es, range), hes, hrange⟩

/-- The numbers of a problem whose matrix can be made can be read. -/
theorem WellFormed.rowOf_of_matrix (h : p.WellFormed) {m : RangedRows K}
    (made : p.matrix p.index = .ok m) :
    ∃ rs : List (List (Int × K) × Range K), List.Forall₂ p.RowOf p.constraints.items rs := by
  obtain ⟨_, -, made⟩ := bind_eq_ok.mp made
  obtain ⟨rs, hrs, -⟩ := bind_eq_ok.mp made
  obtain ⟨_, entered, finished⟩ := bind_eq_ok.mp hrs
  exact ⟨_, (forall₂_congr_of_mem fun c hc r => h.row_eq_ok hc).mp (mapM_eq_ok.mp entered)⟩

theorem WellFormed.readable_costs (h : p.WellFormed) {costs : List K}
    (made : p.cost p.index = .ok costs) {e : Expression} (he : p.objective = some e) :
    ∀ t ∈ e.terms.items, ∃ x : K, Numeric.ofValue t.coefficient = .ok x := by
  obtain ⟨l, rfl, -⟩ := h.objective e he
  rw [Problem.cost, he, costOf, Expression.terms_linear, Series.foldlM_ofList] at made
  intro t ht
  obtain ⟨a, b, added⟩ := foldlM_eq_ok_mem made t ht
  obtain ⟨_, -, added⟩ := bind_eq_ok.mp added
  obtain ⟨x, hx, -⟩ := bind_eq_ok.mp added
  exact ⟨x, hx⟩

theorem readable_bounds {cs : Columns K} (made : p.columns p.index = .ok cs) :
    ∀ v ∈ p.variableList, ∃ c, p.column K v = .ok c := by
  obtain ⟨cols, hcols, -⟩ := Declarations.columns_index_iff.mp made
  intro v hv
  obtain ⟨i, hi⟩ := List.getElem?_of_mem hv
  obtain ⟨c, -, hc⟩ := exists_of_forall₂ (mapM_eq_ok.mp hcols) hi
  exact ⟨c, hc⟩

theorem WellFormed.readable_of_columnwise (h : p.WellFormed) {m : Columnwise K}
    (made : p.columnwise p.index = .ok m) : p.Readable K := by
  obtain ⟨cols, hcols, made⟩ := bind_eq_ok.mp made
  obtain ⟨rows, hrows, made⟩ := bind_eq_ok.mp made
  obtain ⟨cost, hcost, -⟩ := bind_eq_ok.mp made
  obtain ⟨rs, hrs⟩ := h.rowOf_of_matrix hrows
  have row (c : Constraint) (hc : c ∈ p.constraints.items) : ∃ r, p.RowOf (K := K) c r := by
    obtain ⟨i, hi⟩ := List.getElem?_of_mem hc
    obtain ⟨r, -, hr⟩ := exists_of_forall₂ hrs hi
    exact ⟨r, hr⟩
  refine ⟨fun c hc t ht => ?_, fun c hc => ?_, fun e he => h.readable_costs hcost he,
    readable_bounds hcols⟩
  · obtain ⟨r, hr⟩ := row c hc
    obtain ⟨i, hi⟩ := List.getElem?_of_mem ht
    obtain ⟨e, -, he⟩ := exists_of_forall₂ hr.entries hi
    exact ⟨e.2, he.value⟩
  · obtain ⟨r, hr⟩ := row c hc
    exact ⟨r.2, hr.range⟩

end Problem

/-! ## The form and the problem -/

/-- The column-wise form says what a problem and its rows say, in the numbering of its variables and
constraints. -/
structure Columnwise.Restates (m : Columnwise K) (p : Problem) (rows : RangedRows K) : Prop where
  columnCount : m.columns = p.variableList.length
  rowCount : m.rows = p.constraints.items.length
  packed : m.Packed
  /-- A row and a column meet where the variable occurs in the constraint, in the sum of its
  coefficients from left to right. -/
  stored : ∀ (i : Nat) (c : Constraint), p.constraints.items[i]? = some c →
    ∀ (j : Nat) (v : Value), p.variableList[j]? = some v →
      ∃ xs : List K, (c.lhs.coefficientsOf v).mapM Numeric.ofValue = .ok xs ∧
        ∀ x, (i, x) ∈ m.segment j ↔ leftSum? xs = some x
  decoded : m.decoded = rows.matrix
  rowSides : m.rowLower.length = m.rows ∧ m.rowUpper.length = m.rows ∧
    ∀ (i : Nat) (c : Constraint), p.constraints.items[i]? = some c →
      ∃ r : Range K, c.range = .ok r ∧ rows.ranges[i]? = some r ∧
        m.rowLower[i]? = some r.lower ∧ m.rowUpper[i]? = some r.upper
  colSides : m.colLower.length = m.columns ∧ m.colUpper.length = m.columns ∧
    ∀ (j : Nat) (v : Value), p.variableList[j]? = some v →
      ∃ (lo up : K) (int : Bool), p.column K v = .ok (lo, up, int) ∧
        m.colLower[j]? = some lo ∧ m.colUpper[j]? = some up
  /-- The costs have the signs of the objective, in either sense. -/
  cost : m.cost.length = m.columns ∧
    ∀ (j : Nat) (v : Value), p.variableList[j]? = some v →
      ∃ xs : List K,
        ((p.objective.map (·.coefficientsOf v)).getD []).mapM Numeric.ofValue = .ok xs ∧
        m.cost[j]? = some (xs.foldl (· + ·) Numeric.zero)
  integral : (m.integral = [] ↔ ∀ v ∈ p.variableList, p.domainOf v = .real) ∧
    (m.integral ≠ [] → m.integral = p.variableList.map fun v => decide (p.domainOf v ≠ .real))
  maximize : m.maximize = true ↔ p.objective ≠ none ∧ p.sense = .max

theorem Declarations.integral_of_column {d : Declarations} {v : Value} {c : K × K × Bool}
    (h : d.column K v = .ok c) : c.2.2 = (d.domainOf v).isInt := by
  obtain ⟨_, -, h⟩ := bind_eq_ok.mp h
  obtain ⟨_, -, h⟩ := bind_eq_ok.mp h
  obtain ⟨_, -, h⟩ := bind_eq_ok.mp h
  obtain rfl := Except.ok.inj h
  rfl

namespace Problem

variable {p : Problem}

/-- The rows of a problem that can be read, from the entries of its terms. -/
theorem WellFormed.matrix_eq_ok (h : p.WellFormed) {rs : List (List (Int × K) × Range K)}
    (made : List.Forall₂ p.RowOf p.constraints.items rs) :
    p.matrix p.index = .ok ⟨⟨p.index.size,
      rs.map fun r => SparseRow.ofEntries (r.1.map fun e => (e.1.toNat, e.2))⟩, rs.map (·.2)⟩ := by
  obtain ⟨n, length⟩ := h.length
  refine matrixOf_eq_ok h.complete length
    ((forall₂_congr_of_mem fun c hc r => h.row_eq_ok hc).mpr made) fun r hr => ?_
  obtain ⟨i, hi⟩ := List.getElem?_of_mem hr
  obtain ⟨c, -, row⟩ := exists_of_forall₂ made.flip hi
  exact Declarations.EntryOf.places row.entries

/-- The costs of a problem that can be read: none for a variable that the objective is without. -/
theorem WellFormed.exists_costs (h : p.WellFormed) (readable : ∀ e, p.objective = some e →
    ∀ t ∈ e.terms.items, ∃ x : K, Numeric.ofValue t.coefficient = .ok x) :
    ∃ costs : List K, p.cost p.index = .ok costs ∧ costs.length = p.variableList.length ∧
      ∀ (j : Nat) (v : Value), p.variableList[j]? = some v →
        ∃ xs : List K,
          ((p.objective.map (·.coefficientsOf v)).getD []).mapM Numeric.ofValue = .ok xs ∧
            costs[j]? = some (xs.foldl (· + ·) Numeric.zero) := by
  cases ho : p.objective with
  | none =>
      refine ⟨List.replicate p.index.size Numeric.zero, by rw [cost, ho]; rfl, by simp,
        fun j v hv => ⟨[], rfl, ?_⟩⟩
      simpa [List.getElem?_replicate] using (List.getElem?_eq_some_iff.mp hv).1
  | some e =>
      obtain ⟨l, rfl, registered⟩ := h.objective e ho
      obtain ⟨es, hes⟩ := exists_forall₂ fun t (ht : t ∈ l.terms) =>
        Declarations.exists_entryOf (K := K) h.distinct (registered t ht)
          (readable _ ho t (by simpa using ht))
      have entries : List.Forall₂ (fun t e => Term.entry p.index.require t = .ok e) l.terms es :=
        (forall₂_congr_of_mem fun t ht e =>
          Declarations.entry_eq_ok h.distinct (registered t ht)).mpr hes
      refine ⟨addEntries (List.replicate p.index.size Numeric.zero) es, ?_, by simp,
        fun j v hv => ⟨_, Declarations.mapM_coefficients h.distinct hes hv, ?_⟩⟩
      · rw [cost, ho, costOf, Expression.terms_linear, Series.foldlM_ofList]
        exact foldlM_addCost entries (Declarations.EntryOf.places hes) _
      · rw [getElem?_addEntries, List.getElem?_replicate]
        simpa using (List.getElem?_eq_some_iff.mp hv).1

theorem isInt_eq (d : Domain) : d.isInt = decide (d ≠ .real) := by
  cases d <;> rfl

/-- The list of integral columns is left out where it holds no column. -/
theorem integral_columnwise (vs : List Value) (domain : Value → Domain) :
    let flags := vs.map fun v => (domain v).isInt
    let integral := if flags.contains true then flags else []
    (integral = [] ↔ ∀ v ∈ vs, domain v = .real) ∧
      (integral ≠ [] → integral = vs.map fun v => decide (domain v ≠ .real)) := by
  intro flags integral
  have flag : flags = vs.map fun v => decide (domain v ≠ .real) :=
    List.map_congr_left fun v _ => isInt_eq (domain v)
  by_cases some : flags.contains true
  · obtain ⟨v, hv, int⟩ : ∃ v ∈ vs, domain v ≠ .real := by simpa [flag] using some
    have whole : integral = flags := if_pos some
    refine ⟨⟨fun empty => ?_, fun all => absurd (all v hv) int⟩, fun _ => whole.trans flag⟩
    have : flags = [] := whole.symm.trans empty
    rw [List.map_eq_nil_iff.mp this] at hv
    cases hv
  · have none : ∀ v ∈ vs, domain v = .real := by simpa [flag] using some
    have empty : integral = [] := if_neg some
    exact ⟨⟨fun _ => none, fun _ => empty⟩, fun h => absurd empty h⟩

/-- What is stored where the row of a constraint meets the column of a variable. -/
theorem stored_of_stores (distinct : p.Distinct) {m : Columnwise K} {a : Matrix K}
    (h : m.Stores a) (ascending : ∀ row ∈ a.rows, row.Ascending)
    (width : a.width = p.variableList.length) {i j : Nat} {c : Constraint} {v : Value}
    {r : List (Int × K) × Range K} (row : p.RowOf c r)
    (hrow : a.rows[i]? = some (SparseRow.ofEntries (r.1.map fun e => (e.1.toNat, e.2))))
    (hv : p.variableList[j]? = some v) :
    ∃ xs : List K, (c.lhs.coefficientsOf v).mapM Numeric.ofValue = .ok xs ∧
      ∀ x, (i, x) ∈ m.segment j ↔ leftSum? xs = some x := by
  refine ⟨_, Declarations.mapM_coefficients distinct row.entries hv, fun x => ?_⟩
  have hj : j < m.columns := by
    rw [h.width, width]
    exact (List.getElem?_eq_some_iff.mp hv).1
  rw [h.segment_eq hj, SparseRow.mem_iff_lookup (Matrix.ascending_column ascending j),
    Matrix.lookup_column ascending hrow, SparseRow.lookup_ofEntries, List.filter_map,
    List.map_map]
  rfl

theorem stores_of_columnwise {m : Columnwise K} {rows : RangedRows K}
    (made : p.columnwise p.index = .ok m) (matrix : p.matrix p.index = .ok rows)
    (width : rows.matrix.width = p.index.size)
    (count : p.constraints.length = .ok rows.matrix.rows.length) : m.Stores rows.matrix := by
  obtain ⟨cols, -, made⟩ := bind_eq_ok.mp made
  obtain ⟨_, hrows, made⟩ := bind_eq_ok.mp made
  obtain ⟨cost, -, made⟩ := bind_eq_ok.mp made
  obtain ⟨n, hn, made⟩ := bind_eq_ok.mp made
  obtain rfl := Except.ok.inj (matrix.symm.trans hrows)
  obtain rfl := Except.ok.inj (count.symm.trans hn)
  obtain rfl := Except.ok.inj made
  exact ⟨width.symm, rfl, by rw [width], by rw [width], by rw [width]⟩

theorem isMaximize_iff : p.isMaximize = true ↔ p.objective ≠ none ∧ p.sense = .max := by
  simp [isMaximize, Option.isSome_iff_ne_none]

/-- The entries of the rows stand in columns of the problem. -/
theorem column_lt_size {rs : List (List (Int × K) × Range K)}
    (made : List.Forall₂ p.RowOf p.constraints.items rs) :
    ∀ row ∈ rs.map (fun r => SparseRow.ofEntries (r.1.map fun e => (e.1.toNat, e.2))),
      ∀ e ∈ row, e.1 < p.index.size := by
  refine List.forall_mem_map.mpr fun r hr e he => ?_
  obtain ⟨i, hi⟩ := List.getElem?_of_mem hr
  obtain ⟨c, -, row⟩ := exists_of_forall₂ made.flip hi
  obtain ⟨e', he', same⟩ : ∃ e' ∈ r.1, e'.1.toNat = e.1 := by
    simpa using SparseRow.columns_ofEntries _ e he
  obtain ⟨j, hj, place⟩ := Declarations.EntryOf.places row.entries e' he'
  omega

theorem integral_of_columns {cols : List (K × K × Bool)}
    (made : List.Forall₂ (fun v c => p.column K v = .ok c) p.variableList cols) :
    cols.map (·.2.2) = p.variableList.map fun v => (p.domainOf v).isInt := by
  refine List.forall₂_eq_eq_eq ▸ ?_
  rw [List.forall₂_map_left_iff, List.forall₂_map_right_iff]
  exact made.flip.imp fun _ _ h => Declarations.integral_of_column h

/-- `Problem.columnwise` gives a form of a problem that is `Readable`, which restates it
(`Columnwise.Restates`). -/
theorem WellFormed.exists_columnwise (h : p.WellFormed)
    (count : p.constraints.length = .ok p.constraints.items.length) (readable : p.Readable K) :
    ∃ (m : Columnwise K) (rows : RangedRows K), p.columnwise p.index = .ok m ∧
      p.matrix p.index = .ok rows ∧ m.Restates p rows := by
  obtain ⟨cols, hcols⟩ := exists_forall₂ readable.bounds
  obtain ⟨costs, hcosts, costCount, cost⟩ := h.exists_costs readable.costs
  obtain ⟨rs, hrs⟩ := exists_forall₂ fun c hc => h.exists_rowOf readable hc
  have columns := Declarations.columns_index (mapM_eq_ok.mpr hcols)
  have matrix := h.matrix_eq_ok hrs
  obtain ⟨m, hm⟩ : ∃ m, p.columnwise p.index = .ok m :=
    ⟨_, bind_eq_ok.mpr ⟨_, columns, bind_eq_ok.mpr ⟨_, matrix,
      bind_eq_ok.mpr ⟨_, hcosts, bind_eq_ok.mpr ⟨_, count, rfl⟩⟩⟩⟩⟩
  have rowCount := hrs.length_eq
  have colCount := hcols.length_eq
  have size : p.index.size = p.variableList.length := Declarations.size_index _
  have stores := stores_of_columnwise hm matrix rfl (by simp [count, rowCount])
  have ascending : ∀ row ∈ rs.map (fun r =>
      SparseRow.ofEntries (r.1.map fun e => (e.1.toNat, e.2))), row.Ascending :=
    List.forall_mem_map.mpr fun r _ => SparseRow.ascending_ofEntries _
  refine ⟨m, _, hm, matrix, ?_⟩
  simp only [columnwise, columns, matrix, hcosts, count] at hm
  obtain rfl := Except.ok.inj hm
  exact
    { columnCount := size
      rowCount := rfl
      packed := stores.packed ascending
      stored := fun i c hc j v hv => by
        obtain ⟨r, hr, row⟩ := exists_of_forall₂ hrs hc
        exact stored_of_stores h.distinct stores ascending size row (by simp [hr]) hv
      decoded := stores.decoded_eq ascending (column_lt_size hrs)
      rowSides := ⟨by simp [rowCount], by simp [rowCount], fun i c hc => by
        obtain ⟨r, hr, row⟩ := exists_of_forall₂ hrs hc
        exact ⟨r.2, row.range, by simp [hr], by simp [hr], by simp [hr]⟩⟩
      colSides := ⟨by simp [colCount], by simp [colCount], fun j v hv => by
        obtain ⟨⟨lo, up, int⟩, hcol, made⟩ := exists_of_forall₂ hcols hv
        exact ⟨lo, up, int, made, by simp [hcol], by simp [hcol]⟩⟩
      cost := ⟨costCount.trans size.symm, cost⟩
      integral := by
        have := integral_columnwise p.variableList p.domainOf
        rwa [← integral_of_columns hcols] at this
      maximize := isMaximize_iff }

end Problem

/-- For a problem that is `Store.Built`, `Problem.columnwise` gives a form exactly if the numbers
can be read, and it restates the problem and its rows (`Columnwise.Restates`). -/
theorem Store.Built.restates {id : Nat} {s : Store} (built : Built id s) :
    ((∃ m : Columnwise K, (s.viewProblem id).columnwise (s.viewProblem id).index = .ok m) ↔
      (s.viewProblem id).Readable K) ∧
    ∀ m : Columnwise K, (s.viewProblem id).columnwise (s.viewProblem id).index = .ok m →
      ∃ rows : RangedRows K, (s.viewProblem id).matrix (s.viewProblem id).index = .ok rows ∧
        m.Restates (s.viewProblem id) rows := by
  have wellFormed := built.sound.wellFormed
  obtain ⟨cs, seen, -⟩ := built.sound.constraints_eq_ofList
  have count : (s.viewProblem id).constraints.length =
      .ok (s.viewProblem id).constraints.items.length := by rw [seen]; rfl
  refine ⟨⟨fun ⟨m, made⟩ => wellFormed.readable_of_columnwise made, fun readable => ?_⟩,
    fun m made => ?_⟩
  · obtain ⟨m, rows, made, -⟩ := wellFormed.exists_columnwise count readable
    exact ⟨m, made⟩
  · obtain ⟨m', rows, made', matrix, restates⟩ :=
      wellFormed.exists_columnwise count (wellFormed.readable_of_columnwise made)
    obtain rfl := Except.ok.inj (made.symm.trans made')
    exact ⟨rows, matrix, restates⟩

set_option maxRecDepth 4000 in
theorem Store.columnwise_decision :
    (decision.viewProblem 0).columnwise (decision.viewProblem 0).index =
      (.ok { columns := 2
             rows := 1
             maximize := true
             cost := [.finite 3, .finite 0]
             colLower := [.finite 0, .finite 0]
             colUpper := [.finite 2, .finite 1]
             rowLower := [.negInf]
             rowUpper := [.finite 3]
             start := [0, 1, 2]
             index := [0, 0]
             value := [.finite 2, .finite 2]
             integral := [true, true] } : Except Fault (Columnwise Extended)) := by
  with_unfolding_all rfl

theorem Store.restates_decision : Built 0 decision ∧
    ∃ (m : Columnwise Extended) (rows : RangedRows Extended),
      (decision.viewProblem 0).columnwise (decision.viewProblem 0).index = .ok m ∧
      m.start = [0, 1, 2] ∧ m.index = [0, 0] ∧ m.value = [.finite 2, .finite 2] ∧
      (decision.viewProblem 0).matrix (decision.viewProblem 0).index = .ok rows ∧
      m.Restates (decision.viewProblem 0) rows := by
  obtain ⟨rows, matrix, restates⟩ := built_decision.restates.2 _ columnwise_decision
  exact ⟨built_decision, _, rows, columnwise_decision, rfl, rfl, rfl, matrix, restates⟩

end Milp
