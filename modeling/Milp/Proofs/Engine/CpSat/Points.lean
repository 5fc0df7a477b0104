import Milp.Proofs.Engine.CpSat.Exactness
import Milp.Proofs.Number.Held
import Milp.Proofs.Store.Built

/-!
# The points of a pseudo-boolean model

A problem is encoded twice, in whole numbers for CP-SAT (`Problem.pseudoBoolean`) and in arrays of
doubles for the engines that take a matrix. Read exactly, the arrays have the points of zeros and
ones that the model in whole numbers has, and go on having them when cuts are added to the model and
the cost is asked to be better.
-/

namespace Milp

variable {x : Nat → Int}

/-! ## Sums in whole numbers -/

theorem WholeSum.eval_cast (es : List (Nat × Int)) (x : Nat → Int) :
    ((eval ⟨es⟩ x : Int) : Rat) = (es.map fun e => (e.2 : Rat) * (x e.1 : Rat)).sum := by
  induction es with
  | nil => rfl
  | cons e es ih =>
      rw [eval_cons, List.map_cons, List.sum_cons, ← ih]
      push_cast
      rfl

/-- Terms in whole numbers are entries of the numbers that doubles hold. -/
theorem Term.Encoded.exists_entries {d : Declarations} {engine : Value} {ts : List Term}
    {es : List (Nat × Int)} (h : List.Forall₂ (Term.Encoded Float d.index engine) ts es) :
    ∃ hs : List (Int × Held),
      List.Forall₂ (fun t e => Term.entry d.index.require t = .ok e) ts hs ∧
      (∀ e ∈ hs, ∃ i : Nat, i < d.index.size ∧ e.1 = i) ∧
      hs.map (fun e => (e.1.toNat, e.2.value)) =
        (es.map fun e => (e.1, (e.2 : Rat))).map fun e => (e.1, .finite e.2) := by
  induction h with
  | nil => exact ⟨[], .nil, by simp, rfl⟩
  | @cons t e ts es ht _ ih =>
      obtain ⟨hs, entries, columns, same⟩ := ih
      obtain ⟨j, hj, column⟩ := ht.column
      obtain ⟨i, w, hi, -, hplace⟩ := Declarations.exists_place (Table.require_eq_ok.mp hj).2
      refine ⟨(j, ⟨.finite e.2⟩) :: hs, .cons ?_ entries, ?_, ?_⟩
      · rw [Term.entry, hj]
        exact bind_eq_ok.mpr ⟨j, rfl, bind_eq_ok.mpr
          ⟨_, Held.ofValue_of_toWhole ht.coefficient, rfl⟩⟩
      · exact List.forall_mem_cons.mpr
          ⟨⟨i, by simpa using (List.getElem?_eq_some_iff.mp hi).1, hplace⟩, columns⟩
      · simp [same, column]

/-! ## Rows -/

theorem WholeRow.holds_iff (r : WholeRow) (x : Nat → Int) :
    r.holds x = true ↔ r.relation.Holds (r.lhs.eval x : Rat) (r.rhs : Rat) := by
  unfold holds Relation.Holds
  cases r.relation with
  | le => simp
  | eq => simp
  | ge => simp

theorem Relation.view_range (r : Relation) (a : Held) : (r.range a).view = r.range a.value := by
  cases r <;> simp [range, Range.view]

/-- The row of a constraint in whole numbers holds at the points that its row of numbers keeps in
its range. -/
theorem WholeRow.exists_row {d : Declarations} {c : Constraint} {l : Linear}
    (hl : c.lhs = .linear l) {fits : WholeRow → Except Fault Unit} {engine : Value} {row : WholeRow}
    (h : ofConstraint Float fits d.index engine c = .ok row) :
    ∃ r : List (Int × Held) × Range Held, Constraint.row d.index.require c = .ok r ∧
      (∀ e ∈ r.1, ∃ i : Nat, i < d.index.size ∧ e.1 = i) ∧
      ∀ x : Nat → Int, row.holds x = true ↔ r.2.view.contains
        ((SparseRow.ofEntries (r.1.map fun e => (e.1.toNat, e.2))).view.dot fun j => x j) =
          true := by
  obtain ⟨sum, hsum, h⟩ := bind_eq_ok.mp h
  obtain ⟨rhs, hrhs, h⟩ := bind_eq_ok.mp h
  obtain ⟨-, -, h⟩ := bind_eq_ok.mp h
  obtain ⟨name, -, h⟩ := bind_eq_ok.mp h
  obtain rfl := Except.ok.inj h
  rw [hl, WholeSum.ofExpression_linear] at hsum
  obtain ⟨hs, entries, columns, same⟩ := Term.Encoded.exists_entries hsum
  have lhs : c.lhs.entries d.index.require = .ok hs := by
    rw [hl, Expression.entries, Expression.terms_linear, Series.mapM_ofList, mapM_eq_ok]
    exact entries
  have range : c.range = .ok (c.relation.range (⟨.finite rhs⟩ : Held)) := by
    rw [Constraint.range, Held.ofValue_of_toWhole hrhs]
    rfl
  refine ⟨(hs, c.relation.range ⟨.finite rhs⟩), ?_, columns, fun x => ?_⟩
  · rw [Constraint.row, lhs, range]
    rfl
  · rw [SparseRow.view_ofEntries, List.map_map]
    change _ ↔ Range.contains _ (SparseRow.dot (SparseRow.ofEntries
      (hs.map fun e => (e.1.toNat, e.2.value))) _) = true
    rw [same, SparseRow.dot_ofEntries, Relation.view_range, Relation.contains_range, holds_iff,
      List.map_map, WholeSum.eval_cast]
    rfl

/-! ## Columns -/

theorem Declarations.effectiveBounds_bool {d : Declarations} {v : Value} {b : Bounds Value}
    (boolean : d.domainOf v = .bool) (h : d.effectiveBounds v = .ok b) :
    ∃ up down : Bool,
      b = ⟨some (.int (if up then 1 else 0)), some (.int (if down then 0 else 1))⟩ := by
  simp only [effectiveBounds, boolean] at h
  obtain ⟨up, -, h⟩ := bind_eq_ok.mp h
  obtain ⟨down, -, h⟩ := bind_eq_ok.mp h
  exact ⟨up, down, (Except.ok.inj h).symm⟩

@[simp] theorem WholeRow.holds_fix {j : Nat} {value : Int} :
    (fix j value).holds x = true ↔ x j = value := by
  simp [fix, holds]

/-- `fixingRows` gives the rows that the bounds of a boolean variable call for. -/
theorem Problem.fixingRows_bool {p : Problem} {v : Value} (boolean : p.domainOf v = .bool) {i : Nat}
    {rows : List WholeRow} (h : p.fixingRows (v, (i : Int)) = .ok rows) :
    ∃ up down : Bool,
      p.effectiveBounds v =
        .ok ⟨some (.int (if up then 1 else 0)), some (.int (if down then 0 else 1))⟩ ∧
      rows =
        (if up then [WholeRow.fix i 1] else []) ++ if down then [WholeRow.fix i 0] else [] := by
  obtain ⟨b, hb, h⟩ := bind_eq_ok.mp h
  obtain ⟨up, down, rfl⟩ := Declarations.effectiveBounds_bool boolean hb
  have same : (Value.int 1).same (.int 1) = true ∧ (Value.int 0).same (.int 1) = false ∧
      (Value.int 0).same (.int 0) = true ∧ (Value.int 1).same (.int 0) = false := by
    decide
  refine ⟨up, down, hb, ?_⟩
  rw [← Except.ok.inj h]
  cases up <;> cases down <;> simp [same]

/-- The rows that force a boolean variable hold where its column is within its sides. -/
theorem Problem.exists_column {p : Problem} {v : Value} (boolean : p.domainOf v = .bool) {i : Nat}
    {rows : List WholeRow} (h : p.fixingRows (v, (i : Int)) = .ok rows) :
    ∃ c : Held × Held × Bool, p.column Held v = .ok c ∧
      ∀ x, IsBinary x → (Declarations.Within (c.1.value, c.2.1.value, c.2.2) (x i) ↔
        ∀ r ∈ rows, r.holds x = true) := by
  obtain ⟨up, down, bounds, rfl⟩ := fixingRows_bool boolean h
  refine ⟨(⟨.finite (if up then 1 else 0)⟩, ⟨.finite (if down then 0 else 1)⟩, true), ?_,
    fun x binary => ?_⟩
  · rw [Declarations.column, bounds, boolean]
    cases up <;> cases down <;>
      simp [Declarations.side, Numeric.ofValue, Held.ofInt_zero, Held.ofInt_one, bind,
        Except.bind, Domain.isInt] <;> rfl
  · rw [Declarations.within_binary]
    cases up <;> cases down <;> simp [binary i, and_comm]

namespace Problem

variable {p : Problem} {name : Value} {fits : WholeRow → Except Fault Unit} {model : PseudoBoolean}

/-! ## The model before any cuts -/

theorem boolean_of_checkBoolean (h : p.checkBoolean name = .ok ()) :
    ∀ v ∈ p.variableList, p.domainOf v = .bool := by
  intro v hv
  have := forM_eq_ok.mp h v hv
  cases hd : p.domainOf v with
  | bool => rfl
  | int => simp [hd] at this
  | real => simp [hd] at this

/-- The columns of variables that are all boolean have the points at which the rows hold that force
them. -/
theorem exists_columns_held (boolean : ∀ v ∈ p.variableList, p.domainOf v = .bool)
    {fixed : List (List WholeRow)} (h : p.index.entries.mapM p.fixingRows = .ok fixed) :
    ∃ columns : Columns Held, p.columns p.index = .ok columns ∧
      ∀ x, IsBinary x → (columns.view.Admits (fun j => x j) ↔
        ∀ r ∈ fixed.flatten, r.holds x = true) := by
  rw [mapM_eq_ok, Declarations.index, List.forall₂_map_left_iff] at h
  have each : ∀ e ∈ p.variableList.zipIdx, ∃ c : Held × Held × Bool, p.column Held e.1 = .ok c ∧
      ∀ rows, p.fixingRows (e.1, (e.2 : Int)) = .ok rows → ∀ x, IsBinary x →
        (Declarations.Within (c.1.value, c.2.1.value, c.2.2) (x e.2) ↔
          ∀ r ∈ rows, r.holds x = true) := by
    intro e he
    obtain ⟨i, hi⟩ := List.getElem?_of_mem he
    obtain ⟨rows, -, hrows⟩ := exists_of_forall₂ h hi
    have mem : e.1 ∈ p.variableList := by
      have := List.mem_zipIdx_iff_getElem?.mp he
      exact List.mem_of_getElem? this
    obtain ⟨c, hc, within⟩ := exists_column (boolean e.1 mem) hrows
    refine ⟨c, hc, fun rows' hrows' => ?_⟩
    obtain rfl := Except.ok.inj (hrows.symm.trans hrows')
    exact within
  obtain ⟨cols, hcols⟩ := exists_forall₂ each
  have columns : p.variableList.mapM (p.column Held) = .ok cols := by
    rw [mapM_eq_ok, ← List.zipIdx_map_fst 0 p.variableList, List.forall₂_map_left_iff]
    exact hcols.imp fun _ _ h => h.1
  refine ⟨_, Declarations.columns_index columns, fun x binary => ?_⟩
  have viewed : Columns.view ⟨cols.map (·.1), cols.map (·.2.1), cols.map (·.2.2)⟩ =
      ⟨(cols.map fun c => (c.1.value, c.2.1.value, c.2.2)).map (·.1),
        (cols.map fun c => (c.1.value, c.2.1.value, c.2.2)).map (·.2.1),
        (cols.map fun c => (c.1.value, c.2.1.value, c.2.2)).map (·.2.2)⟩ := by
    simp [Columns.view]
  have place {e : Value × Nat} {j : Nat} (he : p.variableList.zipIdx[j]? = some e) : e.2 = j := by
    rw [List.getElem?_zipIdx] at he
    obtain ⟨v, -, rfl⟩ := Option.map_eq_some_iff.mp he
    exact Nat.zero_add j
  rw [viewed, Declarations.admits_columns, List.forall_mem_flatten,
    ← forall_mem_iff_of_forall₂ h (P := fun e => ∀ c, cols[e.2]? = some c →
      Declarations.Within (c.1.value, c.2.1.value, c.2.2) (x e.2))]
  · constructor
    · intro all e he c hc
      exact all e.2 _ (by simp [hc])
    · intro all j _ hview
      obtain ⟨c, hc, rfl⟩ := Option.map_eq_some_iff.mp (List.getElem?_map.symm.trans hview)
      obtain ⟨e, he, -⟩ := exists_of_forall₂ hcols.flip hc
      obtain rfl := place he
      exact all e (List.mem_of_getElem? he) c hc
  · intro e he rows hrows
    obtain ⟨j, hj⟩ := List.getElem?_of_mem he
    obtain rfl := place hj
    obtain ⟨c, hc, -, within⟩ := exists_of_forall₂ hcols hj
    simp [hc, within rows hrows x binary]

/-- The matrix of a problem has, in its ranges, the points at which the rows hold that were made of
its constraints. -/
theorem exists_matrix_held (h : p.WellFormed) {rows : List WholeRow}
    (hrows : p.constraints.mapM "lhs" (WholeRow.ofConstraint Float fits p.index name) = .ok rows) :
    ∃ m : RangedRows Held, p.matrix p.index = .ok m ∧
      ∀ x : Nat → Int, List.Forall₂
        (fun row range => range.view.contains (row.view.dot fun j => x j) = true)
          m.matrix.rows m.ranges ↔ ∀ r ∈ rows, r.holds x = true := by
  obtain ⟨n, length⟩ := h.length
  obtain ⟨_, hitems, hrows⟩ := bind_eq_ok.mp hrows
  obtain ⟨_, -, hrows⟩ := bind_eq_ok.mp hrows
  obtain rfl := Except.ok.inj hrows
  rw [mapM_eq_ok] at hitems
  have each : ∀ c ∈ p.constraints.items, ∃ r : List (Int × Held) × Range Held,
      Constraint.row p.index.require c = .ok r ∧
      (∀ e ∈ r.1, ∃ i : Nat, i < p.index.size ∧ e.1 = i) ∧
      ∃ row, WholeRow.ofConstraint Float fits p.index name c = .ok row ∧ ∀ x : Nat → Int,
        (row.holds x = true ↔ r.2.view.contains
          ((SparseRow.ofEntries (r.1.map fun e => (e.1.toNat, e.2))).view.dot fun j => x j) =
            true) := by
    intro c hc
    obtain ⟨i, hi⟩ := List.getElem?_of_mem hc
    obtain ⟨row, -, hrow⟩ := exists_of_forall₂ hitems hi
    obtain ⟨l, hl, -⟩ := h.constraints c hc
    obtain ⟨r, hr, columns, holds⟩ := WholeRow.exists_row hl hrow
    exact ⟨r, hr, columns, row, hrow, holds⟩
  obtain ⟨rs, hrs⟩ := exists_forall₂ each
  have columns : ∀ r ∈ rs, ∀ e ∈ r.1, ∃ i : Nat, i < p.index.size ∧ e.1 = i := by
    intro r hr
    obtain ⟨i, hi⟩ := List.getElem?_of_mem hr
    obtain ⟨c, -, -, columns, -⟩ := exists_of_forall₂ hrs.flip hi
    exact columns
  refine ⟨_, matrixOf_eq_ok h.complete length (hrs.imp fun _ _ h => h.1) columns, fun x => ?_⟩
  rw [List.forall₂_map_left_iff, List.forall₂_map_right_iff, List.forall₂_same,
    ← forall_mem_iff_of_forall₂ hitems (P := fun c => ∀ row,
      WholeRow.ofConstraint Float fits p.index name c = .ok row → row.holds x = true)]
  · refine (forall_mem_iff_of_forall₂ hrs fun c _ r => ?_).symm
    rintro ⟨-, -, row, hrow, holds⟩
    simp [hrow, holds x]
  · intro c _ row hrow
    simp [hrow]

/-- The costs of a problem have, at every point, the value of the sum in its cuts. -/
theorem exists_cost_held (h : p.WellFormed) {objective : WholeSum}
    (hsum : CpSat.cutSum p name = .ok objective) :
    ∃ cost : List Held, p.cost p.index = .ok cost ∧ ∀ x : Nat → Int,
      costAt (cost.map Held.value) (fun j => x j) = .finite (objective.eval x : Rat) := by
  have zeros : (List.replicate p.index.size (Numeric.zero : Held)).map Held.value =
      List.replicate p.index.size Numeric.zero := by
    simp
  unfold CpSat.cutSum at hsum
  cases ho : p.objective with
  | none =>
      rw [ho] at hsum
      obtain rfl := Except.ok.inj hsum
      refine ⟨List.replicate p.index.size Numeric.zero, by rw [cost, ho]; rfl, fun x => ?_⟩
      rw [zeros]
      exact costFrom_replicate 0 _
  | some e =>
      obtain ⟨l, rfl, -⟩ := h.objective e ho
      rw [ho] at hsum
      obtain ⟨es, entries, columns, same⟩ :=
        Term.Encoded.exists_entries (WholeSum.ofExpression_linear.mp hsum)
      refine ⟨addEntries (List.replicate p.index.size Numeric.zero) es, ?_, fun x => ?_⟩
      · rw [cost, ho, costOf, Expression.terms_linear, Series.foldlM_ofList]
        exact foldlM_addCost entries columns _
      · have viewed : ∀ e ∈ es.map (fun e => (e.1, e.2.value)),
            ∃ i : Nat, i < p.index.size ∧ e.1 = (i : Int) :=
          List.forall_mem_map.mpr columns
        have numbers : (es.map fun e => (e.1, e.2.value)).map (fun e => (e.1.toNat, e.2)) =
            (objective.terms.map fun e => (e.1, (e.2 : Rat))).map fun e => (e.1, .finite e.2) := by
          rw [List.map_map]
          exact same
        rw [view_addEntries, zeros, costAt_addEntries numbers viewed List.length_replicate
          (costFrom_replicate 0 _), zero_add, List.map_map, WholeSum.eval_cast]
        rfl

end Problem

namespace CpSat

open CutLoop

/-! ## The model with cuts -/

theorem Accepted.of_wellFormed {p : Problem} {name : Value} (h : p.WellFormed)
    (boolean : p.checkBoolean name = .ok ()) (whole : p.checkWhole Float name = .ok ()) :
    Accepted p name where
  boolean := boolean
  whole := whole
  objective e he := by
    obtain ⟨l, hl, registered⟩ := h.objective e he
    refine ⟨l, hl, fun t ht => ?_⟩
    obtain ⟨i, w, -, -, hrequire⟩ := h.distinct.require_index (registered t ht)
    exact ⟨i, hrequire⟩

theorem Accepted.exists_sum {p : Problem} {name : Value} (accepted : Accepted p name) :
    ∃ objective, cutSum p name = .ok objective := by
  unfold cutSum
  cases ho : p.objective with
  | none => exact ⟨_, rfl⟩
  | some e =>
      obtain ⟨native, hnative⟩ := accepted.exists_cutSum ho
      exact ⟨native, hnative.encoded⟩

/-- A point is within the columns, keeps the rows in their ranges, and has a cost that is better
than values by one at least. -/
structure AdmitsBetter (maximize : Bool) (m : RangedRows Held) (cs : Columns Held)
    (cost : List Held) (values : List Int) (q : Nat → Rat) : Prop where
  columns : cs.view.Admits q
  rows : List.Forall₂ (fun row range => range.view.contains (row.view.dot q) = true)
    m.matrix.rows m.ranges
  better : ∀ v ∈ values,
    if maximize then Numeric.le (.finite (v + 1)) (costAt (cost.map Held.value) q) = true
    else Numeric.le (costAt (cost.map Held.value) q) (.finite (v - 1)) = true

theorem holds_cut_improved (p : Problem) (settings : Settings) (clock : Nat → Float)
    {objective : WholeSum} {x : Nat → Int} {v : Int} :
    (WholeRow.cut objective (p.sense == .max) ((task p settings clock).improved v)).holds x = true ↔
      if (p.sense == .max) = true then
        Numeric.le (.finite (v + 1)) (.finite (objective.eval x : Rat) : Extended) = true
      else Numeric.le (.finite (objective.eval x : Rat) : Extended) (.finite (v - 1)) = true := by
  rw [WholeRow.holds_iff]
  unfold WholeRow.cut Task.improved task
  cases p.sense <;> simp [Relation.Holds]

/-- For a problem that is `Store.Built` and accepted, with the cuts for any values: `pseudoBoolean`
holds at the points of zeros and ones at which the matrix form admits a better cost
(`AdmitsBetter`), in exact numbers. -/
theorem holds_iff_admitsBetter {id : Nat} {store : Store} (built : store.Built id) {name : Value}
    (boolean : (store.viewProblem id).checkBoolean name = .ok ())
    (whole : (store.viewProblem id).checkWhole Float name = .ok ())
    {fits : WholeRow → Except Fault Unit} {model : PseudoBoolean}
    (made : (store.viewProblem id).pseudoBoolean Float fits (store.viewProblem id).index name =
      .ok model) :
    let p := store.viewProblem id
    ∃ objective rows columns cost, cutSum p name = .ok objective ∧ p.matrix p.index = .ok rows ∧
      p.columns p.index = .ok columns ∧ p.cost p.index = .ok cost ∧
      ∀ engine settings clock st st' record values, st.state.model = model →
        (oracle engine settings p.index objective (p.sense == .max)).Passes st record st' →
        cutBounds record = values.map (task p settings clock).improved →
        ∀ x, IsBinary x → (st'.state.model.holds x = true ↔
          AdmitsBetter (p.sense == .max) rows columns cost values fun j => x j) := by
  intro p
  have h : p.WellFormed := built.sound.wellFormed
  obtain ⟨fixed, hfixed, made⟩ := bind_eq_ok.mp made
  obtain ⟨ofConstraints, hrows, made⟩ := bind_eq_ok.mp made
  obtain rfl := Except.ok.inj made
  obtain ⟨objective, hsum⟩ := (Accepted.of_wellFormed h boolean whole).exists_sum
  obtain ⟨columns, hcolumns, within⟩ :=
    Problem.exists_columns_held (Problem.boolean_of_checkBoolean boolean) hfixed
  obtain ⟨rows, hmatrix, kept⟩ := Problem.exists_matrix_held h hrows
  obtain ⟨cost, hcost, value⟩ := Problem.exists_cost_held h hsum
  refine ⟨objective, rows, columns, cost, hsum, hmatrix, hcolumns, hcost, ?_⟩
  intro engine settings clock st st' record values start passes cuts x binary
  have all : st'.state.model.holds x = true ↔ (∀ r ∈ fixed.flatten, r.holds x = true) ∧
      (∀ r ∈ ofConstraints, r.holds x = true) ∧ ∀ v ∈ values, (WholeRow.cut objective
        (p.sense == .max) ((task p settings clock).improved v)).holds x = true := by
    rw [PseudoBoolean.holds, rows_of_passes passes, start, cuts, List.all_eq_true]
    simp only [List.forall_mem_append, List.forall_mem_map, and_assoc]
  have better : (∀ v ∈ values, (WholeRow.cut objective (p.sense == .max)
      ((task p settings clock).improved v)).holds x = true) ↔ ∀ v ∈ values,
      if (p.sense == .max) = true then
        Numeric.le (.finite (v + 1)) (costAt (cost.map Held.value) fun j => x j) = true
      else Numeric.le (costAt (cost.map Held.value) fun j => x j) (.finite (v - 1)) = true := by
    rw [value x]
    exact forall₂_congr fun v _ => holds_cut_improved p settings clock
  rw [all, ← within x binary, ← kept x, better]
  constructor
  · rintro ⟨c, r, b⟩
    exact ⟨c, r, b⟩
  · rintro ⟨c, r, b⟩
    exact ⟨c, r, b⟩

/-- Two decisions, one of which is named twice in a constraint. -/
def choice : Store :=
  let x : Value := .text "x"
  let y : Value := .text "y"
  (Store.newProblem.perform .empty).2.state
    |> Store.called "set_objective" [.tuple [.term x (.int 3), .term y (.int 2)], .text "max"]
    |> Store.called "add" [.text "cap", .tuple [.term x (.int 1), .term y (.int 2),
      .term x (.int 1)], .text "<=", .int 3]
    |> Store.called "set_var_type" [x, .type .bool]
    |> Store.called "set_var_bounds_and_type" [.int 0, y, .int 1, .type .bool]

theorem built_choice : Store.Built 0 choice :=
  (((Store.built_first.called rfl (by decide)).called rfl (by decide)).called rfl
    (by decide)).called rfl (by decide)

def choiceModel : PseudoBoolean :=
  ⟨2, [⟨"cap", ⟨[(0, 1), (1, 2), (0, 1)]⟩, .le, 3⟩]⟩

set_option maxRecDepth 8000 in
/-- The choice, once a value of two was found. -/
theorem holds_iff_admitsBetter_choice :
    let p := choice.viewProblem 0
    choice.Built 0 ∧ p.checkBoolean (.text "cpsat") = .ok () ∧
      p.checkWhole Float (.text "cpsat") = .ok () ∧
      p.pseudoBoolean Float (fun _ => .ok ()) p.index (.text "cpsat") = .ok choiceModel ∧
      ∃ rows columns cost, p.matrix p.index = .ok rows ∧ p.columns p.index = .ok columns ∧
        p.cost p.index = .ok cost ∧ ∀ x, IsBinary x →
          ((choiceModel.add (.cut ⟨[(0, 3), (1, 2)]⟩ true 3)).holds x = true ↔
            AdmitsBetter true rows columns cost [2] fun j => x j) := by
  intro p
  have boolean : p.checkBoolean (.text "cpsat") = .ok () := by
    with_unfolding_all rfl
  have whole : p.checkWhole Float (.text "cpsat") = .ok () := by
    with_unfolding_all rfl
  have made : p.pseudoBoolean Float (fun _ => .ok ()) p.index (.text "cpsat") =
      .ok choiceModel := by
    with_unfolding_all rfl
  have sum : cutSum p (.text "cpsat") = .ok ⟨[(0, 3), (1, 2)]⟩ := by
    with_unfolding_all rfl
  have sense : p.sense = .max := by
    with_unfolding_all rfl
  obtain ⟨objective, rows, columns, cost, hsum, hrows, hcolumns, hcost, points⟩ :=
    holds_iff_admitsBetter built_choice boolean whole made
  obtain rfl := Except.ok.inj (sum.symm.trans hsum)
  refine ⟨built_choice, boolean, whole, made, rows, columns, cost, hrows, hcolumns, hcost, ?_⟩
  intro x binary
  let before : Logged State := ⟨⟨⟨.none, none, []⟩, choiceModel, 0⟩, []⟩
  let after : Logged State :=
    ⟨⟨⟨.none, none, []⟩, choiceModel.add (.cut ⟨[(0, 3), (1, 2)]⟩ true 3), 0⟩, []⟩
  let record : List (Exchange Float (Table Int)) := [.cut 3]
  have maximize : (p.sense == .max) = true := by
    rw [sense]
    rfl
  have passes : (oracle (Engine.trying []) (.initial (.text "cpsat")) p.index ⟨[(0, 3), (1, 2)]⟩
      (p.sense == .max)).Passes before record after := by
    rw [maximize]
    exact .cut rfl (.nil after)
  have cuts : cutBounds record =
      [2].map (task p (.initial (.text "cpsat")) fun _ => 0).improved := by
    simp [record, cutBounds, Task.improved, task, sense]
  have accepted := points _ _ (fun _ => 0) before after record [2] rfl passes cuts x binary
  rwa [maximize] at accepted

end CpSat

end Milp
