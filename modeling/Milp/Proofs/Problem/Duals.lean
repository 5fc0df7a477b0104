import Milp.Proofs.Encoding.Multipliers
import Milp.Proofs.Problem.Ranged
import Milp.Solution

/-!
# Duals of a problem

What it means for numbers of the constraints and of the variables that they are duals of a problem,
in the sense in which it is stated. Those of the ranged form are, where the sign is turned for a
problem that is to be made large.
-/

namespace Milp

/-- A finite number that is a side of the range of a relation is the right-hand side. -/
theorem Relation.eq_of_side {r : Relation} {a b : Rat}
    (h : .finite a = (r.range (Extended.finite b)).lower ∨
      .finite a = (r.range (Extended.finite b)).upper) : a = b := by
  cases r <;> simpa [range] using h

namespace Problem

variable {p : Problem} {q : Nat → Rat} {x : Key → Rat}

/-! ## Duals -/

/-- A number in the sense of a problem, of one that belongs to it as something to be made small. -/
def inSense (p : Problem) (a : Rat) : Rat :=
  if p.isMaximize then -a else a

/-- A dual of a constraint has the sign that belongs to its relation and to the sense of the
problem, and is there only where the constraint is tight. -/
structure ConstraintDual (p : Problem) (x : Key → Rat) (c : Constraint) (y : Rat) : Prop where
  le : c.relation = .le → if p.isMaximize then 0 ≤ y else y ≤ 0
  ge : c.relation = .ge → if p.isMaximize then y ≤ 0 else 0 ≤ y
  tight : y ≠ 0 → c.lhs.total x = c.rhs.toRat

/-- The number of a variable is one of its bounds. -/
def AtBound (p : Problem) (x : Key → Rat) (v : Value) : Prop :=
  ∃ b, (p.lowers.get? v = some b ∨ p.uppers.get? v = some b) ∧ x v.key = b.toRat

/-- Numbers of the constraints and of the variables are duals of a problem: the coefficients of the
objective are the rows, weighed by the first, and the second. Both are there only where something is
tight. -/
structure Duals (p : Problem) (x : Key → Rat) (ys ds : List Rat) : Prop where
  cost : ∃ rows cost, p.matrix p.index = .ok rows ∧ p.cost p.index = .ok cost ∧
    cost = ds.mapIdx fun j d => Extended.finite (SparseRow.weigh rows.matrix.rows ys j + d)
  constraints : List.Forall₂ (p.ConstraintDual x) p.constraints.items ys
  bounds : List.Forall₂ (fun v d => d ≠ 0 → p.AtBound x v) p.variableList ds

/-- The names of constraints can be looked up, and are told apart from each other and from the
variables. -/
structure Named (p : Problem) : Prop where
  hashable : ∀ c ∈ p.constraints.items, c.name.checkKey = .ok ()
  keys : (p.constraints.items.map (·.name)).Pairwise fun a b => a.key ≠ b.key
  fresh : ∀ v ∈ p.variableList, ∀ c ∈ p.constraints.items, v.key ≠ c.name.key

/-- A solution reports numbers of the constraints under their names, and of the variables. -/
structure Reports (p : Problem) (s : Solution Extended) (ys ds : List Rat) : Prop where
  constraints : List.Forall₂ (fun c y => s.dual.get? c.name = some (.finite y))
    p.constraints.items ys
  columns : List.Forall₂ (fun v d => s.dual.get? v = some (.finite d)) p.variableList ds

/-! ## Duals of the ranged form -/

@[simp] theorem inSense_zero (p : Problem) : p.inSense 0 = 0 := by
  simp [inSense]

theorem inSense_add (p : Problem) (a b : Rat) : p.inSense (a + b) = p.inSense a + p.inSense b := by
  unfold inSense
  split
  · exact neg_add a b
  · rfl

/-- A cost of something to be made small is a coefficient of the objective in its own sense. -/
theorem eq_inSense {c : Extended} {a : Rat}
    (h : (if p.isMaximize then -c else c) = .finite a) : c = .finite (p.inSense a) := by
  unfold inSense
  split at h
  · rename_i large
    rw [if_pos large]
    cases c with
    | finite q =>
        rw [Extended.neg_finite, Extended.finite.injEq] at h
        rw [← h, neg_neg]
    | _ => cases h
  · rename_i small
    rw [if_neg small, h]

theorem weigh_inSense (p : Problem) (rows : List (SparseRow Extended)) (ys : List Rat) (j : Nat) :
    SparseRow.weigh rows (ys.map p.inSense) j = p.inSense (SparseRow.weigh rows ys j) := by
  cases hm : p.isMaximize with
  | true =>
      have sense : p.inSense = fun a => -a := funext fun a => by simp [inSense, hm]
      rw [sense, SparseRow.weigh_neg]
  | false =>
      have sense : p.inSense = id := funext fun a => by simp [inSense, hm]
      rw [sense, List.map_id, id]

/-- The dual of a row is one of its constraint. -/
theorem constraintDual_of_rowDual {row : SparseRow Extended} {range : Range Extended}
    {c : Constraint} (denotes : p.toDeclarations.Denotes row range c) (reads : p.Reads x q)
    {y : Rat} (h : Ranged.RowDual row range q y) : p.ConstraintDual x c (p.inSense y) := by
  refine ⟨fun le => ?_, fun ge => ?_, fun nonzero => ?_⟩
  · have sign : y ≤ 0 := h.nonpos (by rw [denotes.range, le]; exact Extended.numericNegInf)
    cases hm : p.isMaximize <;> simpa [inSense, hm] using sign
  · have sign : 0 ≤ y := h.nonneg (by rw [denotes.range, ge]; exact Extended.numericPosInf)
    cases hm : p.isMaximize <;> simpa [inSense, hm] using sign
  · have tight := h.tight fun zero => nonzero (by rw [zero, inSense_zero])
    rw [denotes.value x q reads, denotes.range] at tight
    exact Relation.eq_of_side tight

/-- A bound that a number lies on is a bound of the variable. -/
theorem atBound_of_side {v : Value} (finite : p.FiniteBounds v) {lo up : Extended}
    (lower : Declarations.side Numeric.negInf (p.lowers.get? v) = .ok lo)
    (upper : Declarations.side Numeric.posInf (p.uppers.get? v) = .ok up)
    (h : lo = .finite (x v.key) ∨ up = .finite (x v.key)) : p.AtBound x v := by
  have eq_of_reads {b : Value} (hb : b.IsFinite)
      (read : Numeric.ofValue b = .ok (Extended.finite (x v.key))) : x v.key = b.toRat :=
    Extended.finite.inj (Except.ok.inj (read.symm.trans hb.readsFinite))
  rcases h with rfl | rfl
  · cases hb : p.lowers.get? v with
    | none =>
        rw [hb, Declarations.side, Extended.numericNegInf] at lower
        cases lower
    | some b => exact ⟨b, .inl hb, eq_of_reads (finite.lower b hb) (by rwa [hb] at lower)⟩
  · cases hb : p.uppers.get? v with
    | none =>
        rw [hb, Declarations.side, Extended.numericPosInf] at upper
        cases upper
    | some b => exact ⟨b, .inr hb, eq_of_reads (finite.upper b hb) (by rwa [hb] at upper)⟩

theorem exists_of_ranged {m : Ranged Extended} (h : p.ranged p.index = .ok m) :
    ∃ columns rows cost, p.columns p.index = .ok columns ∧ p.matrix p.index = .ok rows ∧
      p.cost p.index = .ok cost ∧ m.matrix = rows.matrix ∧
      m.rowLower = rows.ranges.map (·.lower) ∧ m.rowUpper = rows.ranges.map (·.upper) ∧
      m.lower = columns.lower ∧ m.upper = columns.upper ∧
      m.cost = if p.isMaximize then cost.map fun x => -x else cost := by
  obtain ⟨columns, hcolumns, h⟩ := bind_eq_ok.mp h
  obtain ⟨rows, hrows, h⟩ := bind_eq_ok.mp h
  obtain ⟨cost, hcost, h⟩ := bind_eq_ok.mp h
  obtain rfl := Except.ok.inj h
  exact ⟨columns, rows, cost, hcolumns, hrows, hcost, rfl, rfl, rfl, rfl, rfl, rfl⟩

/-- Duals of the ranged form, turned by `inSense`, are duals of the problem. -/
theorem duals_of_ranged (h : p.WellFormed) (finite : p.FiniteData)
    (real : ∀ v ∈ p.variableList, p.domainOf v = .real) {m : Ranged Extended}
    (made : p.ranged p.index = .ok m) (reads : p.Reads x q) {ys ds : List Rat}
    (duals : m.Duals q ys ds) : p.Duals x (ys.map p.inSense) (ds.map p.inSense) := by
  obtain ⟨columns, rows, cost, hcolumns, hrows, hcost, matrix, rowLower, rowUpper, lower, upper,
    costs⟩ := exists_of_ranged made
  obtain ⟨rows', columns', cost', hrows', hcolumns', hcost', denotes⟩ := h.exists_matrixForm finite
  obtain rfl := Except.ok.inj (hrows.symm.trans hrows')
  obtain rfl := Except.ok.inj (hcolumns.symm.trans hcolumns')
  obtain rfl := Except.ok.inj (hcost.symm.trans hcost')
  have rowCount : ys.length = p.constraints.items.length := by
    rw [duals.rowCount, matrix, denotes.rowCount]
  have columnCount : ds.length = p.variableList.length := by
    rw [duals.columnCount, lower, denotes.columns.lowerCount, Declarations.size_index]
  refine ⟨⟨rows, cost, hrows, hcost, ?_⟩, ?_, ?_⟩
  · refine List.ext_getElem ?_ fun j hj hj' => ?_
    · simp [denotes.costCount, columnCount]
    · have hd : j < ds.length := by simpa using hj'
      have entry := congrArg (·[j]?) (costs.symm.trans duals.cost)
      have value : (if p.isMaximize then -cost[j] else cost[j]) =
          .finite (SparseRow.weigh m.matrix.rows ys j + ds[j]) := by
        cases hm : p.isMaximize <;> simpa [hm, hj, hd] using entry
      rw [eq_inSense value, List.getElem_mapIdx, List.getElem_map, weigh_inSense, inSense_add,
        matrix]
  · refine List.forall₂_map_right_iff.mpr (List.forall₂_iff_zip.mpr ⟨rowCount.symm, ?_⟩)
    intro c y hcy
    obtain ⟨i, hi⟩ := List.getElem?_of_mem hcy
    obtain ⟨hc, hy⟩ := List.getElem?_zip_eq_some.mp hi
    obtain ⟨row, range, hrow, hrange, rowDenotes, -⟩ := denotes.row i c hc
    refine constraintDual_of_rowDual rowDenotes reads (duals.rows i row range y ?_ ?_ hy)
    · rw [matrix, hrow]
    · rw [Ranged.getElem?_ranges, rowLower, rowUpper]
      simp [hrange]
  · refine List.forall₂_map_right_iff.mpr (List.forall₂_iff_zip.mpr ⟨columnCount.symm, ?_⟩)
    intro v d hvd nonzero
    obtain ⟨j, hj⟩ := List.getElem?_of_mem hvd
    obtain ⟨hv, hd⟩ := List.getElem?_zip_eq_some.mp hj
    have mem := List.mem_of_getElem? hv
    obtain ⟨lo, up, hlo, hup, lowerSide, upperSide⟩ :=
      Declarations.exists_sides finite.bounds hcolumns hv (real v mem)
    refine atBound_of_side (finite.bounds v mem) lowerSide upperSide ?_
    rw [← reads.at_place h.distinct hv]
    exact duals.column j lo up d (lower ▸ hlo) (upper ▸ hup) hd fun zero =>
      nonzero (by rw [zero, inSense_zero])

end Problem

end Milp
