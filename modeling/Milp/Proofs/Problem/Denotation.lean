import Milp.Proofs.Encoding.Matrix

/-!
# What the matrix form says

A problem says of numbers for its variables which constraints they satisfy, which variables may take
them, and what the objective is worth. The matrix form says the same of a point (`Denotes`).
-/

namespace Milp.Problem

/-- The variables of a problem are told apart, and everything in it is stated in terms of them. -/
structure WellFormed (p : Problem) : Prop where
  distinct : p.Distinct
  complete : p.constraints.ending = .complete
  length : ∃ n, p.constraints.length = .ok n
  constraints : ∀ c ∈ p.constraints.items,
    ∃ l : Linear, c.lhs = .linear l ∧ ∀ t ∈ l.terms, p.Registered t.var
  objective : ∀ e, p.objective = some e →
    ∃ l : Linear, e = .linear l ∧ ∀ t ∈ l.terms, p.Registered t.var

/-- All numbers in a problem are finite. -/
structure FiniteData (p : Problem) : Prop where
  coefficients : ∀ c ∈ p.constraints.items, ∀ t ∈ c.lhs.terms.items, t.coefficient.ReadsFinite
  sides : ∀ c ∈ p.constraints.items, c.rhs.ReadsFinite
  costs : ∀ e, p.objective = some e → ∀ t ∈ e.terms.items, t.coefficient.ReadsFinite
  bounds : ∀ v ∈ p.variableList, p.FiniteBounds v

def Satisfies (c : Constraint) (x : Key → Rat) : Prop :=
  c.relation.Holds (c.lhs.total x) c.rhs.toRat

theorem satisfies_of_items_eq_nil {c : Constraint} (empty : c.lhs.terms.items = [])
    (x : Key → Rat) : Satisfies c x ↔ c.relation.Holds 0 c.rhs.toRat := by
  rw [Satisfies, Expression.total, empty]
  rfl

/-- What the objective is worth where variables have numbers; nothing if there is none. -/
def objectiveAt (p : Problem) (x : Key → Rat) : Rat :=
  (p.objective.map (·.total x)).getD 0

/-- A matrix form says of every point what a problem says of the numbers that it holds (`Reads`). -/
structure Denotes (p : Problem) (rows : RangedRows Extended) (columns : Columns Extended)
    (cost : List Extended) : Prop where
  width : rows.matrix.width = p.index.size
  rowCount : rows.matrix.rows.length = p.constraints.items.length
  rangeCount : rows.ranges.length = p.constraints.items.length
  costCount : cost.length = p.index.size
  row : ∀ (i : Nat) (c : Constraint), p.constraints.items[i]? = some c →
    ∃ row range, rows.matrix.rows[i]? = some row ∧ rows.ranges[i]? = some range ∧
      p.toDeclarations.Denotes row range c ∧
      ∀ x q, p.Reads x q → (range.contains (row.dot q) = true ↔ Satisfies c x)
  columns : p.Shows columns
  cost : ∀ x q, p.Reads x q → costAt cost q = .finite (p.objectiveAt x)

/-- An objective with finite coefficients has costs, which are worth the same. -/
theorem WellFormed.exists_cost {p : Problem} (h : p.WellFormed)
    (finite : ∀ e, p.objective = some e → ∀ t ∈ e.terms.items, t.coefficient.ReadsFinite) :
    ∃ cost : List Extended, p.cost p.index = .ok cost ∧ cost.length = p.index.size ∧
      ∀ x q, p.Reads x q → costAt cost q = .finite (p.objectiveAt x) := by
  refine Milp.exists_cost h.distinct (fun e he => ?_) fun e he t ht => ?_
  · obtain ⟨l, hl, -⟩ := h.objective e he
    exact ⟨l, hl⟩
  · obtain ⟨l, rfl, registered⟩ := h.objective e he
    exact ⟨registered t ht, finite _ he t ht⟩

/-- A problem that is `WellFormed` with `FiniteData` has a matrix form, which `Denotes` it. -/
theorem WellFormed.exists_matrixForm {p : Problem} (h : p.WellFormed) (finite : p.FiniteData) :
    ∃ rows columns cost, p.matrix p.index = .ok rows ∧ p.columns p.index = .ok columns ∧
      p.cost p.index = .ok cost ∧ p.Denotes rows columns cost := by
  obtain ⟨n, length⟩ := h.length
  have enters : ∀ c ∈ p.constraints.items, p.EntersRow c := by
    intro c hc
    obtain ⟨l, hl, registered⟩ := h.constraints c hc
    refine ⟨⟨l, hl⟩, fun t ht => ⟨?_, finite.coefficients c hc t ht⟩, finite.sides c hc⟩
    exact registered t (by simpa [hl] using ht)
  obtain ⟨m, hm, width, rowCount, rangeCount, row⟩ :=
    exists_matrix h.distinct h.complete length enters
  obtain ⟨cs, hcs, columns⟩ := Declarations.exists_columns h.distinct finite.bounds
  obtain ⟨cost, hcost, costCount, value⟩ := h.exists_cost finite.costs
  refine ⟨m, cs, cost, hm, hcs, hcost, ⟨width, rowCount, rangeCount, costCount, ?_, columns, value⟩⟩
  intro i c hc
  obtain ⟨r, range, hr, hrange, denotes⟩ := row i c hc
  exact ⟨r, range, hr, hrange, denotes, fun x q reads => denotes.contains_iff reads⟩

end Milp.Problem
