import Milp.Proofs.Problem.Denotation
import Milp.Proofs.Solution

/-!
# Best solutions

What it means for the numbers of variables, and for a solution that holds them, that a problem is
solved.
-/

namespace Milp.Problem

/-- With these numbers for the variables all constraints are satisfied, and every variable may take
its number. -/
structure Feasible (p : Problem) (x : Key → Rat) : Prop where
  constraints : ∀ c ∈ p.constraints.items, Satisfies c x
  numbers : ∀ v ∈ p.variableList, p.Admits v (x v.key)

/-- What is to be made small where variables have numbers. -/
def lossAt (p : Problem) (x : Key → Rat) : Rat :=
  if p.isMaximize then -p.objectiveAt x else p.objectiveAt x

/-- A solution `Holds` the numbers of an assignment that is `Feasible`, and nothing feasible is
better. The objective evaluates to what it is worth there. -/
structure Solves (p : Problem) (s : Solution Extended) (x : Key → Rat) : Prop where
  holds : s.Holds p.toDeclarations x
  feasible : p.Feasible x
  best : ∀ y, p.Feasible y →
    if p.isMaximize then p.objectiveAt y ≤ p.objectiveAt x else p.objectiveAt x ≤ p.objectiveAt y
  evaluates : ∀ l : Linear, p.objective = some (.linear l) →
    ∃ n, s.evaluate l = .ok n ∧ n.Denotes (p.objectiveAt x)

/-- The objective can be evaluated at every solution that holds the numbers of the variables. -/
theorem WellFormed.exists_evaluate {p : Problem} (h : p.WellFormed) (finite : p.FiniteData)
    {s : Solution Extended} {x : Key → Rat} (holds : s.Holds p.toDeclarations x) {l : Linear}
    (hl : p.objective = some (.linear l)) :
    ∃ n, s.evaluate l = .ok n ∧ n.Denotes (p.objectiveAt x) := by
  obtain ⟨l', hl', registered⟩ := h.objective _ hl
  obtain rfl : l = l' := by simpa using hl'
  have costs := finite.costs _ hl
  rw [objectiveAt, hl]
  exact holds.evaluate h.distinct fun t ht => ⟨registered t ht, costs t ht⟩

theorem lossAt_le_iff {p : Problem} {x y : Key → Rat} :
    p.lossAt x ≤ p.lossAt y ↔
      if p.isMaximize then p.objectiveAt y ≤ p.objectiveAt x
      else p.objectiveAt x ≤ p.objectiveAt y := by
  unfold lossAt
  split
  · exact neg_le_neg_iff
  · exact Iff.rfl

end Milp.Problem
