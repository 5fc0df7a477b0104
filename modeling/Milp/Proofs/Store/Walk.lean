import Milp.Store.Evaluate
import Milp.Store.Linear

/-!
# Walks do not look at problems and solvers

What a value gives when it is gone through, what it holds at a place, and what an expression is worth
stay the same while problems and solvers change.
-/

namespace Milp.Store

variable (s : Store) (ps : List ProblemObject) (ss : List SolverObject)

theorem root_others (depth : Nat) (v : Value) :
    root depth { s with problems := ps, solvers := ss } v = root depth s v := by
  induction depth generalizing v with
  | zero => rfl
  | succ depth ih =>
      unfold root
      split
      · exact ih _
      · rfl

theorem measured_others (depth : Nat) (v : Value) :
    measured depth { s with problems := ps, solvers := ss } v = measured depth s v := by
  induction depth generalizing v with
  | zero => rfl
  | succ depth ih =>
      unfold measured
      split
      · exact ih _
      · rfl

theorem length_others (v : Value) :
    ({ s with problems := ps, solvers := ss } : Store).length v = s.length v := by
  unfold length
  rw [measured_others]
  rfl

/-! ## Places -/

theorem nested_others (depth : Nat) (v : Value) :
    ({ s with problems := ps, solvers := ss } : Store).nested depth v = s.nested depth v := by
  induction depth generalizing v with
  | zero => rfl
  | succ depth ih =>
      have parts : ({ s with problems := ps, solvers := ss } : Store).parts? = s.parts? := rfl
      have rows := funext ih
      unfold nested
      simp only [parts, rows]

theorem spread_others (v : Value) :
    ({ s with problems := ps, solvers := ss } : Store).spread v = s.spread v := by
  unfold spread
  simp only [nested_others]

theorem keyItem_others (k : Value) :
    ({ s with problems := ps, solvers := ss } : Store).keyItem k = s.keyItem k := by
  unfold keyItem
  simp only [spread_others]

theorem keyItems_others (k : Value) :
    ({ s with problems := ps, solvers := ss } : Store).keyItems k = s.keyItems k := by
  have items := funext (keyItem_others s ps ss)
  unfold keyItems
  simp only [items]

theorem itemAt_others (v k : Value) :
    ({ s with problems := ps, solvers := ss } : Store).itemAt v k = s.itemAt v k := by
  unfold itemAt
  rw [root_others]
  simp only [gridPart, scalarPart, keyItems_others]
  rfl

/-! ## Parts in order -/

theorem countedParts_others (v : Value) (limit next : Nat) :
    ({ s with problems := ps, solvers := ss } : Store).countedParts v limit next =
      s.countedParts v limit next := by
  induction limit generalizing next with
  | zero => rfl
  | succ limit ih =>
      unfold countedParts
      rw [itemAt_others]
      split
      · rw [ih]
      · rfl

theorem walk_others (v : Value) :
    ({ s with problems := ps, solvers := ss } : Store).walk v = s.walk v := by
  unfold walk
  have parts : ({ s with problems := ps, solvers := ss } : Store).parts? v = s.parts? v := rfl
  rw [parts]
  split
  · rfl
  · split
    · rw [root_others, countedParts_others]
      simp only [length_others]
    · rw [length_others]

theorem items_others (v : Value) :
    ({ s with problems := ps, solvers := ss } : Store).items v = s.items v := by
  unfold items
  rw [walk_others]

/-! ## Values -/

theorem isTrue_others (v : Value) :
    ({ s with problems := ps, solvers := ss } : Store).isTrue v = s.isTrue v := by
  unfold isTrue
  simp only [length_others]
  rfl

theorem evaluate_others (expression assignment ignoreMissing : Value) :
    ({ s with problems := ps, solvers := ss } : Store).evaluate expression assignment
      ignoreMissing = s.evaluate expression assignment ignoreMissing := by
  have assigned : ({ s with problems := ps, solvers := ss } : Store).assigned? (K := Float)
      assignment = s.assigned? assignment := by
    funext var
    unfold assigned?
    rw [itemAt_others]
  unfold evaluate
  simp only [assigned, isTrue_others]
  rfl

end Milp.Store
