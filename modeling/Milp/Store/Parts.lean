import Milp.Store.Basic

/-!
# Parts

The parts of a value that can be gone through in one step, in order.
-/

namespace Milp

def SparseArray.ofRows (m : SparseArray) (rows : List (List (Nat × Float))) : SparseArray :=
  { m with rows := rows, id := none }

namespace Store

def characters (t : String) : List Value :=
  t.toList.map fun c => .text (String.singleton c)

/-- The parts of a value that can be gone through in one step. -/
def parts? (s : Store) : Value → Option (List Value)
  | .text t => some (characters t)
  | .tuple xs => some xs
  | .term v c => some [v, c]
  | .array g => some (Value.gridParts g)
  | .sparse m => some (m.rows.map fun row => .sparse (m.ofRows [row]))
  | .object ⟨.list, id⟩ => some (s.list id)
  | .object ⟨.dict, id⟩ => some (s.dict id).keys
  | .object ⟨.linear, id⟩ => some ((s.linear id).terms.map Term.toValue)
  | _ => none

end Store

end Milp
