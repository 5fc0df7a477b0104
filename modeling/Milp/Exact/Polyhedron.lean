import Milp.Encoding.Rows

/-!
# Polyhedra

A polyhedron is given by halfspaces over the rational numbers. Its vertices are found by solving
every choice of as many equations as there are columns; nothing is rounded.
-/

namespace Milp.Exact

/-! ## Halfspaces -/

/-- The product of two vectors. -/
def dot (xs ys : List Rat) : Rat :=
  (List.zipWith (· * ·) xs ys).foldl (· + ·) 0

/-- The points whose product with the normal is at most the bound. -/
structure Halfspace where
  normal : List Rat
  bound : Rat
  deriving Repr, DecidableEq

namespace Halfspace

/-- The point lies in the halfspace. -/
def contains (h : Halfspace) (x : List Rat) : Bool :=
  dot h.normal x ≤ h.bound

/-- A halfspace without points. -/
def impossible : Halfspace := ⟨[], -1⟩

/-- The points whose product with a normal is at most a number. -/
def below (normal : List Rat) : Extended → List Halfspace
  | .finite u => [⟨normal, u⟩]
  | .posInf => []
  | _ => [impossible]

/-- The points whose product with a normal is at least a number. -/
def above (normal : List Rat) (x : Extended) : List Halfspace :=
  below (normal.map fun a => -a) (-x)

/-- The points whose product with a normal lies in a range. -/
def ofRange (normal : List Rat) (r : Range Extended) : List Halfspace :=
  above normal r.lower ++ below normal r.upper

end Halfspace

/-! ## Systems of equations -/

/-- The first row that does not start with zero, with the other rows. -/
def pivot? : List (List Rat) → Option (List Rat × List (List Rat))
  | [] => none
  | row :: rows =>
    if row.headD 0 = 0 then (pivot? rows).map fun (p, others) => (p, row :: others)
    else some (row, rows)

def clearHead (pivot row : List Rat) : List Rat :=
  List.zipWith (fun a b => a - row.headD 0 * b) row.tail pivot

/-- The solution of a system, if it has exactly one. A row holds the coefficients of the unknowns
and then the right-hand side. -/
def solve? : (unknowns : Nat) → List (List Rat) → Option (List Rat)
  | 0, _ => some []
  | unknowns + 1, rows => do
    let (row, others) ← pivot? rows
    let pivot := row.tail.map (· / row.headD 0)
    let xs ← solve? unknowns (others.map (clearHead pivot))
    return -dot pivot (xs ++ [-1]) :: xs

/-! ## Vertices -/

/-- The sublists of a length. -/
def choose {α : Type} : Nat → List α → List (List α)
  | 0, _ => [[]]
  | _ + 1, [] => []
  | n + 1, x :: xs => (choose n xs).map (x :: ·) ++ choose (n + 1) xs

/-- The point lies in every halfspace. -/
def feasible (hs : List Halfspace) (x : List Rat) : Bool :=
  hs.all (·.contains x)

/-- The vertices of a polyhedron of a dimension; a vertex may be listed several times. -/
def vertices (dimension : Nat) (hs : List Halfspace) : List (List Rat) :=
  (choose dimension hs).filterMap fun chosen => do
    let x ← solve? dimension (chosen.map fun h => h.normal ++ [h.bound])
    if feasible hs x then some x else none

end Milp.Exact
