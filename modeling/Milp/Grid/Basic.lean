import Milp.Scalar

/-!
# Grids

Numbers of one kind in rows, rows of rows, and so on, all rows at one depth being equally long. The
lengths make up the shape, and the numbers stand in the order in which the last place changes
fastest. Two shapes that agree from the end, where a length of one agrees with all, are stretched to
a common one.
-/

namespace Milp

/-- The lengths of the rows of a grid, from the outermost to the innermost. -/
abbrev Shape := List Nat

namespace Shape

def size (s : Shape) : Nat :=
  s.foldr (· * ·) 1

def text (s : Shape) : String :=
  match s with
  | [n] => "(" ++ Nat.repr n ++ ",)"
  | ns => "(" ++ ", ".intercalate (ns.map Nat.repr) ++ ")"

/-- The common length of two rows, if there is one. -/
def agree? (n m : Nat) : Option Nat :=
  if n = m then some n else if n = 1 then some m else if m = 1 then some n else none

/-- The common shape of two, read from the end. -/
def agreeBackward? : (s t : List Nat) → Option (List Nat)
  | [], t => some t
  | s, [] => some s
  | n :: s, m :: t => do return (← agree? n m) :: (← agreeBackward? s t)

/-- The common shape of two shapes, if there is one. -/
def common? (s t : Shape) : Option Shape :=
  (agreeBackward? s.reverse t.reverse).map List.reverse

/-- The common shape of shapes, if there is one. -/
def commonOf? (shapes : List Shape) : Option Shape :=
  shapes.foldlM common? []

/-- A shape with so many lengths, those added in front being one. -/
def padded (depth : Nat) (s : Shape) : Shape :=
  List.replicate (depth - s.length) 1 ++ s

def chunks {α : Type} (count length : Nat) (xs : List α) : List (List α) :=
  (List.range count).map fun i => (xs.drop (i * length)).take length

def stretchTo {α : Type} : (source target : Shape) → List α → List α
  | n :: s, m :: t, xs =>
    let rows := (chunks n (size s) xs).map (stretchTo s t)
    if n = m then rows.flatten else (List.replicate m rows.flatten).flatten
  | _, _, xs => xs

def stretch {α : Type} (source target : Shape) (xs : List α) : List α :=
  stretchTo (padded target.length source) target xs

/-- How far apart the parts along each axis stand. -/
def strides : Shape → List Nat
  | [] => []
  | _ :: s => size s :: strides s

@[simp] theorem size_nil : size [] = 1 := rfl

@[simp] theorem size_cons (n : Nat) (s : Shape) : size (n :: s) = n * size s := rfl

@[simp] theorem common?_nil (s : Shape) : common? [] s = some s := by
  simp [common?, agreeBackward?]

end Shape

/-- A grid of numbers of one kind. -/
structure Grid where
  kind : ScalarKind
  shape : Shape
  entries : List Scalar
  /-- What tells the grid from others with the same numbers, once that has been settled. -/
  id : Option Nat
  deriving Repr, Inhabited

/-- A sparse matrix: the entries of each row by column. -/
structure SparseArray where
  width : Nat
  rows : List (List (Nat × Float))
  kind : ScalarKind
  /-- What tells the matrix from others with the same entries, once that has been settled. -/
  id : Option Nat
  deriving Repr, Inhabited

namespace Grid

def vector (kind : ScalarKind) (xs : List Scalar) : Grid :=
  ⟨kind, [xs.length], xs, none⟩

def ofDoubles (xs : List Float) : Grid :=
  vector .double (xs.map .double)

def ofFlags (shape : Shape) (bs : List Bool) : Grid :=
  ⟨.flag, shape, bs.map .flag, none⟩

/-- The number of rows along the first axis. -/
def length (g : Grid) : Nat :=
  g.shape.headD 0

/-- The rows along the first axis. -/
def rows (g : Grid) : List Grid :=
  let rest := g.shape.tail
  (Shape.chunks g.length (Shape.size rest) g.entries).map fun xs => ⟨g.kind, rest, xs, none⟩

def stretched (g : Grid) (target : Shape) : List Scalar :=
  Shape.stretch g.shape target g.entries

end Grid

end Milp
