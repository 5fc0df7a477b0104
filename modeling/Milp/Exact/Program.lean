import Milp.Exact.Polyhedron

/-!
# Solving small programs exactly

A program with integral and continuous columns is solved over the rational numbers. The halfspaces
confine every column to an interval; integral columns are gone through point by point, and for each
point the vertices of what is left are compared. The intervals tell beforehand whether this reaches
an optimum: integral columns need both ends, continuous ones at least one, and no way to infinity
may lower the cost.
-/

namespace Milp.Exact

/-- A cost to be made small over the points of a polyhedron whose integral columns are whole. -/
structure Program where
  halfspaces : List Halfspace
  integral : List Bool
  cost : List Rat
  deriving Repr

/-- What is known of a program. -/
inductive Verdict where
  | infeasible
  | unbounded
  | optimal (point : List Rat)
  /-- The program is not of the kind that can be solved here. -/
  | undecided
  deriving Repr

/-! ## Intervals -/

/-- An interval, open ends being absent. -/
structure Interval where
  lower : Option Rat
  upper : Option Rat
  deriving Repr, DecidableEq

namespace Interval

/-- All numbers. -/
def everything : Interval := ⟨none, none⟩

/-- The larger of two lower ends. -/
def raise (i : Interval) (x : Rat) : Interval :=
  { i with lower := some (match i.lower with
      | some l => if l < x then x else l
      | none => x) }

/-- The smaller of two upper ends. -/
def cap (i : Interval) (x : Rat) : Interval :=
  { i with upper := some (match i.upper with
      | some u => if x < u then x else u
      | none => x) }

/-- The least value of a multiple of a number in the interval, if there is one. -/
def leastMultiple (i : Interval) (a : Rat) : Option Rat :=
  if a = 0 then some 0
  else if 0 < a then i.lower.map (a * ·)
  else i.upper.map (a * ·)

def whole (i : Interval) : Interval :=
  ⟨i.lower.map fun x => (x.ceil : Rat), i.upper.map fun x => (x.floor : Rat)⟩

/-- The whole numbers of an interval with two ends. -/
def points (i : Interval) : List Rat :=
  match i.lower, i.upper with
  | some l, some u =>
    (List.range (u.floor + 1 - l.ceil).toNat).map fun (k : Nat) =>
      ((l.ceil + (k : Int) : Int) : Rat)
  | _, _ => []

def isBounded (i : Interval) : Bool := i.lower.isSome && i.upper.isSome

def isPointed (i : Interval) : Bool := i.lower.isSome || i.upper.isSome

end Interval

/-- What a halfspace leaves for the multiple of one column, given the intervals of the others. -/
def slack (h : Halfspace) (box : List Interval) (column : Nat) : Option Rat := do
  let others ← ((h.normal.zip box).zipIdx.filter fun e => e.2 != column).mapM fun e =>
    e.1.2.leastMultiple e.1.1
  return h.bound - others.foldl (· + ·) 0

/-- The interval of a column, narrowed by a halfspace. -/
def narrow (box : List Interval) (column : Nat) (i : Interval) (h : Halfspace) : Interval :=
  let a := h.normal.getD column 0
  match slack h box column with
  | none => i
  | some rest =>
    if a = 0 then i
    else if 0 < a then i.cap (rest / a)
    else i.raise (rest / a)

namespace Program

/-- The number of columns. -/
def width (p : Program) : Nat := p.cost.length

/-- One round of narrowing all intervals. -/
def tighten (p : Program) (box : List Interval) : List Interval :=
  box.zipIdx.map fun (i, j) =>
    let i := p.halfspaces.foldl (narrow box j) i
    if p.integral.getD j false then i.whole else i

/-- The intervals after a number of rounds. -/
def boxAfter (p : Program) : Nat → List Interval
  | 0 => List.replicate p.width .everything
  | rounds + 1 => p.tighten (p.boxAfter rounds)

/-- The intervals to which the halfspaces confine the columns. -/
def box (p : Program) : List Interval := p.boxAfter (p.width + 1)

/-- The intervals are such that every optimum is at a vertex over a whole point. -/
def isReachable (p : Program) (box : List Interval) : Bool :=
  (p.integral.zip box).all fun (whole, i) => if whole then i.isBounded else i.isPointed

/-! ## Points -/

/-- The choices for the integral columns: one number of the interval for each of them, and nothing
for the others. -/
def partialPoints : List (Bool × Interval) → List (List (Option Rat))
  | [] => [[]]
  | (true, i) :: rest =>
    let tails := partialPoints rest
    i.points.flatMap fun x => tails.map (some x :: ·)
  | (false, _) :: rest => (partialPoints rest).map (none :: ·)

/-- The entries of the columns that are not chosen. -/
def openPart (xs : List Rat) (choice : List (Option Rat)) : List Rat :=
  (xs.zip choice).filterMap fun (x, c) => if c.isSome then none else some x

/-- The halfspace that is left for the columns that are not chosen. -/
def slice (choice : List (Option Rat)) (h : Halfspace) : Halfspace :=
  ⟨openPart h.normal choice, h.bound - dot h.normal (choice.map (·.getD 0))⟩

/-- The point of the chosen columns and the others. -/
def assemble : List (Option Rat) → List Rat → List Rat
  | [], _ => []
  | some x :: choice, ys => x :: assemble choice ys
  | none :: choice, y :: ys => y :: assemble choice ys
  | none :: choice, [] => 0 :: assemble choice []

/-- The points among which an optimum is, if there is one. -/
def candidates (p : Program) (box : List Interval) : List (List Rat) :=
  (partialPoints (p.integral.zip box)).flatMap fun choice =>
    let dimension := (choice.filter (·.isNone)).length
    (vertices dimension (p.halfspaces.map (slice choice))).map (assemble choice)

/-- The better of two points, the first if they are equally good. -/
def better (p : Program) (best : Option (List Rat)) (x : List Rat) : Option (List Rat) :=
  match best with
  | none => some x
  | some b => if dot p.cost x < dot p.cost b then some x else best

/-- The directions in which a polyhedron goes to infinity, cut off at one in every column. -/
def recession (p : Program) : Program :=
  let unit (j : Nat) (a : Rat) := (List.range p.width).map fun k => if k = j then a else 0
  let cone := p.halfspaces.map fun h => { h with bound := 0 }
  let cube := (List.range p.width).flatMap fun j => [⟨unit j 1, 1⟩, ⟨unit j (-1), 1⟩]
  { p with halfspaces := cone ++ cube, integral := p.integral.map fun _ => false }

/-- Some direction to infinity lowers the cost, the integral columns being confined. -/
def descends (p : Program) : Bool :=
  let choice := p.integral.map fun whole => if whole then some 0 else none
  let cone := p.recession
  let dimension := (choice.filter (·.isNone)).length
  (vertices dimension (cone.halfspaces.map (slice choice))).any fun y =>
    dot p.cost (assemble choice y) < 0

def solve (p : Program) : Verdict :=
  let box := p.box
  if !p.isReachable box then .undecided
  else
    match (p.candidates box).foldl p.better none with
    | none => .infeasible
    | some x => if p.descends then .unbounded else .optimal x

end Program

end Milp.Exact
