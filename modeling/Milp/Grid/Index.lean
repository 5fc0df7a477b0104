import Milp.Fault

/-!
# Places in a grid

A key for a grid names a place along each axis, or several places at once, or the places that flags
say so of; it may add axes, and axes that it does not mention are taken whole. Keys with several
places stand for as many points as their common shape has. What a key selects is a shape with the
places of its numbers in the order in which the grid holds them.
-/

namespace Milp.Grid

/-- A part of a key. -/
inductive KeyItem where
  | newAxis
  /-- A place, counted from the end if it is negative. -/
  | place (n : Int)
  | places (shape : Shape) (ns : List Int)
  /-- A truth value for each place in a shape; a single one adds an axis. -/
  | flags (shape : Shape) (bs : List Bool)
  deriving Repr

/-- What a key selects. -/
structure Selection where
  shape : Shape
  places : List Nat
  deriving Repr

namespace KeyItem

/-- How many axes a part of a key stands for. -/
def axes : KeyItem → Nat
  | newAxis => 0
  | place _ => 1
  | places _ _ => 1
  | flags shape _ => shape.length

def isSeveral : KeyItem → Bool
  | places _ _ => true
  | flags _ _ => true
  | _ => false

/-- The places in a shape, each as a list of its coordinates. -/
def coordinates : Shape → List (List Nat)
  | [] => [[]]
  | n :: s => (List.range n).flatMap fun i => (coordinates s).map (i :: ·)

/-- The lengths of flags are those of the axes they stand for. -/
def checkLengths : (axis : Nat) → (shape lengths : Shape) → Except Fault Unit
  | axis, n :: s, m :: t =>
    if n = m then checkLengths (axis + 1) s t else .error (.flagCount axis n m)
  | _, _, _ => .ok ()

end KeyItem

/-- Several places along an axis, in a shape. The axis is one of the grid, or none. -/
structure Pointer where
  axis : Option Nat
  shape : Shape
  ns : List Int

/-- A part of what is selected, in order: a new axis, all places along an axis, or places. -/
inductive Part where
  | newAxis
  | all (axis : Nat)
  | points (ps : List Pointer)

def partsFrom : (axis : Nat) → List KeyItem → List Part
  | _, [] => []
  | axis, .newAxis :: ks => .newAxis :: partsFrom axis ks
  | axis, .place n :: ks => .points [⟨some axis, [], [n]⟩] :: partsFrom (axis + 1) ks
  | axis, .places shape ns :: ks =>
    .points [⟨some axis, shape, ns⟩] :: partsFrom (axis + 1) ks
  | axis, .flags shape bs :: ks =>
    let points := ((KeyItem.coordinates shape).zip bs).filterMap fun e =>
      if e.2 then some e.1 else none
    let count := points.length
    let pointers := if shape.isEmpty then [Pointer.mk none [count] (List.replicate count 0)]
      else (List.range shape.length).map fun d =>
        ⟨some (axis + d), [count], points.map fun p => (p.getD d 0 : Int)⟩
    .points pointers :: partsFrom (axis + shape.length) ks

/-- A place along an axis, counted from the end if it is negative. -/
def placeAlong (shape : Shape) (axis : Nat) (n : Int) : Except Fault Nat :=
  let size := shape.getD axis 0
  let i := if n < 0 then n + size else n
  if 0 ≤ i ∧ i < size then .ok i.toNat else .error (.placeOutOfRange n axis size)

/-- How far from the start the places of a pointer stand, in a common shape. -/
def Pointer.offsets (shape common : Shape) (p : Pointer) : Except Fault (List Nat) := do
  match p.axis with
  | none => return (Shape.stretch p.shape common p.ns).map fun _ => 0
  | some axis =>
    let stride := (Shape.strides shape).getD axis 0
    let is ← p.ns.mapM (placeAlong shape axis)
    return (Shape.stretch p.shape common is).map (· * stride)

def outerSum (xs ys : List Nat) : List Nat :=
  xs.flatMap fun x => ys.map fun y => x + y

/-- The shape of all pointers together, with how far from the start their points stand. -/
def points (shape : Shape) (ps : List Pointer) : Except Fault Selection := do
  match Shape.commonOf? (ps.map (·.shape)) with
  | none => throw (.misfit (.keys (ps.map (·.shape))))
  | some common =>
    let offsets ← ps.mapM (Pointer.offsets shape common)
    let sum := offsets.foldl (fun xs ys => List.zipWith (· + ·) xs ys)
      (List.replicate (Shape.size common) 0)
    return ⟨common, sum⟩

/-- What a part that is not made of points selects. -/
def Part.plain (shape : Shape) : Part → Selection
  | newAxis => ⟨[1], [0]⟩
  | all axis =>
    let stride := (Shape.strides shape).getD axis 0
    let n := shape.getD axis 0
    ⟨[n], (List.range n).map (· * stride)⟩
  | points _ => ⟨[], [0]⟩

def Part.isPoints : Part → Bool
  | points _ => true
  | _ => false

def Part.pointers : Part → List Pointer
  | points ps => ps
  | _ => []

/-- Two selections, the places of the second for each of the first. -/
def Selection.and (a b : Selection) : Selection :=
  ⟨a.shape ++ b.shape, outerSum a.places b.places⟩

def Selection.join (xs : List Selection) : Selection :=
  xs.foldl Selection.and ⟨[], [0]⟩

/-- What parts select. Points stand together: where they do if no other part comes between them,
and in front of all else otherwise. -/
def selectParts (shape : Shape) (parts : List Part) : Except Fault Selection := do
  let before := parts.takeWhile fun p => !p.isPoints
  let rest := parts.dropWhile fun p => !p.isPoints
  let after := rest.dropWhile Part.isPoints
  let plain (ps : List Part) : List Selection :=
    (ps.filter fun p => !p.isPoints).map (Part.plain shape)
  let block ← points shape (parts.flatMap Part.pointers)
  if after.any Part.isPoints then return Selection.join (block :: plain parts)
  else return Selection.join (plain before ++ [block] ++ plain after)

/-- What single places select, each by itself. -/
def selectPlaces (shape : Shape) (parts : List Part) : Except Fault Selection := do
  let selections ← parts.mapM fun p => match p with
    | .points ps => points shape ps
    | p => .ok (p.plain shape)
  return Selection.join selections

/-- The flags of a key fit the axes they stand for. -/
def checkFlags (shape : Shape) : (axis : Nat) → List KeyItem → Except Fault Unit
  | _, [] => .ok ()
  | axis, .flags lengths _ :: ks => do
    KeyItem.checkLengths axis (shape.drop axis) lengths
    checkFlags shape (axis + lengths.length) ks
  | axis, k :: ks => checkFlags shape (axis + k.axes) ks

def select (shape : Shape) (key : List KeyItem) : Except Fault Selection := do
  let used := (key.map KeyItem.axes).foldl (· + ·) 0
  if shape.length < used then throw (.tooManyIndices shape.length used)
  checkFlags shape 0 key
  let several := key.any KeyItem.isSeveral
  let rest := ((List.range shape.length).drop used).map Part.all
  let parts := partsFrom 0 key ++ rest
  if several then selectParts shape parts else selectPlaces shape parts

/-- The numbers that are selected. -/
def Selection.grid (g : Grid) (x : Selection) : Grid :=
  ⟨g.kind, x.shape, x.places.filterMap fun i => g.entries[i]?, none⟩

/-- The part of a grid under a key; a key without parts gives the grid itself. -/
def item (g : Grid) (key : List KeyItem) : Except Fault Grid := do
  if key.isEmpty then return g
  return (← select g.shape key).grid g

end Milp.Grid
