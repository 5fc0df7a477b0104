import Milp.Encoding.Columns
import Milp.Grid.Index
import Milp.Store.Spread

/-!
# Going through values

Which parts a value has, in which order they come, and what stands at a place or under a key. A
result passes all of this on to its values, whatever they are.
-/

namespace Milp.Store

/-! ## Places -/

/-- Places in a sequence are counted by whole numbers of this size at most. -/
def placeLimit : Int := 9223372036854775807

def part (sequence : String) (xs : List Value) (k : Value) : Except Fault Value :=
  match k.toInt? with
  | none => .error (.badIndexKind sequence k.kindName)
  | some n =>
    if placeLimit < n || n < -placeLimit - 1 then .error .indexTooLarge
    else match (place xs.length n).bind fun i => xs[i]? with
      | some x => .ok x
      | none => .error (.indexOutOfRange sequence)

/-- A part of a key for an array. What is no place itself is taken as an array of places or of truth
values. -/
def keyItem (s : Store) (k : Value) : Except Fault Grid.KeyItem := do
  let fits (n : Int) : Bool := -placeLimit - 1 ≤ n && n ≤ placeLimit
  match k, k.truth?, k.toInt? with
  | .none, _, _ => return .newAxis
  | _, some b, _ => return .flags [] [b]
  | _, none, some n => if fits n then return .place n else throw .arrayIndexKind
  | k, none, none =>
    let x ← s.spread k
    let bare := match k with
      | .array _ => false
      | _ => true
    if x.leaves.isEmpty && bare then return .places x.shape []
    match x.leaves.mapM Value.truth?, x.leaves.mapM Value.flagOrInt? with
    | some (b :: bs), _ => return .flags x.shape (b :: bs)
    | _, some (n :: ns) =>
      if (n :: ns).all fits then return .places x.shape (n :: ns) else throw .arrayIndexParts
    | _, _ =>
      match k, x.shape with
      | .array ⟨.flag, shape, _, _⟩, _ => return .flags shape []
      | .array ⟨.integer _, shape, _, _⟩, _ => return .places shape []
      | _, [] => throw .arrayIndexKind
      | _, _ => throw .arrayIndexParts

def keyItems (s : Store) (k : Value) : Except Fault (List Grid.KeyItem) :=
  match k with
  | .tuple ks => ks.mapM s.keyItem
  | .term v c => [v, c].mapM s.keyItem
  | k => do return [← s.keyItem k]

def gridPart (s : Store) (g : Grid) (k : Value) : Except Fault Value := do
  let key ← s.keyItems k
  if key.isEmpty then return .array { g with id := none }
  return .ofGrid (← g.item key)

/-- The places in an array of a length that a key selects. -/
def placesAt (s : Store) (length : Nat) (k : Value) : Except Fault (List Nat) := do
  let x ← Grid.select [length] (← s.keyItems k)
  return x.places.eraseDups

/-- The part of a number of fixed size under a key: the number is an array without axes. -/
def scalarPart (s : Store) (x : Scalar) (k : Value) : Except Fault Value :=
  match (s.keyItems k).bind fun key => Grid.item ⟨x.kind, [], [x], none⟩ key with
  | .ok g => .ok (.ofGrid g)
  | .error _ => .error .scalarIndex

/-- The place that a whole number is along a side of a matrix. -/
def matrixPlace (length : Nat) (k : Value) : Except Fault Nat :=
  match k.toInt? with
  | none => .error .matrixKey
  | some n =>
    match place length n with
    | some i => .ok i
    | none => .error (.matrixPlace n)

def matrixEntry (m : SparseArray) (row : List (Nat × Float)) (j : Nat) : Value :=
  let x := ((row.find? fun e => e.1 == j).map (·.2)).getD 0.0
  match m.kind with
  | .flag => .scalar (.flag (x != 0.0))
  | _ => .scalar (.double x)

/-- The part of a sparse matrix under a key: a row, or an entry. -/
def matrixPart (s : Store) (m : SparseArray) (k : Value) : Except Fault Value := do
  let row (k : Value) : Except Fault (List (Nat × Float)) := do
    return m.rows.getD (← matrixPlace m.rows.length k) []
  match k with
  | .tuple [i] => return .sparse (m.ofRows [← row i])
  | .tuple [i, j] =>
    let r ← row i
    return matrixEntry m r (← matrixPlace m.width j)
  | .tuple [] => return .sparse { m with id := none }
  | k =>
    match k.toInt?, k with
    | some _, k => return .sparse (m.ofRows [← row k])
    | none, .object ⟨.list, id⟩ => return .sparse (m.ofRows (← (s.list id).mapM row))
    | none, _ => throw .matrixKey

/-- What a result passes everything on to: the first of its values, of those of them, and so on,
that is not a result. -/
def root : (depth : Nat) → Store → Value → Except Fault Value
  | 0, _, _ => .error .tooDeep
  | depth + 1, s, v =>
    match v with
    | .object ⟨.result, id⟩ => root depth s (s.result id).primal
    | v => .ok v

/-- What a value holds under a key or at a place. -/
def itemAt (s : Store) (v k : Value) : Except Fault Value := do
  match ← root (s.results.length + 1) s v with
  | .text t => part "string" (characters t) k
  | .tuple xs => part "tuple" xs k
  | .term a c => part "tuple" [a, c] k
  | .array g => s.gridPart g k
  | .sparse m => s.matrixPart m k
  | .object ⟨.list, id⟩ => part "list" (s.list id) k
  | .object ⟨.dict, id⟩ => (s.dict id).require k
  | .object ⟨.linear, id⟩ => part "list" ((s.linear id).terms.map Term.toValue) k
  | .scalar x => s.scalarPart x k
  | .undefined .free _ => throw (.notSubscriptable "float")
  | .undefined .single _ => s.scalarPart (.single Binary64.notANumber) k
  | .undefined .double _ => s.scalarPart (.double Binary64.notANumber) k
  | .type t => throw (.typeNotSubscriptable t.name)
  | v => throw (.notSubscriptable v.kindName)

/-- Writes what a value holds under a key or at a place. -/
def setItem (v k x : Value) : Action Store Unit := do
  let s ← Action.read
  match v with
  | .object ⟨.dict, id⟩ =>
    .ofExcept k.checkKey
    changeDict id fun t => t.insert k x
  | .object ⟨.list, id⟩ =>
    match k.toInt? with
    | none => throw (.badIndexKind "list" k.kindName)
    | some n =>
      if placeLimit < n || n < -placeLimit - 1 then throw .indexTooLarge
      match place (s.list id).length n with
      | some i => changeList id fun xs => xs.set i x
      | none => throw (.indexOutOfRange "list assignment")
  | v => throw (.noItemAssignment v.kindName)

/-! ## Parts in order -/

/-- The side of a constraint whose length is that of the constraint. -/
def measured : (depth : Nat) → Store → Value → Except Fault Value
  | 0, _, _ => .error .tooDeep
  | depth + 1, s, v =>
    match v with
    | .object ⟨.constraint, id⟩ => measured depth s (s.constraint id).lhs
    | v => .ok v

def length (s : Store) (v : Value) : Except Fault Nat := do
  match ← measured (s.constraints.length + 1) s v with
  | .text t => return t.length
  | .tuple xs => return xs.length
  | .term _ _ => return 2
  | .array g => return g.length
  | .object ⟨.list, id⟩ => return (s.list id).length
  | .object ⟨.dict, id⟩ => return (s.dict id).size
  | .object ⟨.linear, id⟩ => return (s.linear id).size
  | .sparse _ => throw .matrixLength
  | v => throw (.noLength v.kindName)

/-- The parts at the places from a given one on, until there is none at a place. -/
def countedParts (s : Store) (v : Value) : (limit next : Nat) → Series Value
  | 0, _ => .broken .tooDeep (.error .tooDeep)
  | limit + 1, next =>
    match s.itemAt v (.int next) with
    | .ok x =>
      let rest := countedParts s v limit (next + 1)
      { rest with items := x :: rest.items }
    | .error f =>
      if f.className = "IndexError" then .ofList []
      else .broken f (.error (.noLength v.kindName))

/-- The parts of a value in order. A result is gone through by counting, which ends at the first
number that it has no value for. -/
def walk (s : Store) (v : Value) : Series Value :=
  match s.parts? v with
  | some xs => .ofList xs
  | none =>
    match v with
    | .object ⟨.result, _⟩ =>
      let size := (root (s.results.length + 1) s v).toOption.bind fun w =>
        (s.length w).toOption
      countedParts s v (size.getD 0 + 1) 0
    | v => .broken (.notIterable v.kindName) (s.length v)

def items (s : Store) (v : Value) : Except Fault (List Value) :=
  (s.walk v).toList ""

/-! ## Pairs -/

def unpack (s : Store) (v : Value) : Except Fault (Value × Value) :=
  match s.parts? v, v with
  | some [a, b], _ => .ok (a, b)
  | some xs, _ => if xs.length < 2 then .error (.tooFewParts xs.length) else .error .tooManyParts
  | none, .object ⟨.result, _⟩ => do
    match ← s.items v with
    | [a, b] => return (a, b)
    | xs => if xs.length < 2 then throw (.tooFewParts xs.length) else throw .tooManyParts
  | none, v => .error (.notUnpackable v.kindName)

/-- The terms that values are as pairs, up to the first that is none. -/
def pairsOf (s : Store) : List Value → List Term × Option Fault
  | [] => ([], none)
  | v :: vs =>
    match s.unpack v with
    | .error f => ([], some f)
    | .ok (a, b) =>
      let (ts, f) := pairsOf s vs
      (⟨a, b⟩ :: ts, f)

def pairs (s : Store) (v : Value) : Series Term :=
  let w := s.walk v
  let length := s.length v
  match pairsOf s w.items with
  | (ts, some f) => ⟨ts, .broken f, length⟩
  | (ts, none) => ⟨ts, w.ending, length⟩

def termOf (s : Store) : Value → Except Fault Term
  | .term v c => .ok ⟨v, c⟩
  | v =>
    match s.parts? v, v with
    | some parts, _ => Term.ofParts parts
    | none, .object ⟨.result, _⟩ => do Term.ofParts (← s.items v)
    | none, v => .error (.termNotIterable v.kindName)

/-! ## Dictionaries -/

/-- The entry that a part of a value is, given its position. -/
def entryOf (s : Store) (v : Value) (position : Nat) : Except Fault (Value × Value) := do
  let w := s.walk v
  match w.ending with
  | .broken f =>
    throw (if f.className = "TypeError" then .entryKind position else f)
  | _ =>
    match w.items with
    | [a, b] => return (a, b)
    | xs => throw (.entryLength position xs.length)

/-- Writes the entries that values are over those of a dictionary. -/
def enterAll (s : Store) : (position : Nat) → List Value → Table Value → Except Fault (Table Value)
  | _, [], t => .ok t
  | position, v :: vs, t => do
    let (a, b) ← s.entryOf v position
    a.checkKey
    enterAll s (position + 1) vs (t.insert a b)

/-- The dictionary that a value can be made into: that of the same entries, or that of the entries
that its parts are. -/
def toTable (s : Store) (v : Value) : Except Fault (Table Value) :=
  match v with
  | .object ⟨.dict, id⟩ => .ok (s.dict id)
  | v => do
    let w := s.walk v
    let t ← s.enterAll 0 w.items .empty
    w.finish ""
    return t

end Milp.Store
