import Milp.Store.Walk
import Milp.Value.Comparison

/-!
# Equality

Two values are equal when they are equal as numbers or texts, or when their parts are. Parts count
as equal also when they are one and the same, which matters for undefined numbers. A number of fixed
size, an array or a matrix is compared with each number of another, and the answers are an array or
a matrix.
-/

namespace Milp.Store

/-- The two values are one and the same. -/
def identical : Value → Value → Bool
  | .undefined f i, .undefined g j => f == g && i == j
  | .object a, .object b => a == b
  | .array g, .array h => g.id.isSome && g.id == h.id
  | .sparse m, .sparse n => m.id.isSome && m.id == n.id
  | .none, .none => true
  | _, _ => false

/-- The parts of a value that is told by them in order, apart from arrays. -/
def sequence? : Value → Option (List Value)
  | .tuple xs => some xs
  | .term v c => some [v, c]
  | _ => none

def outcomeFields (o : OutcomeObject) : List Value :=
  [o.status, o.assignment, o.objectiveValue, o.history, o.iterations]

/-- The parts that decide whether two values of one sort are equal, if parts do. -/
def comparable? (s : Store) (v w : Value) : Option (List Value × List Value) :=
  match v, w with
  | .object ⟨.list, i⟩, .object ⟨.list, j⟩ => some (s.list i, s.list j)
  | .object ⟨.linear, i⟩, .object ⟨.linear, j⟩ =>
    some ((s.linear i).terms.map Term.toValue, (s.linear j).terms.map Term.toValue)
  | .object ⟨.outcome, i⟩, .object ⟨.outcome, j⟩ =>
    some (outcomeFields (s.outcome i), outcomeFields (s.outcome j))
  | .config a b c d e f g, .config a' b' c' d' e' f' g' =>
    some ([a, b, c, d, e, f, g], [a', b', c', d', e', f', g'])
  | v, w =>
    match sequence? v, sequence? w with
    | some xs, some ys => some (xs, ys)
    | _, _ => none

/-! ## Truth -/

/-- A matrix counts as true: it has to have a single place. -/
def matrixTruth (m : SparseArray) : Except Fault Bool :=
  match m.rows, m.width with
  | [row], 1 => .ok !row.isEmpty
  | _, _ => .error .matrixTruth

/-- An array counts as true: it has to have a single entry. -/
def gridTruth (g : Grid) : Except Fault Bool :=
  match g.entries with
  | [x] => .ok ((Value.scalar x).number? != some (.finite 0))
  | [] => .error .emptyTruth
  | _ => .error .ambiguousTruth

/-- A value counts as true: everything but zeros, absence, and what has no parts. -/
def isTrue (s : Store) (v : Value) : Except Fault Bool :=
  match v with
  | .none => .ok false
  | .array g => gridTruth g
  | .sparse m => matrixTruth m
  | v =>
    match v.number? with
    | some x => .ok (x != .finite 0)
    | none =>
      match v with
      | .text t => .ok !t.isEmpty
      | .tuple xs => .ok !xs.isEmpty
      | .object ⟨.list, id⟩ => .ok !(s.list id).isEmpty
      | .object ⟨.dict, id⟩ => .ok ((s.dict id).size != 0)
      | .object ⟨.linear, id⟩ => .ok ((s.linear id).size != 0)
      | .object ⟨.constraint, _⟩ => (s.length v).map (· != 0)
      | _ => .ok true

def answerHolds : Value → Except Fault Bool
  | .bool b => .ok b
  | .scalar (.flag b) => .ok b
  | .array g => gridTruth g
  | .sparse m => matrixTruth m
  | _ => .ok false

/-! ## Arrays -/

/-- What a number of fixed size is not compared with, but only told apart from. -/
def isApart (v : Value) : Bool :=
  match v with
  | .none => true
  | .type _ => true
  | .symbol (.parameter _) => false
  | .symbol _ => true
  | .config .. => true
  | .object r => r.kind != .list && r.kind != .linear
  | _ => false

/-- The flags that say where the numbers of a grid equal a value. -/
def compareGrid (s : Store) (general : Value → Value → Except Fault Bool) (g : Grid) (w : Value) :
    Except Fault Grid := do
  Spread.compare g (← s.spread w) Extended.eq (.ok false) general

def compareFixed (s : Store) (general : Value → Value → Except Fault Bool) (v : Value) (g : Grid)
    (w : Value) : Except Fault Value :=
  match Comparand.ofValue? v, Comparand.ofValue? w with
  | some a, some b => (Comparand.compare Extended.eq a b).map fun answer => .scalar (.flag answer)
  | _, _ =>
    if isApart w then .ok (.bool false)
    else do return .ofGrid (← s.compareGrid general g w)

/-! ## Matrices -/

def entryAt (row : List (Nat × Float)) (j : Nat) : Float :=
  ((row.find? fun e => e.1 == j).map (·.2)).getD 0.0

/-- A matrix with all its entries written out. -/
def denseGrid (m : SparseArray) : Grid :=
  let entries := m.rows.flatMap fun row => (List.range m.width).map fun j =>
    match m.kind with
    | .flag => Scalar.flag (entryAt row j != 0.0)
    | _ => .double (entryAt row j)
  ⟨m.kind, [m.rows.length, m.width], entries, none⟩

/-- The matrix of the places at which a test holds. -/
def flagMatrix (m : SparseArray) (test : Nat → Nat → Except Fault Bool) :
    Except Fault SparseArray := do
  let rows ← (List.range m.rows.length).mapM fun i => do
    let js ← (List.range m.width).filterM (test i)
    return js.map fun j => (j, 1.0)
  return { m with rows := rows, kind := .flag, id := none }

def matrixValue (m : SparseArray) (i j : Nat) : Scalar :=
  let x := entryAt (m.rows.getD i []) j
  match m.kind with
  | .flag => .flag (x != 0.0)
  | _ => .double x

/-- A matrix compared with a value: with a number entry by entry, with another matrix if it has the
same shape, and with an array as one. -/
def compareMatrix (general : Value → Value → Except Fault Bool) (m : SparseArray)
    (w : Value) : Except Fault Value :=
  match w with
  | .array g => do
    return .array (← Spread.compare (denseGrid m) ⟨g.shape, g.entries.map .scalar, false⟩
      Extended.eq (.ok false) general)
  | .sparse n =>
    if m.rows.length = n.rows.length ∧ m.width = n.width then do
      return .sparse (← flagMatrix m fun i j =>
        Comparand.compareSized Extended.eq (.ofScalar (matrixValue m i j))
          (.ofScalar (matrixValue n i j)))
    else .ok (.bool false)
  | .text _ => .error .notTestable
  | w =>
    match Comparand.ofValue? w, w.toInt? with
    | none, _ => .ok (.bool (identical (.sparse m) w))
    | some b, n? =>
      let tooLarge := match n? with
        | some n => n < -9223372036854775808 || Spread.machineEnd ≤ n
        | none => false
      if tooLarge then .error .notTestable
      else do
        return .sparse (← flagMatrix m fun i j =>
          Comparand.compare Extended.eq (.ofScalar (matrixValue m i j)) b)

/-! ## Values -/

/-- The answer to whether two values are equal. -/
def compareWithin (s : Store) : (depth : Nat) → Value → Value → Except Fault Value
  | 0, _, _ => .error .tooDeep
  | depth + 1, v, w =>
    let holds (a b : Value) : Except Fault Bool := do answerHolds (← s.compareWithin depth a b)
    let same (a b : Value) : Except Fault Bool :=
      if identical a b then .ok true else holds a b
    let rec all : List Value → List Value → Except Fault Bool
      | a :: as, b :: bs => do if ← same a b then all as bs else return false
      | _, _ => .ok true
    match v, w with
    | .sparse m, w => compareMatrix holds m w
    | v, .sparse n => compareMatrix holds n v
    | .array g, w => (s.compareGrid holds g w).map .array
    | v, .array g => (s.compareGrid holds g v).map .array
    | v, w =>
      match v.scalarGrid?, w.scalarGrid?, v.number?, w.number? with
      | some g, _, _, _ => s.compareFixed holds v g w
      | none, some g, _, _ => s.compareFixed holds w g v
      | none, none, some x, some y => .ok (.bool (x.eq y))
      | none, none, some _, none => .ok (.bool false)
      | none, none, none, some _ => .ok (.bool false)
      | none, none, none, none =>
        match v, w with
        | .text a, .text b => .ok (.bool (a == b))
        | .none, .none => .ok (.bool true)
        | .symbol a, .symbol b => .ok (.bool (a == b))
        | .type a, .type b => .ok (.bool (a == b))
        | .object ⟨.dict, i⟩, .object ⟨.dict, j⟩ =>
          let other := s.dict j
          if (s.dict i).size != other.size then .ok (.bool false)
          else
            let rec entries : List (Value × Value) → Except Fault Bool
              | [] => .ok true
              | e :: es => do
                match other.get? e.1 with
                | none => return false
                | some y => if ← same e.2 y then entries es else return false
            (entries (s.dict i).entries).map .bool
        | v, w =>
          match s.comparable? v w with
          | some (xs, ys) =>
            if xs.length != ys.length then .ok (.bool false)
            else (all xs ys).map .bool
          | none => .ok (.bool (identical v w))

/-- The answer to whether two values are equal: a truth value, a flag where a number of fixed size
is compared, or an array or a matrix of answers. -/
def compare (s : Store) (v w : Value) : Except Fault Value :=
  s.compareWithin depthLimit v w

def oppositeFlag : Scalar → Scalar
  | .flag b => .flag !b
  | x => x

def oppositeAnswer : Value → Value
  | .bool b => .bool !b
  | .scalar x => .scalar (oppositeFlag x)
  | .array g => .array { g with entries := g.entries.map oppositeFlag, id := none }
  | .sparse m =>
    .sparse (m.ofRows (m.rows.map fun row =>
      ((List.range m.width).filter fun j => entryAt row j == 0.0).map fun j => (j, 1.0)))
  | v => v

/-- The answer to whether two values differ. -/
def differ (s : Store) (v w : Value) : Except Fault Value :=
  (s.compare v w).map oppositeAnswer

/-- Two values are one and the same, or equal. -/
def same (s : Store) (v w : Value) : Except Fault Bool := do
  if identical v w then return true
  answerHolds (← s.compare v w)

/-- One of the values is the same as another. -/
def anySame (s : Store) : List Value → Value → Except Fault Bool
  | [], _ => .ok false
  | x :: xs, v => do if ← s.same x v then return true else anySame s xs v

/-- Some number of an array equals a value. -/
def gridContains (s : Store) (g : Grid) (k : Value) : Except Fault Bool := do
  match ← s.compare (.array g) k with
  | .array answers => return answers.entries.any fun x => x.whole? == some 1
  | answer => answerHolds answer

/-- A value is among the parts of another, or a key of it. -/
def isIn (s : Store) (v k : Value) : Except Fault Bool := do
  match ← root (s.results.length + 1) s v with
  | .object ⟨.dict, id⟩ =>
    k.checkKey
    return (s.dict id).contains k
  | .text t =>
    match k with
    | .text u => return (t.splitOn u).length != 1 || u.isEmpty
    | k => throw (.notTextual k.kindName)
  | .array g => s.gridContains g k
  | v =>
    match s.parts? v with
    | some xs => s.anySame xs k
    | none => throw (.notContainer v.kindName)

end Milp.Store
