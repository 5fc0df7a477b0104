import Milp.Store.Conversion
import Milp.Value.Order

/-!
# Calls on lists and dictionaries

The constraints of a problem are a list and the values of a result a dictionary, and both can be
changed in place: what is done to them is seen wherever they are. A fault in the middle of a change
leaves what was done before it. Tuples and terms only answer where a value stands in them.
-/

namespace Milp

/-- The arguments by their places of a call that takes them in order only, and so many of them. -/
def Arguments.counted (a : Arguments) (owner call : String) (least most : Nat) :
    Except Fault (Nat → Option Value) := do
  let whole := owner ++ "." ++ call
  let given := a.inOrder.length
  if !a.byName.isEmpty then throw (.arguments whole .byName)
  if given < least || most < given then
    throw (match least, most with
      | 0, 0 => .arguments whole (.anyGiven given)
      | 1, 1 => .arguments whole (.notOne given)
      | least, most =>
        .arguments call (if least = most then .notExactly least given
          else if given < least then .belowLeast least given else .aboveMost most given))
  return fun i => a.inOrder[i]?

namespace Store

/-! ## Places -/

def placeNumber (v : Value) : Except Fault Int :=
  match v.toInt? with
  | none => .error (.notIndex v.kindName)
  | some n =>
    if placeLimit < n || n < -placeLimit - 1 then .error (.collection .placeTooLarge) else .ok n

/-- An end of a range of places in a list of a length; places below it and above it count as its
ends. -/
def rangeEnd (length : Nat) (v : Value) : Except Fault Nat :=
  match v.toInt? with
  | none => .error (.collection .badRange)
  | some n => .ok (min (if n < 0 then n + length else n).toNat length)

/-- The place of the first of some values that is the same as another, counted on from a place. -/
def firstSame (s : Store) (v : Value) : (start : Nat) → List Value → Except Fault (Option Nat)
  | _, [] => .ok none
  | start, x :: xs => do
    if ← s.same x v then return some start else firstSame s v (start + 1) xs

/-- The place of a value within a range of a sequence. -/
def placeOf (s : Store) (xs : List Value) (v : Value) (start stop : Option Value) :
    Except Fault (Option Nat) := do
  let first ← (start.mapM (rangeEnd xs.length)).map (·.getD 0)
  let last ← (stop.mapM (rangeEnd xs.length)).map (·.getD xs.length)
  s.firstSame v first ((xs.take last).drop first)

/-- The number of values that are the same as another. -/
def countSame (s : Store) (xs : List Value) (v : Value) : Except Fault Nat := do
  return ((← xs.mapM fun x => s.same x v).filter id).length

/-! ## Order -/

/-- The parts of two values that are put in order by them. -/
def orderedParts? (s : Store) (v w : Value) : Option (List Value × List Value) :=
  match v, w with
  | .object ⟨.list, i⟩, .object ⟨.list, j⟩ => some (s.list i, s.list j)
  | v, w =>
    match sequence? v, sequence? w with
    | some xs, some ys => some (xs, ys)
    | _, _ => none

/-- The first parts that are not the same. -/
def firstUnlike (s : Store) : List Value → List Value → Except Fault (Option (Value × Value))
  | x :: xs, y :: ys => do
    if ← s.same x y then firstUnlike s xs ys else return some (x, y)
  | _, _ => .ok none

/-- The first value comes before the second. -/
def comesBefore (s : Store) : (depth : Nat) → Value → Value → Except Fault Bool
  | 0, _, _ => .error .tooDeep
  | depth + 1, v, w =>
    match s.orderedParts? v w with
    | none => Order.below.holdsBy s.spread v w
    | some (xs, ys) => do
      match ← s.firstUnlike xs ys with
      | some (x, y) => comesBefore s depth x y
      | none => return decide (xs.length < ys.length)

/-- A value with what it is put in order by. -/
structure Ranked where
  rank : Value
  value : Value

/-- The number of values that go on in one direction from another one. -/
def runLength (s : Store) (down : Bool) : Value → List Ranked → Except Fault Nat
  | _, [] => .ok 0
  | last, e :: es => do
    if (← s.comesBefore depthLimit e.rank last) = down then
      return (← runLength s down e.rank es) + 1
    else return 0

/-- The values that are in order from the start on, put in order, and those behind them. A run
downwards is turned round. -/
def firstRun (s : Store) : List Ranked → Except Fault (List Ranked × List Ranked)
  | e :: f :: es => do
    let down ← s.comesBefore depthLimit f.rank e.rank
    let n := (← s.runLength down f.rank es) + 2
    let run := (e :: f :: es).take n
    return (if down then run.reverse else run, (e :: f :: es).drop n)
  | es => .ok (es, [])

/-- The place in a range of values in order where another one is entered: behind those that it does
not come before. It is found by halving the range. -/
def entryPlace (s : Store) (e : Ranked) (done : List Ranked) :
    (steps low high : Nat) → Except Fault Nat
  | 0, low, _ => .ok low
  | steps + 1, low, high =>
    let middle := (low + high) / 2
    match done[middle]? with
    | some f =>
      if low < high then do
        if ← s.comesBefore depthLimit e.rank f.rank then entryPlace s e done steps low middle
        else entryPlace s e done steps (middle + 1) high
      else .ok low
    | none => .ok low

/-- Enters values among those in order one by one, as far as they can be compared. -/
def enterAllInOrder (s : Store) (done : List Ranked) : List Ranked → List Ranked × Option Fault
  | [] => (done, none)
  | e :: es =>
    match s.entryPlace e done done.length 0 done.length with
    | .ok i => s.enterAllInOrder (done.insertIdx i e) es
    | .error f => (done ++ e :: es, some f)

/-- Values in order, as far as they can be compared; those that come in no order to each other stay
as they are. -/
def inOrder (s : Store) (es : List Ranked) : List Ranked × Option Fault :=
  match s.firstRun es with
  | .ok (run, rest) => s.enterAllInOrder run rest
  | .error f => (es, some f)

/-! ## Lists -/

/-- Takes the value at a place off a list; the last one unless there is a place. -/
def takeFrom (id : Nat) (position : Option Value) : Action Store Value := do
  let n ← .ofExcept ((position.mapM placeNumber).map (·.getD (-1)))
  let xs := (← Action.read).list id
  if xs.isEmpty then throw (.collection .empty)
  match (place xs.length n).bind fun i => (xs[i]?).map fun x => (i, x) with
  | some (i, x) =>
    changeList id fun xs => xs.eraseIdx i
    return x
  | none => throw (.indexOutOfRange "pop")

/-- Puts a value in front of the one at a place of a list. -/
def insertInto (id : Nat) (position x : Value) : Action Store Unit := do
  let n ← .ofExcept (placeNumber position)
  let length := ((← Action.read).list id).length
  changeList id fun xs => xs.insertIdx (min (if n < 0 then n + length else n).toNat length) x

/-- Removes the first value of a list that is the same as another. -/
def removeFrom (id : Nat) (v : Value) : Action Store Unit := do
  let s ← Action.read
  match ← .ofExcept (s.firstSame v 0 (s.list id)) with
  | some i => changeList id fun xs => xs.eraseIdx i
  | none => throw (.collection (.notFound "list" "remove"))

/-- Puts a list in order. What a call makes of its values decides, if there is one, and the order
may be turned round. -/
def sortList (id : Nat) (key backwards : Value) : Action Store Unit := do
  let turned ← match backwards.toInt? with
    | none => throw (.notIndex backwards.kindName)
    | some n =>
      if -2147483648 ≤ n && n ≤ 2147483647 then pure (n != 0)
      else throw (.collection .settingTooLarge)
  let ranked : List Ranked ← ((← Action.read).list id).mapM fun x => do
    return ⟨← (if key.isNone then pure x else callValue key [x]), x⟩
  let (sorted, fault) := (← Action.read).inOrder (if turned then ranked.reverse else ranked)
  let sorted := sorted.map (·.value)
  changeList id fun _ => if turned then sorted.reverse else sorted
  fault.forM throw

def callList? (id : Nat) (method : String) (a : Arguments) : Option (Action Store Value) :=
  let takes (least most : Nat) (body : (Nat → Value) → Action Store Unit) :
      Option (Action Store Value) := some do
    let x ← .ofExcept (a.counted "list" method least most)
    body fun i => (x i).getD .none
    return .none
  let gives (least most : Nat) (body : (Nat → Option Value) → Action Store Value) :
      Option (Action Store Value) := some do
    body (← .ofExcept (a.counted "list" method least most))
  match method with
  | "append" => takes 1 1 fun x => changeList id (· ++ [x 0])
  | "clear" => takes 0 0 fun _ => changeList id fun _ => []
  | "extend" => takes 1 1 fun x => do
      let w := (← Action.read).walk (x 0)
      changeList id (· ++ w.items)
      .ofExcept (w.finish "")
  | "insert" => takes 2 2 fun x => insertInto id (x 0) (x 1)
  | "remove" => takes 1 1 fun x => removeFrom id (x 0)
  | "reverse" => takes 0 0 fun _ => changeList id List.reverse
  | "sort" => some do
      if !a.inOrder.isEmpty && a.inOrder.length + a.byName.length ≤ 2 then
        throw (.collection (.inOrder method))
      let x ← .ofExcept (bindOptional method ["key", "reverse"] 0 a)
      sortList id ((x 0).getD .none) ((x 1).getD (.bool false))
      return .none
  | "copy" => gives 0 0 fun _ => do newList ((← Action.read).list id)
  | "count" => gives 1 1 fun x => do
      let s ← Action.read
      return .int (← .ofExcept (s.countSame (s.list id) ((x 0).getD .none)))
  | "index" => gives 1 3 fun x => do
      let s ← Action.read
      let v := (x 0).getD .none
      match ← .ofExcept (s.placeOf (s.list id) v (x 1) (x 2)) with
      | some i => return .int i
      | none => throw (.collection (.notListed v))
  | "pop" => gives 0 1 fun x => takeFrom id (x 0)
  | _ => none

def callTuple? (xs : List Value) (method : String) (a : Arguments) :
    Option (Action Store Value) :=
  match method with
  | "count" => some do
      let x ← .ofExcept (a.counted "tuple" method 1 1)
      return .int (← .ofExcept ((← Action.read).countSame xs ((x 0).getD .none)))
  | "index" => some do
      let x ← .ofExcept (a.counted "tuple" method 1 3)
      match ← .ofExcept ((← Action.read).placeOf xs ((x 0).getD .none) (x 1) (x 2)) with
      | some i => return .int i
      | none => throw (.collection (.notFound "tuple" "index"))
  | _ => none

/-! ## Dictionaries -/

def enterEntries (id : Nat) : (position : Nat) → List Value → Action Store Unit
  | _, [] => return
  | position, v :: vs => do
    let (k, x) ← .ofExcept ((← Action.read).entryOf v position)
    .ofExcept k.checkKey
    changeDict id fun t => t.insert k x
    enterEntries id (position + 1) vs

/-- Enters the entries that a value has into a dictionary, as `update` and `|=` do. -/
def updateFrom (id : Nat) (v : Value) : Action Store Unit := do
  let s ← Action.read
  match v with
  | .object ⟨.dict, other⟩ => changeDict id fun t => t.insertAll (s.dict other).entries
  | v =>
    let w := s.walk v
    enterEntries id 0 w.items
    .ofExcept (w.finish "")

/-- Takes an entry off a dictionary. Nothing else is asked of a key when there is none. -/
def takeEntry (id : Nat) (k : Value) (default : Option Value) : Action Store Value := do
  let t := (← Action.read).dict id
  let found ← if t.size = 0 then pure none else .ofExcept (t.lookup k)
  match found, default with
  | some x, _ =>
    changeDict id fun t => t.erase k
    return x
  | none, some x => return x
  | none, none => throw (.missingKey k)

/-- Takes an entry off a dictionary that must be there, as `del` does. -/
def deleteEntry (id : Nat) (k : Value) : Action Store Unit := do
  let _ ← .ofExcept (((← Action.read).dict id).require k)
  changeDict id fun t => t.erase k

def takeLastEntry (id : Nat) : Action Store Value := do
  match ((← Action.read).dict id).entries.getLast? with
  | some (k, x) =>
    changeDict id fun t => t.erase k
    return .tuple [k, x]
  | none => throw (.missingKey (.text "popitem(): dictionary is empty"))

/-- A dictionary with the parts of a value as its keys, each with the same value. -/
def dictOfKeys (keys x : Value) : Action Store Value := do
  let w := (← Action.read).walk keys
  let t ← .ofExcept (Table.collect (w.items.map fun k => (k, x)))
  .ofExcept (w.finish "")
  newDict t

def callDict? (id : Nat) (method : String) (a : Arguments) : Option (Action Store Value) :=
  let gives (least most : Nat) (body : (Nat → Option Value) → Action Store Value) :
      Option (Action Store Value) := some do
    body (← .ofExcept (a.counted "dict" method least most))
  match method with
  | "clear" => gives 0 0 fun _ => do
      changeDict id fun _ => .empty
      return .none
  | "copy" => gives 0 0 fun _ => do newDict ((← Action.read).dict id)
  | "fromkeys" => gives 1 2 fun x => dictOfKeys ((x 0).getD .none) ((x 1).getD .none)
  | "get" => gives 1 2 fun x => do
      let found ← .ofExcept (((← Action.read).dict id).lookup ((x 0).getD .none))
      return (found <|> x 1).getD .none
  | "pop" => gives 1 2 fun x => takeEntry id ((x 0).getD .none) (x 1)
  | "popitem" => gives 0 0 fun _ => takeLastEntry id
  | "setdefault" => gives 1 2 fun x => do
      let k := (x 0).getD .none
      match ← .ofExcept (((← Action.read).dict id).lookup k) with
      | some v => return v
      | none =>
        changeDict id fun t => t.insert k ((x 1).getD .none)
        return (x 1).getD .none
  | "update" => some do
      let x ← .ofExcept (Arguments.counted ⟨a.inOrder, []⟩ "dict" method 0 1)
      (x 0).forM (updateFrom id)
      changeDict id fun t => t.insertAll (a.byName.map fun e => (.text e.1, e.2))
      return .none
  | _ => none

end Store

end Milp
