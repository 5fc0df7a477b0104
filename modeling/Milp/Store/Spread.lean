import Milp.Store.Parts
import Milp.Value.Comparison

/-!
# Values as arrays see them

A value that is made of parts, and these of others, is taken as rows of rows of values; all rows at
one depth have to be equally long. Texts, dictionaries and matrices have no parts here.
-/

namespace Milp

/-- Values in rows, rows of rows, and so on, as an array sees them. -/
inductive Nested where
  | leaf (v : Value)
  | rows (xs : List Nested)
  deriving Inhabited

namespace Nested

mutual

/-- All values in order. -/
def leaves : Nested → List Value
  | leaf v => [v]
  | rows xs => leavesOf xs

/-- All values of rows in order. -/
def leavesOf : List Nested → List Value
  | [] => []
  | x :: xs => x.leaves ++ leavesOf xs

end

/-- The rows at the given depth, where all of them have rows. -/
def level : (depth : Nat) → List Nested → Option (List Nested)
  | 0, xs => some xs
  | depth + 1, xs =>
    (xs.mapM fun x => match x with
      | leaf _ => none
      | rows ys => some ys).bind fun ys => level depth ys.flatten

/-- The lengths of the rows are all the same number. -/
def commonLength? (xs : List Nested) : Option Nat :=
  match xs.mapM (fun x => match x with
      | leaf _ => none
      | rows ys => some ys.length) with
  | some (n :: ns) => if ns.all (· == n) then some n else none
  | _ => none

/-- The dimensions down to the first depth at which the rows differ in length. -/
def shapeFrom : (depth : Nat) → List Nested → List Nat
  | 0, _ => []
  | depth + 1, xs =>
    match commonLength? xs with
    | none => []
    | some n => n :: shapeFrom depth (xs.flatMap fun x => match x with
        | leaf _ => []
        | rows ys => ys)

/-- Nothing but values is left below dimensions. -/
def fits : List Nat → Nested → Bool
  | [], leaf _ => true
  | [], rows _ => false
  | n :: ns, rows xs => xs.length == n && xs.all (fits ns)
  | _ :: _, leaf _ => false

end Nested

namespace Store

/-- How deep values are gone into. -/
def depthLimit : Nat := 1000

def nested (s : Store) : (depth : Nat) → Value → Nested
  | 0, v => .leaf v
  | depth + 1, v =>
    match v with
    | .text _ => .leaf v
    | .sparse _ => .leaf v
    | .object ⟨.dict, _⟩ => .leaf v
    | v =>
      match s.parts? v with
      | some xs => .rows (xs.map (s.nested depth))
      | none => .leaf v

/-- What an array is compared with must have rows of the same length. -/
def checkEven (x : Nested) : Except Fault Unit :=
  let shape := Nested.shapeFrom depthLimit [x]
  if Nested.fits shape x then .ok ()
  else .error (.unevenParts shape.length shape)

def spread (s : Store) (v : Value) : Except Fault Spread :=
  match v with
  | .array g => .ok ⟨g.shape, g.entries.map .scalar, false⟩
  | v => do
    let x := s.nested depthLimit v
    checkEven x
    let shape := Nested.shapeFrom depthLimit [x]
    return ⟨shape, x.leaves, shape.isEmpty && !v.isFixed⟩

end Store

end Milp
