import Milp.Value.Basic
import Milp.Number.Binary

/-!
# Sameness of values

Two values name the same variable when they have the same key. Numbers are the same when they are
equal as numbers, however they are spelled, so that `1`, `1.0` and a true flag are one variable;
tuples and records of settings are the same when their parts are; objects are the same when they are
one object. Every undefined number is the same as itself alone.
-/

namespace Milp

/-- The key of a value: equal exactly for values that are the same. -/
inductive Key where
  | none
  | notANumber
  /-- An undefined number that is told from others. -/
  | undefined (id : Nat)
  | infinite (negative : Bool)
  | number (q : Rat)
  | text (s : String)
  | symbol (s : Symbol)
  | type (t : TypeName)
  | object (r : Ref)
  /-- The end of a sequence. -/
  | empty
  /-- A sequence: its first part and the rest of it. -/
  | item (head tail : Key)
  /-- Parts that belong together, but not as a tuple. -/
  | record (parts : Key)
  deriving DecidableEq, Inhabited

namespace Key

def ofFloat (x : Float) : Key :=
  match Binary64.parts x with
  | .notANumber => .notANumber
  | .infinite negative => .infinite negative
  | .finite negative m e => .number (Binary64.scaled negative m e)

/-- The key of a number of fixed size. -/
def ofScalar : Scalar → Key
  | .integer _ n => .number n
  | .single x => .ofFloat x
  | .double x => .ofFloat x
  | .flag b => .number (if b then 1 else 0)

end Key

/-- The kind of an object that cannot be looked up: whatever can change and is told by its content
cannot serve as a variable. -/
def ObjectKind.unhashable? : ObjectKind → Option String
  | .list => some "list"
  | .dict => some "dict"
  | .linear => some "Linear"
  | .outcome => some "CutLoopOutcome"
  | _ => Option.none

namespace Value

mutual

def key : Value → Key
  | .none => .none
  | .bool b => .number (if b then 1 else 0)
  | .int n => .number n
  | .real x => .ofFloat x
  | .text s => .text s
  | .scalar s => .ofScalar s
  | .undefined _ id => .undefined id
  | .tuple items => keys items
  | .term v c => .item v.key (.item c.key .empty)
  | .array _ => .record .empty
  | .sparse _ => .record .empty
  | .config a b c d e f g =>
    .record (.item a.key (.item b.key (.item c.key (.item d.key (.item e.key (.item f.key
      (.item g.key .empty)))))))
  | .symbol (.parameter p) => .number p.code
  | .symbol s => .symbol s
  | .type t => .type t
  | .object r => .object r

def keys : List Value → Key
  | [] => .empty
  | v :: vs => .item v.key (keys vs)

end

/-- The two values name the same variable. -/
def same (a b : Value) : Bool :=
  a.key == b.key

@[simp] theorem same_iff (a b : Value) : a.same b ↔ a.key = b.key := by
  simp [same]

/-- The key is the whole of what a value is told by, so sameness is an equivalence. -/
theorem same_equivalence : Equivalence fun a b : Value => a.same b where
  refl _ := (same_iff _ _).2 rfl
  symm h := (same_iff _ _).2 ((same_iff _ _).1 h).symm
  trans h h' := (same_iff _ _).2 (((same_iff _ _).1 h).trans ((same_iff _ _).1 h'))

mutual

/-- The kind of the part of a value that cannot be looked up, if there is one. -/
def unhashable? : Value → Option String
  | .tuple items => anyUnhashable? items
  | .term v c => v.unhashable? <|> c.unhashable?
  | .array _ => some "numpy.ndarray"
  | .sparse _ => some "csr_matrix"
  | .config a b c d e f g =>
    a.unhashable? <|> b.unhashable? <|> c.unhashable? <|> d.unhashable? <|> e.unhashable? <|>
      f.unhashable? <|> g.unhashable?
  | .object r => r.kind.unhashable?
  | _ => Option.none

/-- The first part of a sequence that cannot be looked up. -/
def anyUnhashable? : List Value → Option String
  | [] => Option.none
  | v :: vs => v.unhashable? <|> anyUnhashable? vs

end

end Value

end Milp
