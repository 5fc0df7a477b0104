import Milp.Linear.Text

/-!
# Constraints

A named relation between a linear expression and a number. A constraint without a name of its own is
named by its text, fixed when the constraint is made. Once made, each part can be replaced by
anything; what is not a relation then counts as equality wherever relations are told apart.
-/

namespace Milp

/-- A named relation between an expression and a number. -/
structure Constraint where
  lhs : Expression
  operator : Value
  rhs : Value
  name : Value
  deriving Inhabited

/-- The relation that a value is or stands for. A matrix cannot be compared with the signs. -/
def Relation.ofValue : Value → Except Fault Relation
  | .symbol (.relation r) => .ok r
  | .sparse _ => .error .notTestable
  | .text s =>
    match Relation.ofSign? s with
    | some r => .ok r
    | none => .error (.unknownRelation (.text s))
  | v => .error (.unknownRelation v)

/-- The relation that an operator counts as; what is none counts as equality. -/
def Relation.counted : Value → Relation
  | .symbol (.relation r) => r
  | _ => .eq

namespace Constraint

def relation (c : Constraint) : Relation :=
  .counted c.operator

/-- The wording of a relation between two sides. -/
def phrase (lhs operator rhs : Value) : Phrase :=
  Phrase.within lhs ++ " " ++ Phrase.within operator ++ " " ++ Phrase.within rhs

/-- A short description of a constraint whose left-hand side has a given length. -/
def literal (name operator rhs : Value) (length : Nat) : Phrase :=
  "<Constraint " ++ Phrase.literal name ++ ": " ++ Nat.repr length ++ " terms " ++
    Phrase.within operator ++ " " ++ Phrase.within rhs ++ ">"

end Constraint

end Milp
