import Milp.Linear.Basic

/-!
# Writing expressions

An expression is written as its terms with plus signs between them; after every hundredth term that
is not the last the line is broken before the sign.
-/

namespace Milp

/-- A term as its coefficient, a star and its variable. -/
def Term.phrase (t : Term) : Phrase :=
  Phrase.within t.coefficient ++ "*" ++ Phrase.within t.var

namespace Linear

def termsPerLine : Nat := 100

/-- What stands behind the term at a place, where the place of the last term is given. -/
def separator (last place : Nat) : String :=
  if place < last then
    (if (place + 1) % termsPerLine = 0 then "\n" else "") ++ " + "
  else ""

/-- The wording of the terms from a place on, where the place of the last one is given. -/
def phraseFrom (last : Nat) : (place : Nat) → List Term → Phrase
  | _, [] => ""
  | place, t :: ts => t.phrase ++ separator last place ++ phraseFrom last (place + 1) ts

/-- The wording of an expression. -/
def phrase (l : Linear) : Phrase :=
  phraseFrom (l.size - 1) 0 l.terms

/-- A short description of an expression. -/
def literal (l : Linear) : String :=
  "<Linear: " ++ Nat.repr l.size ++ " terms>"

end Linear

end Milp
