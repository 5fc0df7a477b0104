import Milp.Problem.Basic

/-!
# Writing problems

A problem is written in four parts: the objective under its sense, the constraints, the bounds of
the variables that have any, and the domains of all variables.
-/

namespace Milp

/-- Phrases with a text between each two. -/
def Phrase.intercalate (separator : String) : List Phrase → Phrase
  | [] => ""
  | [p] => p
  | p :: ps => p ++ separator ++ intercalate separator ps

namespace Declarations

/-- The line of a variable's bounds, if it has any. -/
def boundsLine (d : Declarations) (v : Value) : Option Phrase :=
  match d.lowers.get? v, d.uppers.get? v with
  | none, none => none
  | lower, upper =>
    let below : Phrase := lower.elim "" fun b => Phrase.within b ++ " <= "
    let above : Phrase := upper.elim "" fun b => " <= " ++ Phrase.within b
    some (below ++ Phrase.within v ++ above)

def domainLine (d : Declarations) (v : Value) : Phrase :=
  Phrase.within v ++ " " ++ (d.domainOf v).name

end Declarations

namespace Problem

/-- The lines of the objective under its sense. -/
def goalLines (objective sense : Value) : List Phrase :=
  match objective with
  | .none => ["Find one solution"]
  | o => [Phrase.plain sense, " " ++ Phrase.within o]

def constraintLines (constraints : List Value) : List Phrase :=
  constraints.map fun c => " " ++ Phrase.within c

/-- The lines of the bounds and the domains of variables. -/
def declarationLines (d : Declarations) : List Phrase :=
  let indented (p : Phrase) : Phrase := " " ++ p
  let heading : String → Phrase := Phrase.ofText
  let bounds : List Phrase := (d.variableList.filterMap d.boundsLine).map indented
  let domains : List Phrase := d.variableList.map fun v => indented (d.domainLine v)
  heading "Bounds" :: bounds ++ heading "Variables" :: domains

/-- The lines of a problem with the given objective, sense and constraints. -/
def lines (d : Declarations) (objective sense : Value) (constraints : List Value) : List Phrase :=
  goalLines objective sense ++ Phrase.ofText "Subject To" :: constraintLines constraints ++
    declarationLines d

/-- The wording of a problem. -/
def phrase (d : Declarations) (objective sense : Value) (constraints : List Value) : Phrase :=
  Phrase.intercalate "\n" (lines d objective sense constraints) ++ "\n"

/-- A short description of a problem. -/
def literal (d : Declarations) (objective : Value) (constraints : Nat) : String :=
  "<Problem: " ++ Nat.repr d.vars.size ++ " variables, " ++
    Nat.repr constraints ++ " constraints, objective=" ++
    (if objective.isNone then "none" else "set") ++ ">"

end Problem

end Milp
