import Milp.Problem.Text
import Milp.Store.Evaluate

/-!
# The text of objects

A value with parts is written from the texts of its parts, which are those of what the store holds
at that moment. What holds itself is written once, and hinted at inside.
-/

namespace Milp.Store

/-- Phrases in brackets, with commas between them. -/
def bracketed (opening : String) (ps : List Phrase) (closing : String) : Phrase :=
  opening ++ Phrase.intercalate ", " ps ++ closing

def literals (vs : List Value) : List Phrase := vs.map Phrase.literal

/-- A record, by its name and its fields. -/
def record (name : String) (fields : List (String × Value)) : Phrase :=
  bracketed (name ++ "(") (fields.map fun f => (f.1 ++ "=" : String) ++ Phrase.literal f.2) ")"

def settingsFields : List String :=
  ["name", "time_limit", "gap", "threads", "verbose", "postsolve", "options"]

def outcomeNames : List String :=
  ["status", "assignment", "objective_value", "history", "iterations"]

def literalPhrase (v : Value) : Action Store Phrase := do
  let s ← Action.read
  match v with
  | .tuple [x] => return "(" ++ Phrase.literal x ++ ",)"
  | .tuple xs => return bracketed "(" (literals xs) ")"
  | .term a c => return record "Term" [("variable", a), ("coefficient", c)]
  | .config a b c d e f g =>
    return record "SolverConfig" (settingsFields.zip [a, b, c, d, e, f, g])
  | .object ⟨.list, id⟩ => return bracketed "[" (literals (s.list id)) "]"
  | .object ⟨.dict, id⟩ =>
    return bracketed "\x7b" ((s.dict id).entries.map fun e =>
      Phrase.literal e.1 ++ ": " ++ Phrase.literal e.2) "\x7d"
  | .object ⟨.linear, id⟩ => return (s.linear id).literal
  | .object ⟨.constraint, id⟩ =>
    let c := s.constraint id
    return Constraint.literal c.name c.operator c.rhs (← .ofExcept (s.length c.lhs))
  | .object ⟨.problem, id⟩ =>
    let p := s.problem id
    return Problem.literal p.toDeclarations p.objective (← .ofExcept (s.length p.constraints))
  | .object ⟨.result, id⟩ =>
    let objective ← objectiveOf id
    let size ← .ofExcept (s.length (s.result id).primal)
    return "<Result: objective=" ++ Phrase.within objective ++ ", " ++ Nat.repr size ++ " values>"
  | .object ⟨.outcome, id⟩ =>
    return record "CutLoopOutcome" (outcomeNames.zip (outcomeFields (s.outcome id)))
  | .object ⟨.factory, id⟩ =>
    let f := s.factory id
    return "<SolverFactory: solver=" ++ Phrase.within f.name ++ ", " ++
      Nat.repr (s.dict f.parameters).size ++ " parameters>"
  | .object ⟨.hook, id⟩ => return (s.hook id).name
  | v => return "<" ++ v.kindName ++ ">"

/-- The wording of the plain text of a value with parts. -/
def plainPhrase (v : Value) : Action Store Phrase := do
  let s ← Action.read
  match v with
  | .term a c => return (Term.mk a c).phrase
  | .object ⟨.linear, id⟩ => return (s.linear id).phrase
  | .object ⟨.constraint, id⟩ =>
    let c := s.constraint id
    return Constraint.phrase c.lhs c.operator c.rhs
  | .object ⟨.problem, id⟩ =>
    let p := s.problem id
    let constraints ← .ofExcept (s.items p.constraints)
    let asked := ["get_var_lower_bound", "get_var_upper_bound", "get_var_type"]
    match p.vars.entries, asked.findSome? (s.refusal? v) with
    | _ :: _, some f => throw f
    | _, _ => return Problem.phrase p.toDeclarations p.objective p.sense constraints
  | .object ⟨.result, id⟩ =>
    let objective ← objectiveOf id
    return "Objective: " ++ Phrase.within objective ++ " " ++ Phrase.within (s.result id).primal
  | v => literalPhrase v

/-- How an object hints at itself within its own literal. -/
def hint? : Ref → Option String
  | ⟨.list, _⟩ => some "[...]"
  | ⟨.dict, _⟩ => some "\x7b...\x7d"
  | ⟨.outcome, _⟩ => some "..."
  | _ => none

/-- The hint at a value that is being written, and what is being written with it. -/
def enter (opened : List Ref) (v : Value) : Option String × List Ref :=
  match v with
  | .object r =>
    if (hint? r).isSome then
      if opened.contains r then (hint? r, opened) else (none, r :: opened)
    else (none, opened)
  | _ => (none, opened)

/-- Writes a part of a phrase, within what is being written. -/
def writePart : (depth : Nat) → List Ref → Phrase.Part → Action Store String
  | 0, _, _ => throw .tooDeep
  | depth + 1, opened, part => do
    let (v, simple, phrase) : Value × Option String × Action Store Phrase := match part with
      | .text t => (.text t, some t, pure (t : Phrase))
      | .literal v => (v, v.literal?, literalPhrase v)
      | .plain v => (v, v.plain? <|> v.literal?, plainPhrase v)
      | .within v => (v, v.within? <|> v.literal?, plainPhrase v)
    match simple, enter opened v with
    | some t, _ => return t
    | none, (some t, _) => return t
    | none, (none, opened) =>
      (← phrase).parts.foldlM (fun t p => do return t ++ (← writePart depth opened p)) ""

/-- Writes a phrase. The text of an integer is all of its digits, however many there are: the limit
of 4300 digits, which an interpreter may be told to raise or to drop, is not part of it. -/
def write (p : Phrase) : Action Store String :=
  p.parts.foldlM (fun t p => do return t ++ (← writePart depthLimit [] p)) ""

def textOf (v : Value) : Action Store String := write (Phrase.plain v)

def literalOf (v : Value) : Action Store String := write (Phrase.literal v)

/-! ## Wording -/

/-- Breaks off with a fault, once `Fault.composed` is written. Where that breaks off, its fault takes
the place of the first. A note (`Message`) is never written: it stays a phrase until it is shown. -/
def raise {α : Type} (f : Fault) : Action Store α := do
  let _ ← write f.composed
  throw f

/-- An action that breaks off with `raise`. -/
def raising {α : Type} (a : Action Store α) : Action Store α := do
  try a
  catch f => raise f

def attempt {α : Type} (a : Action Store α) : Action Store (Except Fault α) := do
  try return .ok (← a)
  catch f => return .error f

end Milp.Store
