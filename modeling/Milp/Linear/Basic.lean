import Milp.Series

/-!
# Linear expressions

A linear expression is a list of terms, each a variable with its coefficient, in the order in which
they were written. A variable may occur in several terms, and terms are never merged. Where an
expression is expected something else may stand, which serves as far as it can be gone through in
pairs.
-/

namespace Milp

/-- A coefficient with its variable. -/
structure Term where
  var : Value
  coefficient : Value
  deriving Repr, Inhabited

/-- A sum of terms. -/
structure Linear where
  terms : List Term
  deriving Repr, Inhabited

namespace Term

def toValue (t : Term) : Value :=
  .term t.var t.coefficient

/-- The term made of two parts, the variable first. -/
def ofParts : List Value → Except Fault Term
  | [v, c] => .ok ⟨v, c⟩
  | parts => .error (.termParts parts.length)

end Term

namespace Linear

/-- The expression without terms. -/
def empty : Linear := ⟨[]⟩

/-- The number of terms. -/
def size (l : Linear) : Nat :=
  l.terms.length

def add (l : Linear) (coefficient var : Value) : Linear :=
  ⟨l.terms ++ [⟨var, coefficient⟩]⟩

def addTerms (l : Linear) (ts : List Term) : Linear :=
  ⟨l.terms ++ ts⟩

def coefficients (l : Linear) : List Value :=
  l.terms.map (·.coefficient)

/-- The variables in order, with repetitions. -/
def vars (l : Linear) : List Value :=
  l.terms.map (·.var)

/-- The expression with the given coefficients and variables, one for one. -/
def ofLists (coefficients vars : List Value) : Except Fault Linear :=
  if coefficients.length = vars.length then
    .ok ⟨List.zipWith (fun c v => ⟨v, c⟩) coefficients vars⟩
  else .error (.countMismatch coefficients.length vars.length)

/-! ## Parts of an expression -/

@[simp] theorem size_empty : empty.size = 0 := rfl

@[simp] theorem size_add (l : Linear) (c v : Value) : (l.add c v).size = l.size + 1 := by
  simp [add, size]

@[simp] theorem coefficients_add (l : Linear) (c v : Value) :
    (l.add c v).coefficients = l.coefficients ++ [c] := by
  simp [add, coefficients]

@[simp] theorem vars_add (l : Linear) (c v : Value) : (l.add c v).vars = l.vars ++ [v] := by
  simp [add, vars]

@[simp] theorem length_coefficients (l : Linear) : l.coefficients.length = l.size := by
  simp [coefficients, size]

@[simp] theorem length_vars (l : Linear) : l.vars.length = l.size := by
  simp [vars, size]

/-- An expression is made again from its coefficients and variables. -/
theorem ofLists_coefficients_vars (l : Linear) : ofLists l.coefficients l.vars = .ok l := by
  simp [ofLists, coefficients, vars, List.zipWith_map, List.zipWith_self]

end Linear

/-! ## In the place of an expression -/

/-- What stands where an expression is expected. -/
inductive Expression where
  | linear (l : Linear)
  /-- An expression of which a member was replaced by something that is of no use. -/
  | altered (l : Linear) (member : String) (fault : Fault)
  /-- Something else, with the pairs that it gives. -/
  | other (v : Value) (terms : Series Term)

namespace Expression

instance : Coe Linear Expression := ⟨linear⟩

instance : Inhabited Expression := ⟨linear .empty⟩

/-- The terms, one after the other. -/
def terms : Expression → Series Term
  | linear l => .ofList l.terms
  | altered l _ _ => .ofList l.terms
  | other _ ts => ts

def having (member : String) : Expression → Except Fault Linear
  | linear l => .ok l
  | altered l replaced fault => if replaced = member then .error fault else .ok l
  | other v _ => .error (v.lacks member)

/-- There are no terms. -/
def isEmpty (e : Expression) : Except Fault Bool :=
  e.terms.length.map (· == 0)

@[simp] theorem terms_linear (l : Linear) : (linear l).terms = .ofList l.terms := rfl

@[simp] theorem having_linear (l : Linear) (member : String) :
    (linear l).having member = .ok l := rfl

end Expression

end Milp
