import Milp.Store.Walk

/-!
# Calls on expressions
-/

namespace Milp.Store

/-- The expression made of the terms that a value gives; none of an absent value. -/
def linearOf (s : Store) : Value → Except Fault Linear
  | .none => .ok .empty
  | v => do return ⟨← (s.walk v).mapM "" s.termOf⟩

/-- Makes an expression: of nothing, of terms, or of coefficients and variables side by side. -/
def makeLinear (coefficients vars : Value) : Action Store Value := do
  let s ← Action.read
  match coefficients, vars with
  | .none, .none => newLinear .empty
  | .none, vs => throw (.countMismatch 0 (← .ofExcept (s.length vs)))
  | cs, .none => newLinear (← .ofExcept (s.linearOf cs))
  | cs, vs =>
    let cs ← .ofExcept (s.items cs)
    let vs ← .ofExcept (s.items vs)
    newLinear (← .ofExcept (Linear.ofLists cs vs))

def addTerm (id : Nat) (coefficient var : Value) : Action Store Unit :=
  changeLinear id fun l => l.add coefficient var

/-- Adds terms one after the other; those before a fault stay. -/
def addTerms (id : Nat) (ts : List Value) : Action Store Unit :=
  ts.forM fun v => do
    let s ← Action.read
    let t ← .ofExcept (s.termOf v)
    changeLinear id fun l => l.addTerms [t]

/-- Removes all terms. -/
def clearLinear (id : Nat) : Action Store Unit :=
  changeLinear id fun _ => .empty

def copyLinear (id : Nat) : Action Store Value := do
  let s ← Action.read
  newLinear (s.linear id)

end Milp.Store
