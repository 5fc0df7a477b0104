import Milp.Fault

/-!
# Signatures

What a call takes: arguments in order or by name, some of which have to be there while a value
stands for the others when they are absent.
-/

namespace Milp

/-- The arguments that a call is made with: in order, and by name. -/
structure Arguments where
  inOrder : List Value
  byName : List (String × Value)
  deriving Repr

/-- What a call takes. -/
structure Signature where
  name : String
  required : List String
  /-- Arguments that may be absent, with what stands for them then. -/
  optional : List (String × Value)
  /-- The name of what the call is made on, if it is made on something. It comes first. -/
  receiver : Option String
  deriving Repr

namespace Signature

def names (s : Signature) : List String :=
  s.required ++ s.optional.map (·.1)

def wrong {α : Type} (s : Signature) (why : ArgumentFault) : Except Fault α :=
  .error (.arguments s.name why)

/-- Enters arguments given by name among those given in order. -/
def enter (s : Signature) (given : List (String × Value)) :
    List (String × Value) → Except Fault (List (String × Value))
  | [] => .ok given
  | (name, v) :: rest =>
    if s.receiver == some name then s.wrong (.repeated name)
    else if !s.names.contains name then s.wrong (.unexpected name)
    else if (given.lookup name).isSome then s.wrong (.repeated name)
    else s.enter (given ++ [(name, v)]) rest

def bind (s : Signature) (a : Arguments) : Except Fault (Nat → Value) := do
  let given ← s.enter (s.names.zip a.inOrder) a.byName
  let first := s.receiver.toList.length
  if s.names.length < a.inOrder.length then
    s.wrong (.tooMany (s.required.length + first) (s.names.length + first)
      (a.inOrder.length + first))
  let missing := s.required.filter fun name => (given.lookup name).isNone
  if !missing.isEmpty then s.wrong (.missing missing)
  return fun i =>
    let name := s.names.getD i ""
    (given.lookup name).getD ((s.optional.lookup name).getD .none)

end Signature

namespace Arguments

/-- The argument of a call that takes exactly one, in order. -/
def single (a : Arguments) (call : String) : Except Fault Value :=
  match a.byName, a.inOrder with
  | [], [v] => .ok v
  | [], vs => .error (.arguments call (.notOne vs.length))
  | _, _ => .error (.arguments call .byName)

/-- The argument of a call that takes one at most, in order. -/
def atMostOne (a : Arguments) (call : String) : Except Fault (Option Value) :=
  match a.byName, a.inOrder with
  | [], [] => .ok none
  | [], [v] => .ok (some v)
  | [], vs => .error (.arguments call (.aboveMost 1 vs.length))
  | _, _ => .error (.arguments call .byName)

end Arguments

end Milp
