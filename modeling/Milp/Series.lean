import Milp.Fault

/-!
# Series

What a walk through the parts of a value gives: the parts that are of the sort that is looked for,
and how the walk ends. It ends after the last part, before something of another sort, or with a
fault.
-/

namespace Milp

/-- How a walk ends. -/
inductive Ending where
  | complete
  /-- The next part is of another sort. -/
  | stranger (v : Value)
  | broken (f : Fault)
  deriving Repr, Inhabited

/-- The parts that a walk gives. -/
structure Series (α : Type) where
  items : List α
  ending : Ending
  /-- The number of parts, which need not be gone through for it. -/
  length : Except Fault Nat

namespace Series

variable {α β σ : Type}

def ofList (xs : List α) : Series α :=
  ⟨xs, .complete, .ok xs.length⟩

/-- The series of a value that cannot be gone through. -/
def broken (f : Fault) (length : Except Fault Nat) : Series α :=
  ⟨[], .broken f, length⟩

/-- The end of a walk that looks for a member of every part. -/
def finish (s : Series α) (member : String) : Except Fault Unit :=
  match s.ending with
  | .complete => .ok ()
  | .stranger v => .error (v.lacks member)
  | .broken f => .error f

/-- Goes through a series, looking for a member of every part. -/
def mapM (s : Series α) (member : String) (f : α → Except Fault β) : Except Fault (List β) := do
  let ys ← s.items.mapM f
  s.finish member
  return ys

/-- Goes through a series from left to right with a result so far. -/
def foldlM (s : Series α) (member : String) (f : β → α → Except Fault β) (start : β) :
    Except Fault β := do
  let y ← s.items.foldlM f start
  s.finish member
  return y

def toList (s : Series α) (member : String) : Except Fault (List α) := do
  s.finish member
  return s.items

@[simp] theorem items_ofList (xs : List α) : (ofList xs).items = xs := rfl

@[simp] theorem length_ofList (xs : List α) : (ofList xs).length = .ok xs.length := rfl

@[simp] theorem finish_ofList (xs : List α) (member : String) :
    (ofList xs).finish member = .ok () := rfl

/-- A list is gone through to its end. -/
@[simp] theorem mapM_ofList (xs : List α) (member : String) (f : α → Except Fault β) :
    (ofList xs).mapM member f = xs.mapM f := by
  simp only [mapM, items_ofList, finish_ofList]
  cases xs.mapM f <;> rfl

@[simp] theorem foldlM_ofList (xs : List α) (member : String) (f : β → α → Except Fault β)
    (start : β) : (ofList xs).foldlM member f start = xs.foldlM f start := by
  simp only [foldlM, items_ofList, finish_ofList]
  cases xs.foldlM f start <;> rfl

end Series

end Milp
