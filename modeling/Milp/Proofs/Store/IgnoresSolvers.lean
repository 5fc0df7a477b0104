import Milp.Proofs.Store.KeepsSolvers

/-!
# Actions that ignore solvers

What is done once a session has ended neither looks at solvers nor changes any (`IgnoresSolvers`):
`makeResult` makes a result of a solution.
-/

namespace Milp.Store

open Milp.Action

section

variable {α β : Type}

/-- `a` ends in the same way over any list of solvers, and leaves them as they are. -/
def IgnoresSolvers (a : Action Store α) : Prop :=
  ∀ (s : Logged Store) (ss : List SolverObject),
    a.runOn ⟨{ s.state with solvers := ss }, s.log⟩ =
      ((a.runOn s).1, ⟨{ (a.runOn s).2.state with solvers := ss }, (a.runOn s).2.log⟩)

theorem ignoresSolvers_pure (x : α) : IgnoresSolvers (pure x) :=
  fun _ _ => rfl

theorem ignoresSolvers_throw (f : Fault) : IgnoresSolvers (throw f : Action Store α) :=
  fun _ _ => rfl

theorem IgnoresSolvers.bind {a : Action Store α} {f : α → Action Store β} (ha : IgnoresSolvers a)
    (hf : ∀ x, IgnoresSolvers (f x)) : IgnoresSolvers (a >>= f) := by
  intro s ss
  rw [runOn_bind, runOn_bind, ha s ss]
  rcases a.runOn s with ⟨e | x, t⟩
  · rfl
  · exact hf x t ss

/-- The store may be looked at without its solvers. -/
theorem ignoresSolvers_look {f : Store → Action Store α}
    (same : ∀ s ss, f { s with solvers := ss } = f s)
    (each : ∀ s, IgnoresSolvers (f s)) : IgnoresSolvers (read >>= f) := by
  intro s ss
  change (f { s.state with solvers := ss }).runOn _ = _
  rw [same]
  exact each s.state s ss

theorem incidental_ignoresSolvers : Incidental fun _ => IgnoresSolvers where
  pure := ignoresSolvers_pure
  throw := ignoresSolvers_throw
  bind := IgnoresSolvers.bind
  look := ignoresSolvers_look
  identity := ignoresSolvers_look (fun _ _ => rfl) fun _ =>
    IgnoresSolvers.bind (a := update _) (fun _ _ => rfl) fun _ => ignoresSolvers_pure _
  results _ _ := fun _ _ => rfl

/-! ## Adding -/

theorem ignoresSolvers_newDict (t : Table Value) : IgnoresSolvers (newDict t) :=
  ((incidental_ignoresSolvers.distinguishAll _).bind fun _ =>
    (incidental_ignoresSolvers.distinguishAll _).bind fun _ =>
    ignoresSolvers_look (fun _ _ => rfl) fun _ =>
    IgnoresSolvers.bind (a := update _) (fun _ _ => rfl) fun _ => ignoresSolvers_pure _).bind
      fun _ => ignoresSolvers_pure _

theorem ignoresSolvers_resultOf {K : Type} (value : K → Value) (objective : Value) (x : Solution K) :
    IgnoresSolvers (resultOf value objective x) :=
  (ignoresSolvers_newDict _).bind fun _ => (ignoresSolvers_newDict _).bind fun _ =>
    (incidental_ignoresSolvers.distinguish _).bind fun _ =>
    ignoresSolvers_look (fun _ _ => rfl) fun _ =>
    IgnoresSolvers.bind (a := update _) (fun _ _ => rfl) fun _ => ignoresSolvers_pure _

end

end Milp.Store
