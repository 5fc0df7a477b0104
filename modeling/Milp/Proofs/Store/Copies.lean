import Milp.Proofs.Store.Calls

/-!
# What is made of copies

A constraint that is made of a copy is a new one over a new expression, which has the terms that
were given. Everything that was there before stays as it is.
-/

namespace Milp.Store

open Milp.Action

section

variable {s s' : Logged Store} {v : Value}

/-- A new constraint over a new expression is all that was added. -/
structure Copied (l : Linear) (s s' : Store) (v : Value) : Prop where
  value : v = .object ⟨.constraint, s.constraints.length⟩
  linears : s'.linears = s.linears ++ [l]
  constraint : ∃ o, s'.constraints = s.constraints ++ [o] ∧
    o.lhs = .object ⟨.linear, s.linears.length⟩
  lists : s'.lists = s.lists
  problems : s'.problems = s.problems
  extras : s'.extras = s.extras

theorem runOn_newLinear (l : Linear) (s : Logged Store) :
    (newLinear l).runOn s = (.ok (.object ⟨.linear, s.state.linears.length⟩),
      { s with state := { s.state with linears := s.state.linears ++ [l] } }) := rfl

theorem runOn_newConstraint (c : ConstraintObject) (s : Logged Store) :
    (newConstraint c).runOn s = (.ok (.object ⟨.constraint, s.state.constraints.length⟩),
      { s with state := { s.state with constraints := s.state.constraints ++ [c] } }) := rfl

/-- The parts of a constraint are those that it is made of. Without a name it is named by its text. -/
structure MadeOf (s : Logged Store) (lhs operator rhs name : Value) (o : ConstraintObject) :
    Prop where
  left : o.lhs = lhs
  relation : ∃ r, Relation.ofValue operator = .ok r ∧ o.operator = .symbol (.relation r)
  right : o.rhs = rhs
  named : ∀ n, name.toOption = some n → o.name = n
  unnamed : name.toOption = none →
    ∃ t, ((write (Constraint.phrase lhs o.operator rhs)).runOn s).1 = .ok t ∧ o.name = .text t

/-- `makeConstraint` makes a constraint over what it is given, and that is all that is new. -/
theorem makeConstraint_eq_ok {lhs operator rhs name : Value}
    (h : (makeConstraint lhs operator rhs name).runOn s = (.ok v, s')) :
    ∃ o t, SameParts s.state t ∧ MadeOf s lhs operator rhs name o ∧
      v = .object ⟨.constraint, s.state.constraints.length⟩ ∧
      s'.state = { t with constraints := s.state.constraints ++ [o] } := by
  unfold makeConstraint at h
  obtain ⟨r, s₁, hr, h⟩ := runOn_bind_eq_ok.mp h
  obtain rfl : s = s₁ := congrArg Prod.snd hr
  have hr : Relation.ofValue operator = .ok r := congrArg Prod.fst hr
  dsimp only at h
  split at h
  · obtain ⟨own, s₂, hw, h⟩ := runOn_bind_eq_ok.mp h
    have same := (keeps_writing _).of_runOn hw
    rw [runOn_newConstraint] at h
    cases h
    refine ⟨_, s₂.state, same, ⟨rfl, ⟨r, hr, rfl⟩, rfl, nofun, fun _ => ?_⟩,
      by rw [same.constraints], by rw [same.constraints]⟩
    exact ⟨own, congrArg Prod.fst hw, rfl⟩
  · rename_i given
    rw [runOn_newConstraint] at h
    cases h
    have some : name.toOption = .some name := by
      unfold Value.toOption
      split
      · exact absurd rfl given
      · rfl
    refine ⟨_, s.state, Std.Refl.refl s.state, ⟨rfl, ⟨r, hr, rfl⟩, rfl, fun n hn => ?_,
      fun none => ?_⟩, rfl, rfl⟩
    · exact Option.some.inj (some.symm.trans hn)
    · rw [some] at none
      cases none

theorem constraintOfCopy_eq_ok {lhs operator rhs name : Value}
    (h : (constraintOfCopy lhs operator rhs name).runOn s = (.ok v, s')) :
    ∃ l, s.state.linearOf lhs = .ok l ∧ Copied l s.state s'.state v ∧
      ∃ o, s'.state.constraints = s.state.constraints ++ [o] ∧
        MadeOf { s with state := { s.state with linears := s.state.linears ++ [l] } }
          (.object ⟨.linear, s.state.linears.length⟩) operator rhs name o := by
  unfold constraintOfCopy at h
  obtain ⟨_, _, ⟨⟩, h⟩ := runOn_bind_eq_ok.mp h
  obtain ⟨l, s₁, hl, h⟩ := runOn_bind_eq_ok.mp h
  obtain rfl : s = s₁ := congrArg Prod.snd hl
  obtain ⟨copy, s₂, hcopy, h⟩ := runOn_bind_eq_ok.mp h
  rw [runOn_newLinear] at hcopy
  cases hcopy
  obtain ⟨o, t, same, made, rfl, after⟩ := makeConstraint_eq_ok h
  rw [after]
  exact ⟨l, congrArg Prod.fst hl, ⟨rfl, same.linears, ⟨o, rfl, made.left⟩, same.lists,
    same.problems, same.extras⟩, o, rfl, made⟩

theorem Copied.lhsOf {l : Linear} {s s' : Store} (h : Copied l s s' v) :
    s'.lhsOf v = .object ⟨.linear, s.linears.length⟩ := by
  obtain ⟨o, ho, lhs⟩ := h.constraint
  have there : s'.constraints[s.constraints.length]? = some o := by simp [ho]
  rw [h.value, lhsOf_constraint there, lhs]

theorem Copied.linear {l : Linear} {s s' : Store} (h : Copied l s s' v) :
    s'.linear s.linears.length = l := by
  rw [Store.linear, h.linears]
  simp

end

end Milp.Store
