import Milp.Proofs.Store.Storing
import Milp.Proofs.Store.Wording

/-!
# What a problem keeps

What a problem held is there as it was as long as calls on it only add, and what is done in between
leaves it alone. It is then seen, and written, as it was.
-/

namespace Milp.Store

open Milp.Action

section

variable {id : Nat} {s s' s'' : Store}

/-- The constraints that a problem holds are there as they were, before others. -/
structure Retains (id : Nat) (s s' : Store) : Prop where
  stored : s.stored id <+: s'.stored id
  constraints : ∀ c, .object ⟨.constraint, c⟩ ∈ s.stored id → s'.constraints[c]? = s.constraints[c]?
  linears : ∀ c i, .object ⟨.constraint, c⟩ ∈ s.stored id →
    (s.constraint c).lhs = .object ⟨.linear, i⟩ → s'.linears[i]? = s.linears[i]?

/-- The objective of a problem is there as it was. -/
structure RetainsObjective (id : Nat) (s s' : Store) : Prop where
  objective : (s'.problem id).objective = (s.problem id).objective
  linears : ∀ i, (s.problem id).objective = .object ⟨.linear, i⟩ → s'.linears[i]? = s.linears[i]?

theorem Retains.refl (id : Nat) (s : Store) : Retains id s s :=
  ⟨List.prefix_refl _, fun _ _ => rfl, fun _ _ _ _ => rfl⟩

theorem Retains.trans (h : Retains id s s') (h' : Retains id s' s'') : Retains id s s'' := by
  refine ⟨h.stored.trans h'.stored, fun c hc => ?_, fun c i hc hi => ?_⟩
  · exact (h'.constraints c (h.stored.subset hc)).trans (h.constraints c hc)
  · have lhs : (s'.constraint c).lhs = .object ⟨.linear, i⟩ := by
      rw [constraint, h.constraints c hc]
      exact hi
    exact (h'.linears c i (h.stored.subset hc) lhs).trans (h.linears c i hc hi)

theorem RetainsObjective.refl (id : Nat) (s : Store) : RetainsObjective id s s :=
  ⟨rfl, fun _ _ => rfl⟩

theorem RetainsObjective.trans (h : RetainsObjective id s s') (h' : RetainsObjective id s' s'') :
    RetainsObjective id s s'' :=
  ⟨h'.objective.trans h.objective, fun i hi =>
    (h'.linears i (h.objective.trans hi)).trans (h.linears i hi)⟩

theorem getElem?_eq_mono {α : Type} {xs ys : List α} (h : xs <+: ys) {i : Nat} {x : α}
    (hx : xs[i]? = some x) : ys[i]? = xs[i]? :=
  (getElem?_mono h hx).trans hx.symm

/-- A later store has all that a sound problem holds as it was, if only more was added. -/
theorem retains_of_within (sound : s.Sound id) (within : s.Within id s')
    (stored : s.stored id <+: s'.stored id) : Retains id s s' := by
  refine ⟨stored, fun c hc => ?_, fun c i hc hi => ?_⟩
  · obtain ⟨_, o, i, l, ⟨⟩, ho, -⟩ := sound.row_eq hc
    exact getElem?_eq_mono within.constraints ho
  · obtain ⟨_, o, j, l, ⟨⟩, ho, hj, hl⟩ := sound.row_eq hc
    rw [constraint, ho] at hi
    obtain rfl : i = j := by simpa using hi.symm.trans hj
    exact getElem?_eq_mono within.linears hl

theorem retainsObjective_of_within (sound : s.Sound id) (within : s.Within id s')
    (objective : (s'.problem id).objective = (s.problem id).objective) :
    RetainsObjective id s s' := by
  refine ⟨objective, fun i hi => ?_⟩
  rcases sound.objective_eq with none | ⟨j, l, hj, hl⟩
  · rw [none] at hi
    cases hi
  · obtain rfl : i = j := by simpa using hi.symm.trans hj
    exact getElem?_eq_mono within.linears hl

theorem Untouched.stored (sound : s.Sound id) (untouched : s.Untouched id s') :
    s'.stored id = s.stored id := by
  obtain ⟨l, hl, -⟩ := sound.exists_stored
  simp only [Store.stored, untouched.problem_eq, hl, list, untouched.lists l (hl ▸ .list)]

theorem Untouched.retains (sound : s.Sound id) (untouched : s.Untouched id s') :
    Retains id s s' := by
  refine ⟨untouched.stored sound ▸ List.prefix_refl _, fun c hc => ?_, fun c i hc hi => ?_⟩
  · exact untouched.constraints c (partOf_of_stored sound hc)
  · exact untouched.linears i (hi ▸ (partOf_of_stored sound hc).lhs)

theorem Untouched.retainsObjective (untouched : s.Untouched id s') : RetainsObjective id s s' :=
  ⟨congrArg ProblemObject.objective untouched.problem_eq,
    fun i hi => untouched.linears i (hi ▸ .objective)⟩

/-! ## What is seen of it -/

theorem viewAll_append {vs : List Value} (h : (s.viewAll vs).2 = none) (ws : List Value) :
    (s.viewAll (vs ++ ws)).1 = (s.viewAll vs).1 ++ (s.viewAll ws).1 := by
  induction vs with
  | nil => rfl
  | cons v vs ih =>
      unfold viewAll at h
      split at h
      · cases ‹_ :: _ = []›
      · rename_i c ws' heq
        obtain ⟨rfl, rfl⟩ := List.cons.inj heq
        simp only [List.cons_append, viewAll, ih h]
      · cases h

theorem viewConstraint_eq {c i : Nat} {o : ConstraintObject} (extras : s.extras = [])
    (ho : s.constraints[c]? = some o) (hi : o.lhs = .object ⟨.linear, i⟩) :
    s.viewConstraint c = ⟨.linear (s.linear i), o.operator, o.rhs, o.name⟩ := by
  rw [viewConstraint, constraint, ho]
  simp only [Option.getD_some, hi, viewExpression_linear extras]

/-- What a problem holds is seen as it was seen before. -/
theorem Retains.viewConstraint (h : Retains id s s') (sound : s.Sound id) (sound' : s'.Sound id)
    {c : Nat} (hc : .object ⟨.constraint, c⟩ ∈ s.stored id) :
    s'.viewConstraint c = s.viewConstraint c := by
  obtain ⟨_, o, i, l, ⟨⟩, ho, hi, -⟩ := sound.row_eq hc
  have lhs : (s.constraint c).lhs = .object ⟨.linear, i⟩ := (lhsOf_constraint ho).trans hi
  rw [viewConstraint_eq sound.extras ho hi,
    viewConstraint_eq sound'.extras ((h.constraints c hc).trans ho) hi, linear, linear,
    h.linears c i hc lhs]

theorem Retains.viewAll (h : Retains id s s') (sound : s.Sound id) (sound' : s'.Sound id)
    {vs : List Value} (hvs : ∀ v ∈ vs, v ∈ s.stored id) : s'.viewAll vs = s.viewAll vs := by
  induction vs with
  | nil => rfl
  | cons v vs ih =>
      obtain ⟨head, tail⟩ := List.forall_mem_cons.mp hvs
      obtain ⟨c, o, i, l, rfl, -⟩ := sound.row_eq head
      simp only [Store.viewAll, h.viewConstraint sound sound' head, ih tail]

/-- Where no constraint was added, all of them are seen as they were. -/
theorem Retains.constraints_eq (h : Retains id s s') (sound : s.Sound id) (sound' : s'.Sound id)
    (stored : s'.stored id = s.stored id) :
    (s'.viewProblem id).constraints = (s.viewProblem id).constraints := by
  rw [sound.viewProblem_constraints, sound'.viewProblem_constraints, stored,
    h.viewAll sound sound' fun v hv => hv]

theorem Retains.items (h : Retains id s s') (sound : s.Sound id) (sound' : s'.Sound id) :
    (s.viewProblem id).constraints.items <+: (s'.viewProblem id).constraints.items := by
  obtain ⟨new, hnew⟩ := h.stored
  obtain ⟨cs, hcs, -⟩ := viewAll_of_statedRow sound.extras sound.rows
  have same := h.viewAll sound sound' fun v hv => hv
  rw [sound.viewProblem_constraints, sound'.viewProblem_constraints, ← hnew]
  change _ <+: (s'.viewAll (s.stored id ++ new)).1
  rw [viewAll_append (by rw [same, hcs]), same]
  exact List.prefix_append _ _

theorem RetainsObjective.view (h : RetainsObjective id s s') (sound : s.Sound id)
    (sound' : s'.Sound id) : (s'.viewProblem id).objective = (s.viewProblem id).objective := by
  change (s'.problem id).objective.toOption.map s'.viewExpression =
    (s.problem id).objective.toOption.map s.viewExpression
  rw [h.objective]
  rcases sound.objective_eq with none | ⟨i, l, hi, -⟩
  · rw [none]
    rfl
  · have same : s'.linear i = s.linear i := by rw [linear, linear, h.linears i hi]
    rw [hi]
    change some (s'.viewExpression _) = some (s.viewExpression _)
    rw [viewExpression_linear sound'.extras, viewExpression_linear sound.extras, same]

/-- What is written of a constraint that a problem holds is what was written before. -/
theorem Retains.text (h : Retains id s s') (sound : s.Sound id) {c : Nat}
    (hc : .object ⟨.constraint, c⟩ ∈ s.stored id) (closed : (s.viewConstraint c).Closed) :
    ((textOf (.object ⟨.constraint, c⟩)).perform s').1 =
      ((textOf (.object ⟨.constraint, c⟩)).perform s).1 := by
  obtain ⟨_, o, i, l, ⟨⟩, ho, hi, hl⟩ := sound.row_eq hc
  have lhs : (s.constraint c).lhs = .object ⟨.linear, i⟩ := (lhsOf_constraint ho).trans hi
  rw [viewConstraint_eq sound.extras ho hi] at closed
  obtain ⟨r, hr⟩ := constant_textOf_constraint
    (P := fun t => t.constraint c = o ∧ t.linear i = s.linear i) closed.lhs closed.operator
    closed.rhs hi fun _ h => h
  have before : s.constraint c = o := by simp [constraint, ho]
  have after : s'.constraint c = o ∧ s'.linear i = s.linear i := by
    rw [constraint, linear, h.constraints c hc, h.linears c i hc lhs, ho]
    exact ⟨rfl, rfl⟩
  rw [perform, perform, hr ⟨s, []⟩ ⟨before, rfl⟩, hr ⟨s', []⟩ after]

theorem RetainsObjective.text (h : RetainsObjective id s s') (sound : s.Sound id) {e : Expression}
    (he : (s.viewProblem id).objective = some e) (closed : e.Closed) :
    ((textOf (s'.problem id).objective).perform s').1 =
      ((textOf (s.problem id).objective).perform s).1 := by
  have he : (s.problem id).objective.toOption.map s.viewExpression = some e := he
  rcases sound.objective_eq with none | ⟨i, l, hi, -⟩
  · rw [none] at he
    cases he
  · rw [hi] at he
    have seen : s.viewExpression (.object ⟨.linear, i⟩) = e := Option.some.inj he
    rw [viewExpression_linear sound.extras] at seen
    subst seen
    obtain ⟨r, hr⟩ := constant_textOf_linear (P := fun t => t.linear i = s.linear i) closed
      fun _ h => h
    have after : s'.linear i = s.linear i := by rw [linear, linear, h.linears i hi]
    rw [h.objective, hi, perform, perform, hr ⟨s, []⟩ rfl, hr ⟨s', []⟩ after]

/-! ## What leaves a problem alone -/

/-- New expressions and constraints are none of a problem's. -/
theorem Adds.untouched (adds : Adds s s') (sound : s.Sound id) : s.Untouched id s' := by
  refine ⟨by rw [adds.problems], fun _ _ => by rw [adds.lists], fun c part => ?_, fun i part => ?_,
    adds.extras⟩
  · obtain ⟨_, o, _, _, ⟨⟩, ho, -⟩ := sound.row_eq (sound.mem_stored (sound.eq_of_partOf part))
    exact getElem?_eq_mono adds.constraints ho
  · exact getElem?_eq_mono adds.linears (List.getElem?_eq_getElem (sound.lt_of_partOf part))

theorem Untouched.partOf_linear (untouched : s.Untouched id s') (sound : s.Sound id) {i : Nat}
    (part : s'.PartOf id (.object ⟨.linear, i⟩)) : s.PartOf id (.object ⟨.linear, i⟩) := by
  rw [(sound_untouched sound untouched).partOf_linear_iff, untouched.stored sound,
    untouched.problem_eq] at part
  refine sound.partOf_linear_iff.mpr (part.imp_left ?_)
  rintro ⟨v, hv, side⟩
  obtain ⟨c, o, j, l, rfl, -⟩ := sound.row_eq hv
  have same := untouched.constraints c (partOf_of_stored sound hv)
  refine ⟨_, hv, ?_⟩
  rw [lhsOf, constraint, same] at side
  exact side

/-- `viewProblem` of a problem that is left alone is what it was. -/
theorem Untouched.viewProblem (untouched : s.Untouched id s') (sound : s.Sound id) :
    s'.viewProblem id = s.viewProblem id := by
  have sound' := sound_untouched sound untouched
  have objective := untouched.retainsObjective.view sound sound'
  have constraints := (untouched.retains sound).constraints_eq sound sound' (untouched.stored sound)
  simp only [Store.viewProblem, untouched.problem_eq] at objective constraints ⊢
  rw [objective, constraints]

end

end Milp.Store
