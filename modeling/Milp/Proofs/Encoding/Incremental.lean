import Mathlib.Tactic.Linarith
import Milp.Encoding.Incremental
import Milp.Proofs.Encoding.Bounds

/-!
# What the incremental form says

The pieces of a problem that are handed over admit the points that hold numbers with which the
problem is satisfied, where an engine takes the number that stands for an absent bound for none.
-/

namespace Milp

/-- A relation between numbers that may be infinite. -/
def Relation.HoldsBetween : Relation → Extended → Extended → Prop
  | le, a, b => Numeric.le a b = true
  | eq, a, b => a = b
  | ge, a, b => Numeric.le b a = true

@[simp] theorem Relation.holdsBetween_finite (r : Relation) (a b : Rat) :
    r.HoldsBetween (.finite a) (.finite b) ↔ r.Holds a b := by
  cases r <;> simp [HoldsBetween, Holds]

/-- A number of the domain of a variable lies between its bounds, as far as these bound anything. -/
structure PieceVariable.Admits (free : Extended → Prop) (v : PieceVariable Extended) (x : Rat) :
    Prop where
  domain : v.domain.Contains x
  lower : free (-v.lower) ∨ Numeric.le v.lower (.finite x) = true
  upper : free v.upper ∨ Numeric.le (.finite x) v.upper = true

namespace Incremental

/-- What terms are worth at a point. -/
def valueAt (terms : List (Int × Extended)) (q : Nat → Rat) : Extended :=
  SparseRow.dot (terms.map fun e => (e.1.toNat, e.2)) q

/-- A point satisfies the pieces that were handed over. -/
structure Admits (free : Extended → Prop) (m : Incremental Extended) (q : Nat → Rat) : Prop where
  vars : ∀ (j : Nat) (v : PieceVariable Extended), m.vars[j]? = some v → v.Admits free (q j)
  rows : ∀ r ∈ m.rows, r.relation.HoldsBetween (valueAt r.terms q) r.rhs

/-- What the objective is worth at a point. -/
def costAt (m : Incremental Extended) (q : Nat → Rat) : Extended :=
  (m.objective.map fun o => valueAt o.terms q).getD (.finite 0)

/-! ## Variables -/

/-- An engine takes some numbers for no bounds: the one that stands for an absent bound, and none
that is as small as the sides of a boolean variable. -/
structure Frees (free : Extended → Prop) : Prop where
  large : free large
  small : ∀ a : Rat, a ≤ 1 → ¬ free (.finite a)

/-- The explicit bounds of a variable are ones that an engine takes for bounds. -/
structure Binds (free : Extended → Prop) (d : Declarations) (v : Value) : Prop where
  lower : ∀ b, d.lowers.get? v = some b → ¬ free (.finite (-b.toRat))
  upper : ∀ b, d.uppers.get? v = some b → ¬ free (.finite b.toRat)

/-- A side that binds is the bound that was given, and one that stands for none is free. -/
theorem exists_lower {free : Extended → Prop} (frees : Frees free) {b : Option Value}
    (given : ∀ a, b = some a → a.IsFinite ∧ ¬ free (.finite (-a.toRat))) :
    ∃ lo : Extended, Declarations.side (-large) b = .ok lo ∧
      ∀ x, (free (-lo) ∨ Numeric.le lo (.finite x) = true) ↔ ∀ a, b = some a → a.toRat ≤ x := by
  cases b with
  | none => exact ⟨_, rfl, fun x => by simp [Extended.neg_neg, frees.large]⟩
  | some a =>
      obtain ⟨finite, binds⟩ := given a rfl
      exact ⟨_, finite.readsFinite, fun x => by simp [binds]⟩

theorem exists_upper {free : Extended → Prop} (frees : Frees free) {b : Option Value}
    (given : ∀ a, b = some a → a.IsFinite ∧ ¬ free (.finite a.toRat)) :
    ∃ up : Extended, Declarations.side large b = .ok up ∧
      ∀ x, (free up ∨ Numeric.le (.finite x) up = true) ↔ ∀ a, b = some a → x ≤ a.toRat := by
  cases b with
  | none => exact ⟨_, rfl, fun x => by simp [frees.large]⟩
  | some a =>
      obtain ⟨finite, binds⟩ := given a rfl
      exact ⟨_, finite.readsFinite, fun x => by simp [binds]⟩

theorem variableOf_eq_ok {p : Problem} {v : Value} {b : Bounds Value} {lo up : Extended}
    (bounds : p.effectiveBounds v = .ok b) (lower : Declarations.side (-large) b.lower = .ok lo)
    (upper : Declarations.side large b.upper = .ok up) (j : Int) :
    variableOf p (v, j) = .ok ⟨"x" ++ Int.repr j, p.domainOf v, lo, up⟩ := by
  simp only [variableOf, bounds, bind, Except.bind]
  rcases b with ⟨_ | a, _ | c⟩
  · obtain rfl := Except.ok.inj lower
    obtain rfl := Except.ok.inj upper
    rfl
  · obtain rfl := Except.ok.inj lower
    simp only [Declarations.side] at upper
    simp only [upper]
    rfl
  · obtain rfl := Except.ok.inj upper
    simp only [Declarations.side] at lower
    simp only [lower]
    rfl
  · simp only [Declarations.side] at lower upper
    simp only [lower, upper]
    rfl

/-- A variable that is handed over may take the numbers that it may take in the problem. -/
theorem exists_variableOf {p : Problem} {free : Extended → Prop} (frees : Frees free) {v : Value}
    (binds : Binds free p.toDeclarations v) {b : Bounds Value} (bounded : p.Bounded v b) (j : Int) :
    ∃ piece : PieceVariable Extended, variableOf p (v, j) = .ok piece ∧
      ∀ x, piece.Admits free x ↔ p.Admits v x := by
  obtain ⟨lo, hlo, lower⟩ := exists_lower frees (b := b.lower) fun a ha => by
    obtain ⟨finite, ⟨-, given⟩ | nonneg⟩ := bounded.lower a ha
    · exact ⟨finite, binds.lower a given⟩
    · exact ⟨finite, frees.small _ (by linarith)⟩
  obtain ⟨up, hup, upper⟩ := exists_upper frees (b := b.upper) fun a ha => by
    obtain ⟨finite, ⟨-, given⟩ | small⟩ := bounded.upper a ha
    · exact ⟨finite, binds.upper a given⟩
    · exact ⟨finite, frees.small _ small⟩
  refine ⟨_, variableOf_eq_ok bounded.made hlo hup j, fun x => ?_⟩
  rw [← bounded.admits]
  constructor
  · rintro ⟨domain, hl, hu⟩
    exact ⟨domain, (lower x).mp hl, (upper x).mp hu⟩
  · rintro ⟨domain, hl, hu⟩
    exact ⟨domain, (lower x).mpr hl, (upper x).mpr hu⟩

/-! ## Terms and rows -/

section

variable {d : Declarations}

theorem exists_termsOf (distinct : d.Distinct) {l : Linear}
    (registered : ∀ t ∈ l.terms, d.Registered t.var)
    (finite : ∀ t ∈ l.terms, t.coefficient.ReadsFinite) :
    ∃ es : List (Int × Extended), termsOf d.index (.linear l) = .ok es ∧
      List.Forall₂ d.EntryOf l.terms es := by
  have each (t : Term) (ht : t ∈ l.terms) : ∃ e : Int × Extended,
      d.EntryOf t e ∧ d.index.require t.var = .ok e.1 := by
    obtain ⟨e, he⟩ := Declarations.exists_entryOf distinct (registered t ht) ⟨_, finite t ht⟩
    exact ⟨e, he, he.require distinct (registered t ht)⟩
  obtain ⟨es, hes⟩ := exists_forall₂ each
  refine ⟨es, ?_, hes.imp fun _ _ h => h.1⟩
  have coefficients : l.coefficients.mapM Numeric.ofValue = .ok (es.map (·.2)) := by
    rw [Linear.coefficients, mapM_eq_ok, List.forall₂_map_left_iff, List.forall₂_map_right_iff]
    exact hes.imp fun _ _ h => h.1.value
  have columns : l.vars.mapM d.index.require = .ok (es.map (·.1)) := by
    rw [Linear.vars, mapM_eq_ok, List.forall₂_map_left_iff, List.forall₂_map_right_iff]
    exact hes.imp fun _ _ h => h.2
  rw [termsOf, Expression.having]
  refine bind_eq_ok.mpr ⟨l, rfl, bind_eq_ok.mpr ⟨_, coefficients, bind_eq_ok.mpr ⟨_, columns, ?_⟩⟩⟩
  rw [List.zip_map', List.map_id']
  rfl

/-- `Incremental.rowOf` says of a point what the constraint says. -/
theorem exists_rowOf (distinct : d.Distinct) {c : Constraint} {l : Linear} (hl : c.lhs = .linear l)
    (registered : ∀ t ∈ l.terms, d.Registered t.var)
    (finite : ∀ t ∈ l.terms, t.coefficient.ReadsFinite) (rhs : c.rhs.ReadsFinite) {r : Relation}
    (given : c.operator = .symbol (.relation r)) (i : Nat) :
    ∃ row : PieceRow Extended, rowOf d.index (c, i) = .ok row ∧
      ∀ x q, d.Reads x q → (row.relation.HoldsBetween (valueAt row.terms q) row.rhs ↔
        c.relation.Holds (c.lhs.total x) c.rhs.toRat) := by
  obtain ⟨es, hes, entries⟩ := exists_termsOf distinct registered finite
  have relation : c.relation = r := by
    rw [Constraint.relation, given]
    rfl
  refine ⟨⟨"c" ++ Nat.repr i, es, r, .finite c.rhs.toRat⟩, ?_, fun x q reads => ?_⟩
  · rw [rowOf, hl, given]
    exact bind_eq_ok.mpr ⟨es, hes, bind_eq_ok.mpr ⟨r, rfl, bind_eq_ok.mpr ⟨_, rhs, rfl⟩⟩⟩
  · rw [valueAt, Declarations.EntryOf.dot entries finite distinct reads, relation, hl]
    exact Relation.holdsBetween_finite r _ _

end

end Incremental

end Milp
