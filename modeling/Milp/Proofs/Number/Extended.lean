import Mathlib.Algebra.Order.Ring.Rat
import Milp.Encoding.Rows

/-!
# Exact arithmetic

Extended rationals as numbers to encode a model with. A sum or a product is finite only if its parts
are, so a finite total was never on the way through an infinity.
-/

namespace Milp.Extended

variable {a b : Extended} {p q r : Rat}

@[simp] theorem finite_add : finite p + finite q = finite (p + q) := rfl

@[simp] theorem finite_mul : finite p * finite q = finite (p * q) := rfl

@[simp] theorem neg_finite : -finite q = finite (-q) := rfl

theorem finite_sub : finite p - finite q = finite (p - q) :=
  congrArg finite (sub_eq_add_neg p q).symm

theorem max_finite : Numeric.max (finite p) (finite q) = finite (max p q) := by
  have above : Numeric.lt (finite p) (finite q) = decide (p < q) := rfl
  rw [Numeric.max, above]
  by_cases h : p < q
  · rw [if_pos (decide_eq_true h), max_eq_right h.le]
  · rw [if_neg (by simpa using h), max_eq_left (not_lt.mp h)]

theorem neg_neg (a : Extended) : - -a = a := by
  cases a with
  | finite q => exact congrArg finite (by simp)
  | _ => rfl

@[simp] theorem view_eq (x : Extended) : Numeric.view x = x := rfl

@[simp] theorem ofInt_eq (n : Int) : (Numeric.ofInt n : Except Fault Extended) = .ok (.finite n) :=
  rfl

@[simp] theorem numericZero : (Numeric.zero : Extended) = .finite 0 := by
  decide +kernel

@[simp] theorem numericHalf : (Numeric.half : Extended) = .finite (1 / 2) := by
  decide +kernel

@[simp] theorem numericPosInf : (Numeric.posInf : Extended) = .posInf := by
  decide +kernel

@[simp] theorem numericNegInf : (Numeric.negInf : Extended) = .negInf := by
  decide +kernel

theorem toRat_neg (a : Extended) : (-a).toRat?.getD 0 = -(a.toRat?.getD 0) := by
  cases a with
  | finite q => rfl
  | _ => exact neg_zero.symm

theorem add_eq_finite : a + b = finite q ↔ ∃ r s, a = finite r ∧ b = finite s ∧ r + s = q := by
  constructor
  · intro h
    cases a <;> cases b <;> cases h
    exact ⟨_, _, rfl, rfl, rfl⟩
  · rintro ⟨r, s, rfl, rfl, rfl⟩
    rfl

theorem mul_finite_eq_finite : a * finite p = finite q ↔ ∃ r, a = finite r ∧ r * p = q := by
  constructor
  · intro h
    have infinite (s : Rat) : signedInf s ≠ finite q := by
      unfold signedInf
      split
      · simp
      · split <;> simp
    cases a with
    | finite r => exact ⟨r, rfl, finite.inj h⟩
    | notANumber => cases h
    | negInf => exact absurd h (infinite _)
    | posInf => exact absurd h (infinite _)
  · rintro ⟨r, rfl, rfl⟩
    rfl

@[simp] theorem le_finite : Numeric.le (finite p) (finite q) = true ↔ p ≤ q := by
  simp [Numeric.le, le]

@[simp] theorem negInf_le : Numeric.le negInf (finite q) = true := rfl

@[simp] theorem le_posInf : Numeric.le (finite q) posInf = true := rfl

/-- The number is finite, or the infinity that limits nothing from below. -/
def IsLowerSide (a : Extended) : Prop :=
  a = .negInf ∨ ∃ q, a = .finite q

/-- The number is finite, or the infinity that limits nothing from above. -/
def IsUpperSide (a : Extended) : Prop :=
  a = .posInf ∨ ∃ q, a = .finite q

end Milp.Extended

namespace Milp.Relation

def Holds : Relation → Rat → Rat → Prop
  | le, a, b => a ≤ b
  | eq, a, b => a = b
  | ge, a, b => b ≤ a

/-- A number lies in the range of a relation to another if it stands in that relation to it. -/
theorem contains_range (r : Relation) (a b : Rat) :
    (r.range (Extended.finite b)).contains (.finite a) = true ↔ r.Holds a b := by
  cases r with
  | le => simp [range, Range.contains, Holds]
  | eq =>
      simp only [range, Range.contains, Holds, Bool.and_eq_true, Extended.le_finite]
      exact le_antisymm_iff.symm.trans eq_comm
  | ge => simp [range, Range.contains, Holds]

theorem isLowerSide_range (r : Relation) (b : Rat) :
    (r.range (Extended.finite b)).lower.IsLowerSide := by
  cases r with
  | le => exact .inl Extended.numericNegInf
  | eq => exact .inr ⟨b, rfl⟩
  | ge => exact .inr ⟨b, rfl⟩

theorem isUpperSide_range (r : Relation) (b : Rat) :
    (r.range (Extended.finite b)).upper.IsUpperSide := by
  cases r with
  | le => exact .inr ⟨b, rfl⟩
  | eq => exact .inr ⟨b, rfl⟩
  | ge => exact .inl Extended.numericPosInf

end Milp.Relation
