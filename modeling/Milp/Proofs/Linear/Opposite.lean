import Milp.Linear.Evaluate
import Milp.Proofs.Computation
import Milp.Proofs.Number.Double.Negation
import Milp.Proofs.Number.Extended

/-!
# Opposite expressions

An expression whose coefficients are the opposites of another's has the opposite value, in doubles
as well: nothing that is rounded on the way depends on the sign.
-/

namespace Milp

/-! ## Opposite numbers -/

/-- Doubles with opposite numbers. The sign of a zero does not matter. -/
def Opposed (x y : Float) : Prop :=
  Numeric.view y = -Numeric.view x

theorem opposed_neg (x : Float) : Opposed x (-x) :=
  Binary64.ofFloat_neg x

theorem Opposed.symm {x y : Float} (h : Opposed x y) : Opposed y x := by
  unfold Opposed at *
  rw [h, Extended.neg_neg]

theorem opposed_zero : Opposed Numeric.zero Numeric.zero := by
  unfold Opposed
  decide +kernel

theorem Opposed.add {x x' y y' : Float} (hx : Opposed x x') (hy : Opposed y y') :
    Opposed (x + y) (x' + y') :=
  Binary64.ofFloat_add_neg hx hy

theorem Opposed.mul {x x' : Float} (h : Opposed x x') (y : Float) : Opposed (x * y) (x' * y) :=
  Binary64.ofFloat_mul_neg h y

theorem opposed_ofInt (n : Int) :
    Parallel Opposed (Numeric.ofInt n : Except Fault Float) (Numeric.ofInt (-n)) := by
  have opposite := Binary64.ofInt?_neg n
  cases hn : Binary64.ofInt? n <;> cases hm : Binary64.ofInt? (-n) <;>
    simp only [hn, hm, Option.map_none, Option.map_some, Option.some.injEq, reduceCtorEq]
      at opposite
  all_goals simp only [Numeric.ofInt, hn, hm]
  · exact .error _
  · exact .ok opposite

/-- Numbers, whole or not, that are opposite. -/
inductive Number.Opposed : Number Float → Number Float → Prop
  | whole (n : Int) : Number.Opposed (.whole n) (.whole (-n))
  | real {x y : Float} (h : Milp.Opposed x y) : Number.Opposed (.real x) (.real y)

/-! ## Opposite values -/

namespace Value

/-- A value with the same kind as another, of which the opposite number is read. -/
structure Opposes (v w : Value) : Prop where
  integral : w.isIntegral = v.isIntegral
  reads : Parallel Opposed (Numeric.ofValue v : Except Fault Float) (Numeric.ofValue w)

/-- The value is a number, and its opposite is one of its kind: no truth value of fixed size, and no
whole number of fixed size whose opposite is beyond that size. -/
def isOpposable : Value → Bool
  | .scalar (.flag _) => false
  | .scalar (.integer kind n) => wrapped kind (-n) == -n
  | v => v.number?.isSome

/-- The opposite of a number is a value that stands for the opposite number. -/
theorem negated_of_isOpposable {v : Value} (h : v.isOpposable) :
    ∃ w a, v.negated = .ok w ∧ v.Opposes w ∧ v.number? = some a ∧ w.number? = some (-a) := by
  have opposite (x : Float) : Extended.ofFloat (-x) = -Extended.ofFloat x := Binary64.ofFloat_neg x
  have cast (n : Int) : (Value.int (-n)).number? = some (-Extended.finite n) :=
    congrArg (fun q => some (Extended.finite q)) (Int.cast_neg n)
  cases v with
  | bool b => cases b <;> exact ⟨_, _, rfl, ⟨rfl, opposed_ofInt _⟩, rfl, cast _⟩
  | int n => exact ⟨_, _, rfl, ⟨rfl, opposed_ofInt n⟩, rfl, cast n⟩
  | real x => exact ⟨_, _, rfl, ⟨rfl, .ok (opposed_neg x)⟩, rfl, congrArg some (opposite x)⟩
  | undefined form id =>
      have undefined : Opposed Binary64.notANumber Binary64.notANumber := by
        unfold Opposed
        decide +kernel
      have none : Extended.ofFloat Binary64.notANumber = -.notANumber := by
        decide +kernel
      cases form <;>
        exact ⟨_, _, rfl, ⟨rfl, .ok undefined⟩, rfl, congrArg some none⟩
  | scalar x =>
      cases x with
      | flag b => cases h
      | integer kind n =>
          have size : wrapped kind (-n) = -n := eq_of_beq h
          refine ⟨.scalar (.integer kind (-n)), _, ?_, ⟨rfl, opposed_ofInt n⟩, rfl, cast n⟩
          change (Except.ok (.integer kind (wrapped kind (-n)))).map scalar = _
          rw [size]
          rfl
      | single x => exact ⟨_, _, rfl, ⟨rfl, .ok (opposed_neg x)⟩, rfl, congrArg some (opposite x)⟩
      | double x => exact ⟨_, _, rfl, ⟨rfl, .ok (opposed_neg x)⟩, rfl, congrArg some (opposite x)⟩
  | symbol s =>
      cases s with
      | parameter p => exact ⟨_, _, rfl, ⟨rfl, opposed_ofInt _⟩, rfl, cast _⟩
      | _ => cases h
  | _ => cases h

end Value

/-! ## Opposite expressions -/

/-- A term over the same variable with the opposite coefficient. -/
structure Term.Opposes (t t' : Term) : Prop where
  var : t'.var = t.var
  coefficient : t.coefficient.Opposes t'.coefficient

/-- An expression whose terms are the opposites of another's, one by one. -/
def Linear.Opposes (l l' : Linear) : Prop :=
  List.Forall₂ Term.Opposes l.terms l'.terms

namespace Subtotal

/-- Sums so far that are opposite, of numbers of the same kinds. -/
structure Opposed (s s' : Subtotal Float) : Prop where
  sum : Milp.Opposed s.sum s'.sum
  integral : s'.integral = s.integral

variable {s s' : Subtotal Float}

theorem Opposed.add (h : Opposed s s') {c c' : Value} (hc : c.Opposes c')
    (value : Operand Float) :
    Parallel Opposed (s.add c.operand value) (s'.add c'.operand value) := by
  refine hc.reads.bind fun x y hxy => parallel_of_same fun v => .ok ⟨h.sum.add (hxy.mul v), ?_⟩
  simp only [Value.operand, h.integral, hc.integral]

theorem truncate_neg (q : Rat) : truncate (-q) = -truncate q := by
  simp [truncate, Int.neg_tdiv]

theorem Opposed.total (h : Opposed s s') : Parallel Number.Opposed s.total s'.total := by
  have sum : Numeric.view s'.sum = -Numeric.view s.sum := h.sum
  unfold Subtotal.total
  rw [h.integral]
  split
  · unfold Numeric.toIntBy
    rw [sum]
    cases Numeric.view s.sum with
    | finite q => exact .ok (truncate_neg q ▸ .whole (truncate q))
    | _ => exact .error _
  · exact .ok (.real h.sum)

end Subtotal

theorem parallel_accumulate (value? : Value → Except Fault (Option (Operand Float)))
    (ignoreMissing : Bool) {ts ts' : List Term} (h : List.Forall₂ Term.Opposes ts ts')
    {s s' : Subtotal Float} (start : s.Opposed s') :
    Parallel Subtotal.Opposed (Linear.accumulate value? ignoreMissing s ts)
      (Linear.accumulate value? ignoreMissing s' ts') := by
  induction h generalizing s s' with
  | nil => exact .ok start
  | @cons t t' _ _ head _ ih =>
      unfold Linear.accumulate
      rw [head.var]
      refine parallel_of_same fun found => ?_
      cases found with
      | some v => exact (start.add head.coefficient v).bind fun _ _ next => ih next
      | none =>
          cases ignoreMissing with
          | true => exact ih start
          | false => exact .error _

/-- Expressions that are `Linear.Opposes` have opposite values under the same assignment, if they
have any. -/
theorem Linear.Opposes.evaluate {l l' : Linear} (h : l.Opposes l')
    (value? : Value → Except Fault (Option (Operand Float))) (ignoreMissing : Bool) :
    Parallel Number.Opposed (l.evaluate value? ignoreMissing) (l'.evaluate value? ignoreMissing) :=
  (parallel_accumulate value? ignoreMissing h ⟨opposed_zero, rfl⟩).bind fun _ _ total => total.total

end Milp
