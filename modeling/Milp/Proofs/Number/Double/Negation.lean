import Milp.Proofs.Number.Double.Rounding

/-!
# Opposite doubles

Rounding takes no account of signs, so opposite doubles have opposite sums and products. A zero is
its own opposite, whatever its sign.
-/

namespace Milp.Binary64

open Float.Model Float.Model.UnpackedFloat

/-- The numbers of two unpacked doubles are opposite. -/
inductive Opposite : UnpackedFloat → UnpackedFloat → Prop
  | notANumber : Opposite .notANumber .notANumber
  | infinity (s : Sign) : Opposite (.infinity s) (.infinity (-s))
  | zero (s s' : Sign) : Opposite (.zero s) (.zero s')
  | finite (s : Sign) {m : Nat} (e : Int) (hm : 0 < m) :
      Opposite (.finite s m e hm) (.finite (-s) m e hm)

variable {u u' v v' : UnpackedFloat} {f : Format}

theorem apply_neg (s : Sign) (n : Int) : (-s).apply n = -s.apply n := by
  cases s
  · exact (neg_neg n).symm
  · rfl

theorem neg_mul_sign (s s' : Sign) : -s * s' = -(s * s') := by
  cases s <;> cases s' <;> rfl

theorem Opposite.value (h : Opposite u v) : valueOf v = -valueOf u := by
  cases h with
  | notANumber => rfl
  | infinity s => cases s <;> rfl
  | zero s s' => exact congrArg Extended.finite neg_zero.symm
  | finite s e hm =>
      refine congrArg Extended.finite ?_
      rw [apply_neg]
      push_cast
      ring

/-- A canonical form is that of one number only. -/
theorem canonical_unique {m m' : Nat} {e e' : Int} (h : Canonical m e) (h' : Canonical m' e')
    (value : (m' : Rat) * 2 ^ e' = m * 2 ^ e) : m' = m ∧ e' = e := by
  have same := (round_exact .positive h' rfl).symm.trans (round_exact .positive h value)
  simpa using same

theorem opposite_of_value (hu : IsCanonical u) (hv : IsCanonical v)
    (h : valueOf v = -valueOf u) : Opposite u v := by
  have size {s : Sign} {m : Nat} {e : Int} (hm : 0 < m) :
      ((s.apply m : Int) : Rat) * 2 ^ e ≠ 0 := by
    refine mul_ne_zero ?_ (two_zpow_pos e).ne'
    cases s <;> simp [Sign.apply, hm.ne']
  cases u with
  | notANumber =>
      cases v with
      | notANumber => exact .notANumber
      | infinity s => cases s <;> cases h
      | _ => cases h
  | infinity s =>
      cases v with
      | infinity s' => cases s <;> cases s' <;> first | exact .infinity _ | cases h
      | _ => cases s <;> cases h
  | zero s =>
      cases v with
      | zero s' => exact .zero s s'
      | finite s' m' e' hm' =>
          have zero : ((s'.apply m' : Int) : Rat) * 2 ^ e' = -0 := Extended.finite.inj h
          exact absurd (zero.trans neg_zero) (size hm')
      | notANumber => cases h
      | infinity s' => cases s' <;> cases h
  | finite s m e hm =>
      cases v with
      | zero s' =>
          have zero : (0 : Rat) = -((s.apply m : Int) * 2 ^ e) := Extended.finite.inj h
          exact absurd (neg_eq_zero.mp zero.symm) (size hm)
      | finite s' m' e' hm' =>
          have opposite : ((s'.apply m' : Int) : Rat) * 2 ^ e' = -((s.apply m : Int) * 2 ^ e) :=
            Extended.finite.inj h
          have value : (m' : Rat) * 2 ^ e' = m * 2 ^ e := by
            rw [← abs_apply s', opposite, abs_neg, abs_apply]
          obtain ⟨rfl, rfl⟩ := canonical_unique hu hv value
          have turned : s' = -s := by
            have some := size (s := s) (e := e') hm
            cases s <;> cases s' <;> first | rfl | skip
            all_goals exact absurd (self_eq_neg.mp opposite) some
          exact turned ▸ .finite s _ hm
      | notANumber => cases h
      | infinity s' => cases s' <;> cases h

/-! ## Rounding -/

theorem opposite_roundWithAccuracy (s : Sign) (m : Nat) (e : Int) (a : Accuracy) :
    Opposite (roundWithAccuracy f s m e a) (roundWithAccuracy f (-s) m e a) := by
  unfold roundWithAccuracy
  dsimp only
  split
  · exact .zero s (-s)
  · exact .finite s _ _

theorem opposite_round (s : Sign) (m : Nat) (e : Int) :
    Opposite (UnpackedFloat.round f s m e) (UnpackedFloat.round f (-s) m e) :=
  opposite_roundWithAccuracy s _ _ _

theorem opposite_normalize (n e : Int) (z z' : Sign) :
    Opposite (UnpackedFloat.normalize f n e z) (UnpackedFloat.normalize f (-n) e z') := by
  unfold UnpackedFloat.normalize
  rcases lt_trichotomy n 0 with hn | rfl | hn
  · rw [Int.compare_eq_lt.mpr hn, Int.compare_eq_gt.mpr (show -n > 0 by omega)]
    exact opposite_round .negative _ e
  · exact .zero z z'
  · rw [Int.compare_eq_gt.mpr hn, Int.compare_eq_lt.mpr (show -n < 0 by omega), neg_neg]
    exact opposite_round .positive _ e

theorem Opposite.add (hu : Opposite u u') (hv : Opposite v v') :
    Opposite (UnpackedFloat.add f u v) (UnpackedFloat.add f u' v') := by
  cases hu with
  | notANumber => exact .notANumber
  | infinity s =>
      cases hv with
      | infinity s' => cases s <;> cases s' <;> first | exact .infinity _ | exact .notANumber
      | notANumber => exact .notANumber
      | _ => exact .infinity s
  | zero s t =>
      cases hv with
      | zero s' t' =>
          simp only [UnpackedFloat.add]
          split <;> split <;> exact .zero _ _
      | notANumber => exact .notANumber
      | infinity s' => exact .infinity s'
      | finite s' e' hm' => exact .finite s' e' hm'
  | finite s e hm =>
      cases hv with
      | notANumber => exact .notANumber
      | infinity s' => exact .infinity s'
      | zero s' t' => exact .finite s e hm
      | finite s' e' hm' =>
          simp only [UnpackedFloat.add, apply_neg, ← neg_add]
          exact opposite_normalize _ _ _ _

theorem Opposite.mul (h : Opposite u u') (v : UnpackedFloat) :
    Opposite (UnpackedFloat.mul f u v) (UnpackedFloat.mul f u' v) := by
  have infinite (s s' : Sign) : Opposite (.infinity (s * s')) (.infinity (-s * s')) :=
    neg_mul_sign s s' ▸ .infinity (s * s')
  cases h with
  | notANumber => exact .notANumber
  | infinity s =>
      cases v with
      | infinity s' => exact infinite s s'
      | finite s' m' e' hm' => exact infinite s s'
      | _ => exact .notANumber
  | zero s t =>
      cases v with
      | notANumber => exact .notANumber
      | infinity s' => exact .notANumber
      | _ => exact .zero _ _
  | finite s e hm =>
      cases v with
      | notANumber => exact .notANumber
      | infinity s' => exact infinite s s'
      | zero s' => exact .zero _ _
      | finite s' m' e' hm' =>
          simp only [UnpackedFloat.mul, neg_mul_sign]
          exact opposite_roundWithAccuracy _ _ _ _

/-! ## Packing -/

theorem opposite_packComponents (s : Sign) (e : BitVec f.exponentBits)
    (m : BitVec f.mantissaBitsWithoutImplicit) :
    Opposite (unpack f (packComponents f s e m)) (unpack f (packComponents f (-s) e m)) := by
  unfold UnpackedFloat.unpack
  simp only [unpackMantissa_packComponents, unpackExponent_packComponents,
    unpackSign_packComponents, Sign.ofBitVec_toBitVec]
  split
  · split
    · exact .infinity s
    · exact .notANumber
  · split
    · split
      · exact .zero s (-s)
      · exact .finite s _ _
    · exact .finite s _ _

theorem Opposite.unpack_pack (h : Opposite u v) :
    Opposite (unpack Format.binary64 (pack Format.binary64 u))
      (unpack Format.binary64 (pack Format.binary64 v)) := by
  cases h with
  | notANumber => exact .notANumber
  | infinity s => exact opposite_packComponents s _ _
  | zero s t => cases s <;> cases t <;> exact .zero _ _
  | finite s e hm =>
      unfold UnpackedFloat.pack
      dsimp only
      split
      · exact opposite_packComponents s _ _
      · split
        · exact opposite_packComponents s _ _
        · exact opposite_packComponents s _ _

/-! ## Doubles -/

theorem opposite_toModel {x y : Float} (h : Extended.ofFloat y = -Extended.ofFloat x) :
    Opposite x.toModel.unpack y.toModel.unpack := by
  rw [ofFloat_eq, ofFloat_eq] at h
  exact opposite_of_value (isCanonical_toModel x) (isCanonical_toModel y) h

theorem Opposite.ofFloat (h : Opposite u v) :
    Extended.ofFloat (.ofModel (.pack v)) = -Extended.ofFloat (.ofModel (.pack u)) := by
  rw [ofFloat_eq, ofFloat_eq]
  exact h.unpack_pack.value

theorem ofFloat_neg (x : Float) : Extended.ofFloat (-x) = -Extended.ofFloat x := by
  have opposite : Opposite x.toModel.unpack x.toModel.unpack.neg := by
    cases x.toModel.unpack <;> constructor
  have canonical : IsCanonical x.toModel.unpack.neg := by
    have := isCanonical_toModel x
    cases h : x.toModel.unpack <;> simp_all [UnpackedFloat.neg, IsCanonical]
  change Extended.ofFloat (.ofModel (.pack x.toModel.unpack.neg)) = _
  rw [ofFloat_pack canonical, opposite.value, ofFloat_eq]

theorem ofFloat_add_neg {x x' y y' : Float} (hx : Extended.ofFloat x' = -Extended.ofFloat x)
    (hy : Extended.ofFloat y' = -Extended.ofFloat y) :
    Extended.ofFloat (x' + y') = -Extended.ofFloat (x + y) :=
  ((opposite_toModel hx).add (opposite_toModel hy)).ofFloat

theorem ofFloat_mul_neg {x x' : Float} (hx : Extended.ofFloat x' = -Extended.ofFloat x)
    (y : Float) : Extended.ofFloat (x' * y) = -Extended.ofFloat (x * y) :=
  ((opposite_toModel hx).mul y.toModel.unpack).ofFloat

theorem scaled_neg (negative : Bool) (m : Nat) (e : Int) :
    scaled (!negative) m e = -scaled negative m e := by
  rw [scaled_eq, scaled_eq]
  cases negative <;> simp

/-- Opposite whole numbers are read as opposite doubles, if as any. -/
theorem ofInt?_neg (n : Int) : (ofInt? (-n)).map Extended.ofFloat =
    (ofInt? n).map fun x => -Extended.ofFloat x := by
  unfold ofInt? ofRat?
  rw [Int.cast_neg, Rat.num_neg_eq_neg_num, Rat.den_neg_eq_den, Rat.num_intCast, Rat.den_intCast,
    Int.natAbs_neg]
  by_cases hn : n = 0
  · rw [if_pos hn, if_pos (by omega)]
    decide +kernel
  · rw [if_neg hn, if_neg (by omega)]
    cases found : BinaryFormat.double.nearest? n.natAbs 1 with
    | none => rfl
    | some me =>
        have canonical := (nearest?_close (Int.natAbs_pos.mpr hn) found).1
        have turned : decide (-n < 0) = !decide (n < 0) := by
          rcases lt_or_gt_of_ne hn with h | h <;> simp [h, not_lt_of_gt h]
        simp only [Option.map_some, ofFloat_assemble _ canonical, turned, scaled_neg]
        rfl

end Milp.Binary64
