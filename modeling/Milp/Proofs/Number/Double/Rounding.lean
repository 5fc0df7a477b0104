import Milp.Proofs.Number.Double.Whole

/-!
# Doubles that round

A sum of doubles, or a whole number, that is not the number of a double is rounded to one next to
it: no double lies between a number and what it is rounded to.
-/

namespace Milp.Binary64

open Float.Model Float.Model.UnpackedFloat

/-- No double lies between a number and another. -/
def Rounds (q q' : Rat) : Prop :=
  ∀ d, IsDouble d → (d ≤ q → d ≤ q') ∧ (q ≤ d → q' ≤ d)

theorem Rounds.refl (q : Rat) : Rounds q q :=
  fun _ _ => ⟨id, id⟩

/-- The number of a double is not rounded. -/
theorem Rounds.eq_of_isDouble {q q' : Rat} (h : Rounds q q') (hq : IsDouble q) : q' = q :=
  le_antisymm ((h q hq).2 le_rfl) ((h q hq).1 le_rfl)

/-! ## Numbers of units -/

/-- A number of units that has few digits is that of a double. -/
theorem exists_canonical_of_units {m : Nat} {e : Int} (hm : 0 < m) (below : m < 2 ^ 53)
    (least : -1074 ≤ e) (greatest : e ≤ 971) :
    ∃ m' e', Canonical m' e' ∧ (m : Rat) * 2 ^ e = m' * 2 ^ e' := by
  have log := (Nat.log2_lt hm.ne').mpr below
  -- Zeros are appended until there are enough digits, or the least exponent is reached.
  obtain ⟨k, small, low, full⟩ : ∃ k : Nat, m.log2 + k ≤ 52 ∧ -1074 ≤ e - k ∧
      (m.log2 + k = 52 ∨ e - k = -1074) := by
    rcases le_total (52 - m.log2) (e + 1074).toNat with h | h
    · exact ⟨52 - m.log2, by omega⟩
    · exact ⟨(e + 1074).toNat, by omega⟩
  have pos : 0 < m * 2 ^ k := by positivity
  have digits := log2_mul_two_pow hm k
  refine ⟨m * 2 ^ k, e - k, ⟨pos, ?_, low, by omega, ?_⟩, ?_⟩
  · exact (Nat.log2_lt pos.ne').mp (by omega)
  · exact full.imp_left fun h => (Nat.le_log2 pos.ne').mp (by omega)
  · push_cast
    rw [mul_assoc, ← zpow_natCast, ← zpow_add₀ (by norm_num)]
    congr 2
    omega

theorem isDouble_of_units {m : Nat} {e : Int} (below : m < 2 ^ 53) (least : -1074 ≤ e)
    (greatest : e ≤ 971) (s : Sign) : IsDouble (s.apply m * 2 ^ e) := by
  rcases Nat.eq_zero_or_pos m with rfl | hm
  · cases s <;> simpa [Sign.apply] using isDouble_zero
  · obtain ⟨m', e', hc, value⟩ := exists_canonical_of_units hm below least greatest
    have same : ((s.apply m : Int) : Rat) * 2 ^ e = s.apply m' * 2 ^ e' := by
      cases s <;> simp [Sign.apply, value]
    exact same ▸ hc.isDouble s

theorem IsDouble.neg {q : Rat} (h : IsDouble q) : IsDouble (-q) := by
  rcases h.cases with rfl | ⟨s, m, e, hc, rfl⟩
  · simpa using isDouble_zero
  · have opposite := hc.isDouble (-s)
    cases s <;> simpa [Sign.apply] using opposite

theorem Rounds.neg {q q' : Rat} (h : Rounds q q') : Rounds (-q) (-q') := fun _ hd =>
  ⟨fun low => le_neg.mp ((h _ hd.neg).2 (le_neg.mp low)),
    fun high => neg_le.mp ((h _ hd.neg).1 (neg_le.mp high))⟩

/-- Next to a number there is a number of units, which are those of doubles of its size. -/
structure Close (y : Rat) (m : Nat) (e : Int) : Prop where
  least : -1074 ≤ e
  unit : 2 ^ 52 * 2 ^ e ≤ y ∨ e = -1074
  below : y < 2 ^ 53 * 2 ^ e
  low : m * 2 ^ e < y + 2 ^ e
  high : y < (m + 1) * 2 ^ e

section

variable {y : Rat} {m : Nat} {e : Int}

theorem Close.le (h : Close y m e) : m ≤ 2 ^ 53 := by
  have unit := two_zpow_pos e
  have : (m : Rat) * 2 ^ e < (2 ^ 53 + 1) * 2 ^ e := by
    have := h.low
    have := h.below
    linarith
  have := lt_of_mul_lt_mul_right this unit.le
  exact Nat.lt_succ_iff.mp (by exact_mod_cast this)

theorem Close.le_of_unit (h : Close y m e) (unit : 2 ^ 52 * 2 ^ e ≤ y) : 2 ^ 52 ≤ m := by
  have := lt_of_mul_lt_mul_right (unit.trans_lt h.high) (two_zpow_pos e).le
  exact Nat.lt_succ_iff.mp (by exact_mod_cast this)

/-- A number of units has the form of a double, after a carry into one more digit at most. -/
theorem Close.canonical (h : Close y m e) (hm : 0 < m) (greatest : e < 971) :
    m < 2 ^ 53 ∧ Canonical m e ∨ m = 2 ^ 53 ∧ Canonical (2 ^ 52) (e + 1) := by
  rcases h.le.lt_or_eq with below | rfl
  · refine .inl ⟨below, hm, below, h.least, greatest.le, ?_⟩
    exact h.unit.imp_left h.le_of_unit
  · have := h.least
    exact .inr ⟨rfl, by positivity, by norm_num, by omega, by omega, .inl le_rfl⟩

/-- No other number of the same units lies between a number and one next to it. -/
theorem Close.units (h : Close y m e) (k : Nat) :
    ((k : Rat) * 2 ^ e ≤ y → (k : Rat) * 2 ^ e ≤ m * 2 ^ e) ∧
      (y ≤ k * 2 ^ e → (m : Rat) * 2 ^ e ≤ k * 2 ^ e) := by
  have unit := two_zpow_pos e
  constructor
  · intro le
    have := lt_of_mul_lt_mul_right (le.trans_lt h.high) unit.le
    have : k ≤ m := Nat.lt_succ_iff.mp (by exact_mod_cast this)
    exact mul_le_mul_of_nonneg_right (by exact_mod_cast this) unit.le
  · intro le
    have : (m : Rat) * 2 ^ e < (k + 1) * 2 ^ e := by
      have := h.low
      linarith
    have := lt_of_mul_lt_mul_right this unit.le
    have : m ≤ k := Nat.lt_succ_iff.mp (by exact_mod_cast this)
    exact mul_le_mul_of_nonneg_right (by exact_mod_cast this) unit.le

/-- Doubles with smaller units are below all full numbers of larger ones. -/
theorem Canonical.lt_of_lt {k : Nat} {f : Int} (h : Canonical k f) (smaller : f < e) :
    (k : Rat) * 2 ^ f < 2 ^ 52 * 2 ^ e := by
  have below : (k : Rat) < 2 ^ 53 := by exact_mod_cast h.below
  have units : (2 : Rat) ^ f ≤ 2 ^ (e - 1) := zpow_le_zpow_right₀ (by norm_num) (by omega)
  have half : (2 : Rat) ^ (e - 1) = 2 ^ e / 2 := zpow_sub_one₀ (by norm_num) e
  calc (k : Rat) * 2 ^ f < 2 ^ 53 * 2 ^ f := mul_lt_mul_of_pos_right below (two_zpow_pos f)
    _ ≤ 2 ^ 53 * 2 ^ (e - 1) := mul_le_mul_of_nonneg_left units (by norm_num)
    _ = 2 ^ 52 * 2 ^ e := by rw [half]; ring

/-- No double lies between a number and a number of units next to it. -/
theorem Close.rounds (h : Close y m e) (hy : 0 < y) : Rounds y (m * 2 ^ e) := by
  have unit := two_zpow_pos e
  have some : (0 : Rat) ≤ m * 2 ^ e := mul_nonneg (Nat.cast_nonneg m) unit.le
  intro d hd
  rcases hd.cases with rfl | ⟨s, k, f, hc, rfl⟩
  · exact ⟨fun _ => some, fun le => absurd le hy.not_ge⟩
  · have size : (0 : Rat) ≤ k * 2 ^ f := mul_nonneg (Nat.cast_nonneg k) (two_zpow_pos f).le
    cases s with
    | negative =>
        simp only [Sign.apply, Int.cast_neg, Int.cast_natCast, neg_mul]
        exact ⟨fun _ => by linarith, fun le => by linarith⟩
    | positive =>
        simp only [Sign.apply, Int.cast_natCast]
        rcases le_or_gt e f with above | under
        · -- The double is a number of the same units.
          obtain ⟨j, rfl⟩ : ∃ j : Nat, f = e + j := ⟨(f - e).toNat, by omega⟩
          have units : (k : Rat) * 2 ^ (e + j) = ((k * 2 ^ j : Nat) : Rat) * 2 ^ e := by
            rw [zpow_add₀ (by norm_num), zpow_natCast]
            push_cast
            ring
          rw [units]
          exact h.units (k * 2 ^ j)
        · have small := hc.lt_of_lt under
          have large : 2 ^ 52 * 2 ^ e ≤ y := h.unit.resolve_right (by have := hc.least; omega)
          have full : (2 : Rat) ^ 52 * 2 ^ e ≤ m * 2 ^ e :=
            mul_le_mul_of_nonneg_right (by exact_mod_cast h.le_of_unit large) unit.le
          exact ⟨fun _ => small.le.trans full, fun le => absurd (le.trans_lt small) large.not_gt⟩

end

/-! ## Sums -/

/-- The significand that is left is rounded to one next to the number of units. -/
theorem roundedMantissa_close (m k : Nat) :
    let r := (ExtendedMantissa.ofMantissaAndAccuracy m .exact >>> k).roundedMantissa
    r * 2 ^ k < m + 2 ^ k ∧ m < (r + 1) * 2 ^ k := by
  obtain ⟨round, sticky, shifted, exact⟩ := shiftRight_eq m k
  have parts := Nat.div_add_mod m (2 ^ k)
  have rest := Nat.mod_lt m (show 0 < 2 ^ k by positivity)
  have next (r : Nat) : (r + 1) * 2 ^ k = 2 ^ k * r + 2 ^ k := by ring
  have even := Nat.mod_two_eq_zero_or_one (m / 2 ^ k)
  have up (h : m % 2 ^ k ≠ 0) : (m / 2 ^ k + 1) * 2 ^ k < m + 2 ^ k ∧
      m < (m / 2 ^ k + 1 + 1) * 2 ^ k := by
    rw [next, next, Nat.mul_add]
    omega
  have down : m / 2 ^ k * 2 ^ k < m + 2 ^ k ∧ m < (m / 2 ^ k + 1) * 2 ^ k := by
    rw [next, Nat.mul_comm]
    omega
  rw [shifted]
  cases round <;> cases sticky <;>
    simp only [ExtendedMantissa.roundedMantissa, ExtendedMantissa.accuracy,
      Accuracy.roundToNearestEven]
  · exact down
  · exact down
  · rcases even with h | h
    · rw [h]
      exact down
    · rw [h]
      exact up (by simpa using exact)
  · exact up (by simpa using exact)

/-- The unit that a number is rounded to has a number of the units next to it. -/
theorem close_of_shift {m k : Nat} {e f : Int} (hf : f + k = e) (least : -1074 ≤ e)
    (unit : 2 ^ 52 * 2 ^ e ≤ (m : Rat) * 2 ^ f ∨ e = -1074)
    (below : (m : Rat) * 2 ^ f < 2 ^ 53 * 2 ^ e) :
    Close (m * 2 ^ f)
      (ExtendedMantissa.ofMantissaAndAccuracy m .exact >>> k).roundedMantissa e := by
  obtain ⟨low, high⟩ := roundedMantissa_close m k
  have pos := two_zpow_pos f
  have scale (r : Rat) : r * 2 ^ e = r * 2 ^ k * 2 ^ f := by
    rw [← hf, zpow_add₀ (by norm_num), zpow_natCast]
    ring
  refine ⟨least, unit, below, ?_, ?_⟩
  · generalize (ExtendedMantissa.ofMantissaAndAccuracy m .exact >>> k).roundedMantissa = r at low
    have low : (r : Rat) * 2 ^ k < m + 2 ^ k := by exact_mod_cast low
    have unit := scale 1
    rw [one_mul, one_mul] at unit
    rw [scale, unit, ← add_mul]
    exact mul_lt_mul_of_pos_right low pos
  · rw [scale]
    exact mul_lt_mul_of_pos_right (by exact_mod_cast high) pos

/-- What comes of a significand once it is rounded, in the form of a double. -/
theorem valueOf_renormalized (s : Sign) {y : Rat} {r : Nat} {e : Int} (h : Close y r e)
    (greatest : e < 971) :
    let u := (let (em, f) := shiftToTargetExponent Format.binary64 r e .exact
      if h : em.mantissa = 0 then UnpackedFloat.zero s
      else .finite s em.mantissa f (Nat.pos_of_ne_zero h))
    IsCanonical u ∧ valueOf u = .finite (s.apply r * 2 ^ e) := by
  have canonical {m : Nat} {f : Int} (k : Nat) (hc : Canonical m f) (hr : r = m * 2 ^ k)
      (he : e = f - k) :
      shiftToTargetExponent Format.binary64 r e .exact = (⟨m, false, false⟩, f) := by
    rw [hr, he]
    exact shiftToTargetExponent_exact hc k
  rcases Nat.eq_zero_or_pos r with rfl | hr
  · obtain ⟨_, _, shifted, -⟩ := shiftRight_eq 0
      (Format.binary64.targetExponent (totalExponent 0 e) - e).toNat
    simp only [shiftToTargetExponent, shiftToExponent, shifted, Nat.zero_div, dite_true]
    cases s <;> exact ⟨trivial, by simp [valueOf, Sign.apply]⟩
  · rcases h.canonical hr greatest with ⟨-, hc⟩ | ⟨rfl, hc⟩
    · rw [canonical 0 hc (by simp) (by simp)]
      simp only [hc.pos.ne', dite_false]
      exact ⟨hc, rfl⟩
    · rw [canonical 1 hc (by norm_num) (by simp)]
      simp only [hc.pos.ne', dite_false]
      refine ⟨hc, congrArg Extended.finite ?_⟩
      rw [zpow_add_one₀ (by norm_num)]
      cases s <;> simp only [Sign.apply] <;> push_cast <;> ring

theorem lt_of_two_zpow_lt {a b : Int} (h : (2 : Rat) ^ a < 2 ^ b) : a < b :=
  (zpow_lt_zpow_iff_right₀ (by norm_num)).mp h

theorem two_zpow_log2_le {m : Nat} (hm : 0 < m) (e : Int) :
    (2 : Rat) ^ ((m.log2 : Int) + e) ≤ m * 2 ^ e := by
  rw [zpow_add₀ (by norm_num), zpow_natCast]
  exact mul_le_mul_of_nonneg_right (by exact_mod_cast Nat.log2_self_le hm.ne') (two_zpow_pos e).le

theorem lt_two_zpow_log2 (m : Nat) (e : Int) :
    (m : Rat) * 2 ^ e < 2 ^ ((m.log2 : Int) + 1 + e) := by
  rw [zpow_add₀ (by norm_num)]
  refine mul_lt_mul_of_pos_right ?_ (two_zpow_pos e)
  exact_mod_cast Nat.lt_log2_self

theorem unit_of_targetExponent {m : Nat} {e t : Int} (hm : 0 < m)
    (target : t = max ((m.log2 : Int) + 1 + e - 53) (-1074)) :
    2 ^ 52 * 2 ^ t ≤ (m : Rat) * 2 ^ e ∨ t = -1074 := by
  rcases le_total ((m.log2 : Int) + 1 + e - 53) (-1074) with h | h
  · exact .inr (by omega)
  · left
    calc (2 : Rat) ^ 52 * 2 ^ t = 2 ^ ((52 : Int) + t) := by
          rw [zpow_add₀ (by norm_num)]
          norm_num
      _ = 2 ^ ((m.log2 : Int) + e) := by
          congr 1
          omega
      _ ≤ m * 2 ^ e := two_zpow_log2_le hm e

theorem below_of_targetExponent {m : Nat} {e t : Int}
    (target : t = max ((m.log2 : Int) + 1 + e - 53) (-1074)) :
    (m : Rat) * 2 ^ e < 2 ^ 53 * 2 ^ t :=
  calc (m : Rat) * 2 ^ e < 2 ^ ((m.log2 : Int) + 1 + e) := lt_two_zpow_log2 m e
    _ ≤ 2 ^ ((53 : Int) + t) := zpow_le_zpow_right₀ (by norm_num) (by omega)
    _ = 2 ^ 53 * 2 ^ t := by
        rw [zpow_add₀ (by norm_num)]
        norm_num

/-- A number of moderate size is rounded to one next to it, in the form of a double. -/
theorem round_close (s : Sign) {m : Nat} {e : Int} (hm : 0 < m)
    (moderate : (m : Rat) * 2 ^ e < 2 ^ (1000 : Int)) :
    ∃ r t, Close (m * 2 ^ e) r t ∧ IsCanonical (UnpackedFloat.round Format.binary64 s m e) ∧
      valueOf (UnpackedFloat.round Format.binary64 s m e) = .finite (s.apply r * 2 ^ t) := by
  obtain ⟨t, ht⟩ : ∃ t, t = Format.binary64.targetExponent (totalExponent m e) := ⟨_, rfl⟩
  have target := ht.trans (targetExponent_totalExponent m e)
  have size := lt_of_two_zpow_lt ((two_zpow_log2_le hm e).trans_lt moderate)
  -- The significand is brought to that unit, first down and then up.
  obtain ⟨j, hj⟩ : ∃ j, j = (e - t).toNat := ⟨_, rfl⟩
  have value : ((m * 2 ^ j : Nat) : Rat) * 2 ^ (e - (j : Int)) = m * 2 ^ e := by
    push_cast
    rw [mul_assoc, ← zpow_natCast, ← zpow_add₀ (by norm_num), add_sub_cancel]
  have down : e - (j : Int) ≤ t := by omega
  obtain ⟨k, hk⟩ : ∃ k : Nat, k = (t - (e - (j : Int))).toNat := ⟨_, rfl⟩
  have up : e - (j : Int) + k = t := by omega
  have total : totalExponent (m * 2 ^ j) (e - (j : Int)) = totalExponent m e := by
    rw [totalExponent_mul_two_pow hm, Int.sub_add_cancel]
  have close : Close ((m * 2 ^ j : Nat) * 2 ^ (e - (j : Int)))
      (ExtendedMantissa.ofMantissaAndAccuracy (m * 2 ^ j) .exact >>> k).roundedMantissa t := by
    refine close_of_shift up (by omega) ?_ ?_
    · rw [value]
      exact unit_of_targetExponent hm target
    · rw [value]
      exact below_of_targetExponent target
  have rounded : UnpackedFloat.round Format.binary64 s m e =
      (let (em, f) := shiftToTargetExponent Format.binary64
          (ExtendedMantissa.ofMantissaAndAccuracy (m * 2 ^ j) .exact >>> k).roundedMantissa t .exact
        if h : em.mantissa = 0 then UnpackedFloat.zero s
        else .finite s em.mantissa f (Nat.pos_of_ne_zero h)) := by
    have shifted : shiftToTargetExponent Format.binary64 (m * 2 ^ j) (e - (j : Int)) .exact =
        (ExtendedMantissa.ofMantissaAndAccuracy (m * 2 ^ j) .exact >>> k, t) := by
      unfold shiftToTargetExponent shiftToExponent
      simp only [total, ← ht, ← hk, up]
    unfold UnpackedFloat.round decreaseExponent roundWithAccuracy
    simp only [← ht, ← hj, Nat.shiftLeft_eq, shifted]
  obtain ⟨canonical, valued⟩ := valueOf_renormalized s close (by omega)
  rw [← rounded] at canonical valued
  exact ⟨_, t, value ▸ close, canonical, valued⟩

/-- A whole multiple of a power of two is rounded. -/
theorem normalize_rounds {n : Int} {e : Int} (z : Sign)
    (moderate : |(n : Rat) * 2 ^ e| < 2 ^ (1000 : Int)) :
    ∃ q, Rounds (n * 2 ^ e) q ∧ IsCanonical (normalize Format.binary64 n e z) ∧
      valueOf (normalize Format.binary64 n e z) = .finite q := by
  unfold UnpackedFloat.normalize
  rcases lt_trichotomy n 0 with hn | rfl | hn
  · obtain ⟨m, rfl⟩ : ∃ m : Nat, n = -m := ⟨(-n).toNat, by omega⟩
    have hm : 0 < m := by omega
    have size : (0 : Rat) < m * 2 ^ e := mul_pos (by exact_mod_cast hm) (two_zpow_pos e)
    have same : ((-(m : Int) : Int) : Rat) * 2 ^ e = -(m * 2 ^ e) := by
      push_cast
      ring
    rw [same, abs_neg, abs_of_pos size] at moderate
    obtain ⟨r, t, close, canonical, value⟩ := round_close .negative hm moderate
    rw [Int.compare_eq_lt.mpr hn, same]
    simp only [Int.neg_neg, Int.toNat_natCast]
    refine ⟨_, (close.rounds size).neg, canonical, ?_⟩
    rw [value]
    simp [Sign.apply]
  · exact ⟨0, by simpa using Rounds.refl 0, trivial, rfl⟩
  · obtain ⟨m, rfl⟩ : ∃ m : Nat, n = m := ⟨n.toNat, by omega⟩
    have hm : 0 < m := by omega
    have size : (0 : Rat) < m * 2 ^ e := mul_pos (by exact_mod_cast hm) (two_zpow_pos e)
    rw [Int.cast_natCast, abs_of_pos size] at moderate
    obtain ⟨r, t, close, canonical, value⟩ := round_close .positive hm moderate
    rw [Int.compare_eq_gt.mpr hn, Int.cast_natCast]
    exact ⟨_, close.rounds size, canonical, value⟩

theorem add_rounds {u v : UnpackedFloat} (hu : IsCanonical u) (hv : IsCanonical v) {a b : Rat}
    (ha : valueOf u = .finite a) (hb : valueOf v = .finite b)
    (moderate : |a + b| < 2 ^ (1000 : Int)) :
    ∃ q, Rounds (a + b) q ∧ IsCanonical (UnpackedFloat.add Format.binary64 u v) ∧
      valueOf (UnpackedFloat.add Format.binary64 u v) = .finite q := by
  have exact (h : IsDouble (a + b)) : ∃ q, Rounds (a + b) q ∧
      IsCanonical (UnpackedFloat.add Format.binary64 u v) ∧
        valueOf (UnpackedFloat.add Format.binary64 u v) = .finite q :=
    ⟨a + b, Rounds.refl (a + b), add_exact hu hv ha hb h⟩
  cases u with
  | notANumber => cases ha
  | infinity s => cases s <;> cases ha
  | zero s =>
      obtain rfl := Extended.finite.inj ha
      exact exact (by rw [zero_add]; exact ⟨_, hb ▸ ofFloat_pack hv⟩)
  | finite s m e hm =>
      cases v with
      | notANumber => cases hb
      | infinity s' => cases s' <;> cases hb
      | zero s' =>
          obtain rfl := Extended.finite.inj hb
          exact exact (by rw [add_zero]; exact ⟨_, ha ▸ ofFloat_pack hu⟩)
      | finite s' m' e' hm' =>
          have sum := add_eq_units ha hb
          rw [sum] at moderate ⊢
          exact normalize_rounds .positive moderate

/-- The sum of two doubles `Rounds` their exact sum. -/
theorem ofFloat_add_rounds {x y : Float} {a b : Rat} (hx : Extended.ofFloat x = .finite a)
    (hy : Extended.ofFloat y = .finite b) (moderate : |a + b| < 2 ^ (1000 : Int)) :
    ∃ q, Rounds (a + b) q ∧ Extended.ofFloat (x + y) = .finite q := by
  rw [ofFloat_eq] at hx hy
  obtain ⟨q, rounds, canonical, value⟩ :=
    add_rounds (isCanonical_toModel x) (isCanonical_toModel y) hx hy moderate
  refine ⟨q, rounds, ?_⟩
  change Extended.ofFloat (.ofModel (.pack (UnpackedFloat.add _ x.toModel.unpack _))) = _
  rw [ofFloat_pack canonical, value]

/-! ## Whole numbers -/

theorem divEven_close {n d : Nat} (hd : 0 < d) :
    divEven n d * d < n + d ∧ n < (divEven n d + 1) * d := by
  have parts := Nat.div_add_mod n d
  have rest := Nat.mod_lt n hd
  have next (r : Nat) : (r + 1) * d = d * r + d := by ring
  have down : n / d * d < n + d ∧ n < (n / d + 1) * d := by
    rw [next, Nat.mul_comm]
    omega
  have up (h : n % d ≠ 0) : (n / d + 1) * d < n + d ∧ n < (n / d + 1 + 1) * d := by
    rw [next, next, Nat.mul_add]
    omega
  unfold divEven
  split
  · exact down
  · split
    · exact up (by omega)
    · rcases Nat.mod_two_eq_zero_or_one (n / d) with h | h
      · rw [h]
        exact down
      · rw [h]
        exact up (by omega)

/-- The units of a large whole number are those of a double of its size. -/
theorem close_divEven {n k : Nat} (hn : 0 < n) (hk : n.log2 = 52 + k) :
    Close n (divEven n (2 ^ k)) (k : Int) := by
  have low := Nat.log2_self_le hn.ne'
  have high : n < 2 ^ (n.log2 + 1) := Nat.lt_log2_self
  obtain ⟨below, above⟩ := divEven_close (n := n) (show 0 < 2 ^ k by positivity)
  rw [hk] at low high
  refine ⟨by omega, .inl ?_, ?_, ?_, ?_⟩
  · rw [zpow_natCast, ← pow_add]
    exact_mod_cast low
  · have digits : 53 + k = 52 + k + 1 := by omega
    rw [zpow_natCast, ← pow_add, digits]
    exact_mod_cast high
  · rw [zpow_natCast]
    exact_mod_cast below
  · rw [zpow_natCast]
    exact_mod_cast above

theorem two_pow_le_divEven {n k : Nat} (hn : 0 < n) (hk : n.log2 = 52 + k) :
    2 ^ 52 ≤ divEven n (2 ^ k) := by
  refine (close_divEven hn hk).le_of_unit ?_
  rw [zpow_natCast, ← pow_add, ← hk]
  exact_mod_cast Nat.log2_self_le hn.ne'

/-- The nearest double of a large whole number is its number of units, or half of it after a
carry. -/
theorem nearest?_eq {n k : Nat} (hn : 0 < n) (hk : n.log2 = 52 + k) :
    BinaryFormat.double.nearest? n 1 =
      let (m, e) := if divEven n (2 ^ k) = 2 ^ 53 then (2 ^ 53 / 2, (k : Int) + 1)
        else (divEven n (2 ^ k), (k : Int))
      if 971 < e then none else some (m, e) := by
  have unit : BinaryFormat.double.unitExponent n 1 = .ofNat k := by
    rw [unitExponent_one hn, hk]
    simp only [Int.ofNat_eq_natCast]
    omega
  have shift : (1 : Nat) <<< k = 2 ^ k := by rw [Nat.shiftLeft_eq, Nat.one_mul]
  have precision : (1 : Nat) <<< BinaryFormat.double.precision = 2 ^ 53 := rfl
  have greatest : BinaryFormat.double.greatestExponent = 971 := rfl
  unfold BinaryFormat.nearest?
  simp only [unit, BinaryFormat.unitsAt, shift, precision, greatest, Int.ofNat_eq_natCast]
  by_cases carry : divEven n (2 ^ k) = 2 ^ 53
  · simp only [carry, if_true]
  · simp only [carry, if_false]

/-- The significand and the exponent of a whole number are next to it. -/
theorem nearest?_close {n m : Nat} {e : Int} (hn : 0 < n)
    (h : BinaryFormat.double.nearest? n 1 = some (m, e)) :
    Canonical m e ∧ Rounds n (m * 2 ^ e) := by
  by_cases small : n < 2 ^ 53
  · obtain ⟨m', e', hc, value⟩ := exists_canonical hn small.le
    rw [nearest?_exact hn hc value] at h
    obtain ⟨rfl, rfl⟩ := Prod.mk.inj (Option.some.inj h)
    exact ⟨hc, value ▸ Rounds.refl _⟩
  · have digits : 53 ≤ n.log2 := (Nat.le_log2 hn.ne').mpr (by omega)
    obtain ⟨k, hk⟩ : ∃ k : Nat, n.log2 = 52 + k := ⟨n.log2 - 52, by omega⟩
    have close := close_divEven hn hk
    have units := two_pow_le_divEven hn hk
    have rounds := close.rounds (by exact_mod_cast hn)
    rw [nearest?_eq hn hk] at h
    by_cases carry : divEven n (2 ^ k) = 2 ^ 53
    · rw [if_pos carry] at h
      obtain ⟨bounded, found⟩ := Option.ite_none_left_eq_some.mp h
      obtain ⟨rfl, rfl⟩ := Prod.mk.inj (Option.some.inj found)
      refine ⟨⟨by norm_num, by norm_num, by omega, by omega, .inl (by norm_num)⟩, ?_⟩
      have same : (((2 : Nat) ^ 53 / 2 : Nat) : Rat) * 2 ^ ((k : Int) + 1) =
          ((2 ^ 53 : Nat) : Rat) * 2 ^ (k : Int) := by
        rw [zpow_add_one₀ (by norm_num)]
        norm_num
        ring
      rw [carry] at rounds
      exact same ▸ rounds
    · rw [if_neg carry] at h
      obtain ⟨bounded, found⟩ := Option.ite_none_left_eq_some.mp h
      obtain ⟨rfl, rfl⟩ := Prod.mk.inj (Option.some.inj found)
      exact ⟨⟨by omega, lt_of_le_of_ne close.le carry, by omega, by omega, .inl units⟩, rounds⟩

/-- The double that `ofInt?` reads a whole number as `Rounds` it. -/
theorem ofInt?_rounds {n : Int} {x : Float} (h : ofInt? n = some x) :
    ∃ q, Rounds n q ∧ Extended.ofFloat x = .finite q := by
  unfold ofInt? ofRat? at h
  rw [Rat.num_intCast, Rat.den_intCast] at h
  by_cases hn : n = 0
  · rw [if_pos hn] at h
    obtain rfl := Option.some.inj h
    exact ⟨0, by simpa [hn] using Rounds.refl 0, rfl⟩
  · rw [if_neg hn] at h
    obtain ⟨⟨m, e⟩, found, rfl⟩ := Option.map_eq_some_iff.mp h
    obtain ⟨hc, rounds⟩ := nearest?_close (Int.natAbs_pos.mpr hn) found
    refine ⟨_, ?_, (ofFloat_assemble _ hc).trans (congrArg Extended.finite (scaled_eq _ m e))⟩
    rw [Nat.cast_natAbs, Int.cast_abs] at rounds
    by_cases negative : n < 0
    · have : (n : Rat) < 0 := by exact_mod_cast negative
      rw [abs_of_neg this] at rounds
      have opposite := rounds.neg
      rw [neg_neg] at opposite
      simpa [negative] using opposite
    · have : (0 : Rat) ≤ n := by exact_mod_cast not_lt.mp negative
      rw [abs_of_nonneg this] at rounds
      simpa [negative] using rounds

/-! ## The end of the range -/

/-- A number is rounded up to an even number of units if it is at most half a unit below. -/
theorem divEven_eq_even_iff {n d k : Nat} (below : n < 2 * k * (2 * d)) :
    divEven n (2 * d) = 2 * k ↔ 2 * k * (2 * d) ≤ n + d := by
  have hd : 0 < 2 * d := Nat.pos_of_ne_zero fun h => by simp [h] at below
  have parts := Nat.div_add_mod n (2 * d)
  have rest := Nat.mod_lt n hd
  have quotient : n / (2 * d) < 2 * k := Nat.div_lt_of_lt_mul (by rwa [Nat.mul_comm])
  by_cases top : n / (2 * d) + 1 = 2 * k
  · have whole : 2 * k * (2 * d) = 2 * d * (n / (2 * d)) + 2 * d := by rw [← top]; ring
    rw [whole]
    unfold divEven
    split
    · omega
    · split <;> omega
  · have small : (n / (2 * d) + 2) * (2 * d) ≤ 2 * k * (2 * d) := Nat.mul_le_mul_right _ (by omega)
    have next : (n / (2 * d) + 2) * (2 * d) = 2 * d * (n / (2 * d)) + 2 * d + 2 * d := by ring
    unfold divEven
    split
    · omega
    · split <;> omega

theorem nearest?_eq_none_iff_of_log2 {n k : Nat} (hn : 0 < n) (hk : n.log2 = 52 + k) :
    BinaryFormat.double.nearest? n 1 = none ↔
      971 < k ∨ k = 971 ∧ divEven n (2 ^ k) = 2 ^ 53 := by
  rw [nearest?_eq hn hk]
  by_cases carry : divEven n (2 ^ k) = 2 ^ 53
  · simp only [carry, if_true, ite_eq_left_iff, reduceCtorEq, imp_false, not_not, and_true]
    omega
  · simp only [carry, if_false, ite_eq_left_iff, reduceCtorEq, imp_false, not_not, and_false,
      or_false]
    omega

/-- A number in range is rounded up to the end of it if it is at most half a unit below. -/
theorem divEven_eq_end_iff {n : Nat} (high : n < 2 ^ 1024) :
    divEven n (2 ^ 971) = 2 ^ 53 ↔ 2 ^ 1024 ≤ n + 2 ^ 970 := by
  have top : (2 : Nat) ^ 1024 = 2 * 2 ^ 52 * (2 * 2 ^ 970) := by
    have digits : 1024 = 52 + 1 + (970 + 1) := rfl
    rw [digits, pow_add, pow_succ' 2 52, pow_succ' 2 970]
  have unit : (2 : Nat) ^ 971 = 2 * 2 ^ 970 := by rw [← pow_succ' 2 970]
  have carry : (2 : Nat) ^ 53 = 2 * 2 ^ 52 := by rw [← pow_succ' 2 52]
  rw [top] at high ⊢
  rw [unit, carry]
  exact divEven_eq_even_iff high

theorem nearest?_eq_none_iff {n : Nat} (hn : 0 < n) :
    BinaryFormat.double.nearest? n 1 = none ↔ 2 ^ 1024 ≤ n + 2 ^ 970 := by
  have low : 2 ^ n.log2 ≤ n := Nat.log2_self_le hn.ne'
  have high : n < 2 ^ (n.log2 + 1) := Nat.lt_log2_self
  -- Below the last binary digit there is room for half a unit of the greatest exponent.
  have inside (few : n.log2 < 1023) : ¬ 2 ^ 1024 ≤ n + 2 ^ 970 := by
    have below : 2 ^ (n.log2 + 1) ≤ 2 ^ 1023 := by
      rwa [Nat.pow_le_pow_iff_right Nat.one_lt_two]
    have room : (2 : Nat) ^ 970 ≤ 2 ^ 1023 := by gcongr <;> simp
    have half : (2 : Nat) ^ 1024 = 2 * 2 ^ 1023 := by rw [← pow_succ' 2 1023]
    rw [half]
    generalize (2 : Nat) ^ 1023 = a at *
    omega
  by_cases small : n.log2 < 52
  · have few : n < 2 ^ 52 := (Nat.log2_lt hn.ne').mp small
    obtain ⟨m, e, hc, value⟩ := exists_canonical hn (by omega)
    rw [nearest?_exact hn hc value]
    exact iff_of_false (by simp) (inside (by omega))
  · obtain ⟨k, hk⟩ : ∃ k, n.log2 = 52 + k := ⟨n.log2 - 52, by omega⟩
    rw [nearest?_eq_none_iff_of_log2 hn hk]
    rcases lt_trichotomy k 971 with fits | rfl | beyond
    · exact iff_of_false (by omega) (inside (by omega))
    · have ends : 52 + 971 + 1 = 1024 := rfl
      rw [hk, ends] at high
      simp only [lt_self_iff_false, true_and, false_or]
      exact divEven_eq_end_iff high
    · have above : 2 ^ 1024 ≤ 2 ^ n.log2 := by
        rw [Nat.pow_le_pow_iff_right Nat.one_lt_two]
        omega
      exact iff_of_true (.inl beyond) ((above.trans low).trans (Nat.le_add_right _ _))

/-- The whole numbers out of range are those from half a unit below the end of the range on. -/
theorem ofInt?_eq_none_iff {n : Int} : ofInt? n = none ↔ 2 ^ 1024 ≤ n.natAbs + 2 ^ 970 := by
  unfold ofInt? ofRat?
  rw [Rat.num_intCast, Rat.den_intCast]
  split
  · subst n
    have inside : (2 : Nat) ^ 970 < 2 ^ 1024 := by gcongr <;> simp
    rw [Int.natAbs_zero, Nat.zero_add]
    exact iff_of_false (by simp) inside.not_ge
  · rename_i hn
    rw [Option.map_eq_none_iff, nearest?_eq_none_iff (Int.natAbs_pos.mpr hn)]

/-! ## Halves -/

theorem isDouble_mul_two_zpow {n : Int} {e : Int} (below : n.natAbs < 2 ^ 53) (least : -1074 ≤ e)
    (greatest : e ≤ 971) : IsDouble (n * 2 ^ e) := by
  rcases Int.natAbs_eq n with h | h
  · have := isDouble_of_units below least greatest .positive
    rwa [h]
  · have := isDouble_of_units below least greatest .negative
    rwa [h]

theorem isDouble_intCast_add_half {n : Int} (h : |(n : Rat)| + 1 ≤ 2 ^ 52) :
    IsDouble (n + 1 / 2) := by
  have bound : |n| + 1 ≤ 2 ^ 52 := by exact_mod_cast h
  have below : (2 * n + 1).natAbs < 2 ^ 53 := by
    have := abs_le.mp (le_sub_iff_add_le.mpr bound)
    omega
  have same : (n : Rat) + 1 / 2 = (2 * n + 1 : Int) * 2 ^ (-1 : Int) := by
    rw [zpow_neg_one]
    push_cast
    ring
  exact same ▸ isDouble_mul_two_zpow below (by norm_num) (by norm_num)

/-- One half more than a double below zero is that of a double. -/
theorem IsDouble.add_half {q : Rat} (h : IsDouble q) (room : |q| + 1 ≤ 2 ^ 52)
    (below : q ≤ -(1 / 2)) : IsDouble (q + 1 / 2) := by
  rcases h.cases with rfl | ⟨s, m, e, hc, rfl⟩
  · norm_num at below
  have unit := two_zpow_pos e
  cases s with
  | positive =>
      have : (0 : Rat) ≤ m * 2 ^ e := mul_nonneg (Nat.cast_nonneg m) unit.le
      simp only [Sign.apply, Int.cast_natCast] at below
      linarith
  | negative =>
      cases e with
      | ofNat k =>
          have whole : ((Sign.negative.apply m : Int) : Rat) * 2 ^ (Int.ofNat k) =
              ((-(m * 2 ^ k : Nat) : Int) : Rat) := by
            rw [Int.ofNat_eq_natCast, zpow_natCast]
            simp [Sign.apply]
          rw [whole] at room ⊢
          exact isDouble_intCast_add_half room
      | negSucc k =>
          have half : (1 : Rat) / 2 = 2 ^ k * 2 ^ (Int.negSucc k) := by
            rw [zpow_negSucc, pow_succ]
            field_simp
          have units : (2 : Nat) ^ k ≤ m := by
            simp only [Sign.apply, Int.cast_neg, Int.cast_natCast, neg_mul] at below
            rw [half] at below
            have := le_of_mul_le_mul_right (neg_le_neg_iff.mp below) unit
            exact_mod_cast this
          have same : ((Sign.negative.apply m : Int) : Rat) * 2 ^ (Int.negSucc k) + 1 / 2 =
              ((2 ^ k - m : Int) : Rat) * 2 ^ (Int.negSucc k) := by
            rw [half]
            simp only [Sign.apply]
            push_cast
            ring
          rw [same]
          have := hc.below
          have units : (2 : Int) ^ k ≤ m := by exact_mod_cast units
          have positive : (0 : Int) < 2 ^ k := by positivity
          exact isDouble_mul_two_zpow (by omega) hc.least hc.greatest

section

variable {q w : Rat}

theorem abs_floor_add_half (room : |q| + 1 ≤ 2 ^ 52) :
    |(((q + 1 / 2).floor : Int) : Rat)| + 1 ≤ 2 ^ 52 := by
  obtain ⟨low, high⟩ := abs_le.mp (le_sub_iff_add_le.mpr room)
  have below : -(2 ^ 52 - 1) ≤ (q + 1 / 2).floor := Rat.le_floor_iff.mpr (by push_cast; linarith)
  have above : (q + 1 / 2).floor < 2 ^ 52 := Rat.floor_lt_iff.mpr (by push_cast; linarith)
  have : |(q + 1 / 2).floor| + 1 ≤ 2 ^ 52 := le_sub_iff_add_le.mp (abs_le.mpr ⟨below, by omega⟩)
  exact_mod_cast this

/-- Rounding one half more does not lead below the whole number under it. -/
theorem Rounds.floor_le (h : Rounds (q + 1 / 2) w) (room : |q| + 1 ≤ 2 ^ 52) :
    (q + 1 / 2).floor ≤ w.floor := by
  have whole : IsDouble (((q + 1 / 2).floor : Int) : Rat) := by
    have bound : |(q + 1 / 2).floor| + 1 ≤ 2 ^ 52 := by exact_mod_cast abs_floor_add_half room
    rw [Int.abs_eq_natAbs] at bound
    exact isDouble_intCast (by omega)
  exact Rat.le_floor_iff.mpr ((h _ whole).1 (Rat.floor_le _))

/-- Where a double comes before the next whole number, rounding does not lead there. -/
theorem Rounds.floor_eq (h : Rounds (q + 1 / 2) w) (room : |q| + 1 ≤ 2 ^ 52) {c : Rat}
    (hc : IsDouble c) (low : q + 1 / 2 ≤ c) (high : c < (q + 1 / 2).floor + 1) :
    w.floor = (q + 1 / 2).floor := by
  refine le_antisymm (Int.lt_add_one_iff.mp (Rat.floor_lt_iff.mpr ?_)) (h.floor_le room)
  push_cast
  exact ((h c hc).2 low).trans_lt high

/-- A double that is not rounded down is rounded to the nearest whole number, halves upward. -/
theorem Rounds.floor_of_le (h : Rounds (q + 1 / 2) w) (room : |q| + 1 ≤ 2 ^ 52)
    (le : q ≤ (q + 1 / 2).floor) : w.floor = (q + 1 / 2).floor := by
  refine h.floor_eq room (isDouble_intCast_add_half (abs_floor_add_half room)) ?_ ?_
  · linarith
  · linarith

/-- So is a double below zero that is not rounded up. -/
theorem Rounds.floor_of_ge (h : Rounds (q + 1 / 2) w) (hq : IsDouble q) (room : |q| + 1 ≤ 2 ^ 52)
    (negative : q < 0) (ge : (q + 1 / 2).floor ≤ q) : w.floor = (q + 1 / 2).floor := by
  have below : (q + 1 / 2).floor < 0 := by
    have : (((q + 1 / 2).floor : Int) : Rat) < (0 : Int) := by
      push_cast
      exact ge.trans_lt negative
    exact_mod_cast this
  have next : q + 1 / 2 < (q + 1 / 2).floor + 1 := by
    have := Rat.lt_floor_add_one (q + 1 / 2)
    rwa [Int.cast_add, Int.cast_one] at this
  have last : (((q + 1 / 2).floor : Int) : Rat) ≤ -1 := by
    have : (q + 1 / 2).floor ≤ -1 := by omega
    exact_mod_cast this
  refine h.floor_eq room (hq.add_half room ?_) le_rfl next
  linarith

end

end Milp.Binary64
