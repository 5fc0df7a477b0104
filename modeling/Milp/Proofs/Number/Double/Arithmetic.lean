import Milp.Proofs.Number.Double.Bits

/-!
# Doubles that do not round

Where the sum or the product of two doubles is itself the number of a double, adding or multiplying
them gives that number and nothing is rounded.
-/

namespace Milp.Binary64

open Float.Model Float.Model.UnpackedFloat

/-! ## Rounding what need not be rounded -/

theorem log2_mul_two_pow {m : Nat} (hm : 0 < m) (k : Nat) : (m * 2 ^ k).log2 = m.log2 + k := by
  induction k with
  | zero => simp
  | succ k ih =>
      have hk : m * 2 ^ k ≠ 0 := by positivity
      rw [pow_succ, ← Nat.mul_assoc, Nat.mul_comm, Nat.log2_two_mul hk, ih]
      rfl

theorem totalExponent_mul_two_pow {m : Nat} (hm : 0 < m) (e : Int) (k : Nat) :
    totalExponent (m * 2 ^ k) e = totalExponent m (e + k) := by
  unfold totalExponent
  rw [log2_mul_two_pow hm]
  push_cast
  ring

/-- The exponent that a number is rounded to is the one of a double of its size. -/
theorem targetExponent_totalExponent (m : Nat) (e : Int) :
    Format.binary64.targetExponent (totalExponent m e) =
      max ((m.log2 : Int) + 1 + e - 53) (-1074) := by
  have minimum : Format.binary64.minExponent = -1074 := by decide
  have precision : (Format.binary64.mantissaBits : Int) = 53 := rfl
  rw [Format.targetExponent, minimum, precision]
  rfl

theorem targetExponent_eq {m : Nat} {e : Int} (h : Canonical m e) :
    Format.binary64.targetExponent (totalExponent m e) = e := by
  have below := (Nat.log2_lt h.pos.ne').mpr h.below
  rw [targetExponent_totalExponent]
  rcases h.normal with hn | he
  · have normal := (Nat.le_log2 h.pos.ne').mpr hn
    have := h.least
    omega
  · omega

/-- Bits that are shifted out leave a significand, and the knowledge whether some were not zero. -/
theorem shiftRight_eq (m k : Nat) :
    ∃ round sticky, ExtendedMantissa.ofMantissaAndAccuracy m .exact >>> k =
        ⟨m / 2 ^ k, round, sticky⟩ ∧ ((round || sticky) = false ↔ m % 2 ^ k = 0) := by
  change ∃ round sticky, k.repeat ExtendedMantissa.shiftRightOne ⟨m, false, false⟩ = _ ∧ _
  induction k with
  | zero => exact ⟨false, false, by simp [Nat.repeat], by simp [Nat.mod_one]⟩
  | succ k ih =>
      obtain ⟨round, sticky, shifted, exact⟩ := ih
      refine ⟨m / 2 ^ k % 2 != 0, round || sticky, ?_, ?_⟩
      · rw [Nat.repeat, shifted, ExtendedMantissa.shiftRightOne, Nat.div_div_eq_div_mul, pow_succ]
      · have digits := Nat.mod_pow_succ (b := 2) (k := k) (x := m)
        rw [Bool.or_eq_false_iff, exact, digits]
        simp [and_comm]

/-- Bits that are zero are shifted out without a trace. -/
theorem shiftRight_exact (m k : Nat) :
    ExtendedMantissa.ofMantissaAndAccuracy (m * 2 ^ k) .exact >>> k = ⟨m, false, false⟩ := by
  obtain ⟨round, sticky, shifted, exact⟩ := shiftRight_eq (m * 2 ^ k) k
  obtain ⟨rfl, rfl⟩ := Bool.or_eq_false_iff.mp (exact.mpr (Nat.mul_mod_left m (2 ^ k)))
  rw [shifted, Nat.mul_div_cancel m (by positivity)]

theorem shiftToTargetExponent_exact {m : Nat} {e : Int} (h : Canonical m e) (k : Nat) :
    shiftToTargetExponent Format.binary64 (m * 2 ^ k) (e - k) .exact = (⟨m, false, false⟩, e) := by
  have target : Format.binary64.targetExponent (totalExponent (m * 2 ^ k) (e - k)) = e := by
    rw [totalExponent_mul_two_pow h.pos, Int.sub_add_cancel, targetExponent_eq h]
  have amount : (e - (e - k)).toNat = k := by omega
  unfold shiftToTargetExponent shiftToExponent
  dsimp only
  rw [target, amount, shiftRight_exact]
  simp

/-- A number that has the form of a double once zeros are shifted out is not rounded. -/
theorem roundWithAccuracy_exact (s : Sign) {m : Nat} {e : Int} (h : Canonical m e) (k : Nat) :
    roundWithAccuracy Format.binary64 s (m * 2 ^ k) (e - k) .exact = .finite s m e h.pos := by
  have again := shiftToTargetExponent_exact h 0
  rw [pow_zero, Nat.mul_one, Nat.cast_zero, Int.sub_zero] at again
  unfold roundWithAccuracy
  rw [shiftToTargetExponent_exact h]
  change (let (em, e') := shiftToTargetExponent Format.binary64 m e .exact
    if h : em.mantissa = 0 then UnpackedFloat.zero s
    else .finite s em.mantissa e' (Nat.pos_of_ne_zero h)) = _
  rw [again]
  simp [h.pos.ne']

theorem eq_mul_two_pow {m m' : Nat} {e : Int} {k : Nat}
    (value : (m' : Rat) * 2 ^ e = m * 2 ^ (e + k)) : m' = m * 2 ^ k := by
  have two : (2 : Rat) ≠ 0 := by norm_num
  have shifted : (m : Rat) * 2 ^ (e + k) = (m * 2 ^ k) * 2 ^ e := by
    rw [zpow_add₀ two, zpow_natCast]
    ring
  rw [shifted] at value
  exact_mod_cast mul_right_cancel₀ (zpow_ne_zero e two) value

/-- `UnpackedFloat.round` leaves a number as it is that has the form of a double. -/
theorem round_exact (s : Sign) {m m' : Nat} {e e' : Int} (h : Canonical m e)
    (value : (m' : Rat) * 2 ^ e' = m * 2 ^ e) :
    UnpackedFloat.round Format.binary64 s m' e' = .finite s m e h.pos := by
  unfold UnpackedFloat.round decreaseExponent
  rcases le_total e' e with he | he
  · obtain ⟨k, rfl⟩ : ∃ k : Nat, e = e' + k := ⟨(e - e').toNat, by omega⟩
    obtain rfl := eq_mul_two_pow value
    rw [totalExponent_mul_two_pow h.pos, targetExponent_eq h]
    have amount : (e' - (e' + (k : Int))).toNat = 0 := by omega
    have exact := roundWithAccuracy_exact s h k
    rw [Int.add_sub_cancel] at exact
    simpa [amount] using exact
  · obtain ⟨k, rfl⟩ : ∃ k : Nat, e' = e + k := ⟨(e' - e).toNat, by omega⟩
    obtain rfl := eq_mul_two_pow value.symm
    have pos : 0 < m' := Nat.pos_of_mul_pos_right h.pos
    rw [← totalExponent_mul_two_pow pos, targetExponent_eq h]
    have amount : (e + (k : Int) - e).toNat = k := by omega
    have exact := roundWithAccuracy_exact s h 0
    simp only [pow_zero, Nat.mul_one, Nat.cast_zero, Int.sub_zero] at exact
    simpa [amount, Nat.shiftLeft_eq] using exact

/-! ## Operations -/

theorem two_zpow_pos (e : Int) : (0 : Rat) < 2 ^ e :=
  zpow_pos (by norm_num) e

theorem abs_apply (s : Sign) (m : Nat) (e : Int) :
    |((s.apply m : Int) : Rat) * 2 ^ e| = m * 2 ^ e := by
  have size : (0 : Rat) ≤ m * 2 ^ e := mul_nonneg (Nat.cast_nonneg m) (two_zpow_pos e).le
  cases s with
  | negative =>
      simp only [Sign.apply, Int.cast_neg, Int.cast_natCast, neg_mul, abs_neg]
      exact abs_of_nonneg size
  | positive =>
      simp only [Sign.apply, Int.cast_natCast]
      exact abs_of_nonneg size

/-- The magnitude of the number of a double has a form that is not rounded. -/
theorem IsDouble.magnitude {s : Sign} {m : Nat} {e : Int} (hm : 0 < m)
    (h : IsDouble (s.apply m * 2 ^ e)) :
    ∃ m' e', Canonical m' e' ∧ (m : Rat) * 2 ^ e = m' * 2 ^ e' := by
  rcases h.cases with h | ⟨s', m', e', hc, h⟩
  · have size : (m : Rat) * 2 ^ e = 0 := by rw [← abs_apply s, h, abs_zero]
    have : (0 : Rat) < m := by exact_mod_cast hm
    exact ((mul_pos this (two_zpow_pos e)).ne' size).elim
  · exact ⟨m', e', hc, by rw [← abs_apply s, h, abs_apply]⟩

theorem round_isDouble {s : Sign} {m : Nat} {e : Int} (hm : 0 < m)
    (h : IsDouble (s.apply m * 2 ^ e)) :
    IsCanonical (UnpackedFloat.round Format.binary64 s m e) ∧
      valueOf (UnpackedFloat.round Format.binary64 s m e) = .finite (s.apply m * 2 ^ e) := by
  obtain ⟨m', e', hc, value⟩ := h.magnitude hm
  rw [round_exact s hc value]
  refine ⟨hc, congrArg Extended.finite ?_⟩
  cases s <;> simp [Sign.apply, value]

/-- A whole multiple of a power of two that is the number of a double is rounded to it. -/
theorem normalize_exact {n : Int} {e : Int} (z : Sign) (h : IsDouble ((n : Rat) * 2 ^ e)) :
    IsCanonical (normalize Format.binary64 n e z) ∧
      valueOf (normalize Format.binary64 n e z) = .finite (n * 2 ^ e) := by
  unfold UnpackedFloat.normalize
  rcases lt_trichotomy n 0 with hn | rfl | hn
  · have sign : n = Sign.negative.apply (-n).toNat := by
      simp only [Sign.apply]
      omega
    rw [Int.compare_eq_lt.mpr hn]
    rw [sign] at h
    have := round_isDouble (by omega) h
    rwa [← sign] at this
  · simp [IsCanonical, valueOf]
  · have sign : n = Sign.positive.apply n.toNat := by
      simp only [Sign.apply]
      omega
    rw [Int.compare_eq_gt.mpr hn]
    rw [sign] at h
    have := round_isDouble (by omega) h
    rwa [← sign] at this

theorem decreaseExponent_exact (s : Sign) (m : Nat) {e e' : Int} (h : e' ≤ e) :
    ((s.apply (decreaseExponent m e e').1 : Int) : Rat) * 2 ^ e' = s.apply m * 2 ^ e := by
  obtain ⟨k, rfl⟩ : ∃ k : Nat, e = e' + k := ⟨(e - e').toNat, by omega⟩
  have amount : (e' + (k : Int) - e').toNat = k := by omega
  simp only [decreaseExponent, amount, Nat.shiftLeft_eq]
  rw [zpow_add₀ (by norm_num), zpow_natCast]
  cases s <;> simp only [Sign.apply] <;> push_cast <;> ring

/-- The sum of two doubles is a whole number of the smaller of their units. -/
theorem add_eq_units {s s' : Sign} {m m' : Nat} {e e' : Int} {hm : 0 < m} {hm' : 0 < m'} {a b : Rat}
    (ha : valueOf (.finite s m e hm) = .finite a) (hb : valueOf (.finite s' m' e' hm') = .finite b) :
    a + b = (((s.apply (decreaseExponent m e (min e e')).1 +
      s'.apply (decreaseExponent m' e' (min e e')).1 : Int)) : Rat) * 2 ^ min e e' := by
  rw [Int.cast_add, add_mul, decreaseExponent_exact s m (min_le_left e e'),
    decreaseExponent_exact s' m' (min_le_right e e')]
  rw [← Extended.finite.inj ha, ← Extended.finite.inj hb]

/-- Adding two doubles gives their sum where that is the number of a double. -/
theorem add_exact {u v : UnpackedFloat} (hu : IsCanonical u) (hv : IsCanonical v) {a b : Rat}
    (ha : valueOf u = .finite a) (hb : valueOf v = .finite b) (h : IsDouble (a + b)) :
    IsCanonical (UnpackedFloat.add Format.binary64 u v) ∧
      valueOf (UnpackedFloat.add Format.binary64 u v) = .finite (a + b) := by
  cases u with
  | notANumber => cases ha
  | infinity s => cases s <;> cases ha
  | zero s =>
      cases v with
      | notANumber => cases hb
      | infinity s' => cases s' <;> cases hb
      | zero s' =>
          obtain rfl := Extended.finite.inj ha
          obtain rfl := Extended.finite.inj hb
          rw [zero_add]
          cases s <;> cases s' <;> exact ⟨trivial, rfl⟩
      | finite s' m' e' hm' =>
          obtain rfl := Extended.finite.inj ha
          exact ⟨hv, by rw [zero_add]; exact hb⟩
  | finite s m e hm =>
      cases v with
      | notANumber => cases hb
      | infinity s' => cases s' <;> cases hb
      | zero s' =>
          obtain rfl := Extended.finite.inj hb
          exact ⟨hu, by rw [add_zero]; exact ha⟩
      | finite s' m' e' hm' =>
          rw [add_eq_units ha hb] at h ⊢
          exact normalize_exact .positive h

theorem ofFloat_add {x y : Float} {a b : Rat} (hx : Extended.ofFloat x = .finite a)
    (hy : Extended.ofFloat y = .finite b) (h : IsDouble (a + b)) :
    Extended.ofFloat (x + y) = .finite (a + b) := by
  rw [ofFloat_eq] at hx hy
  obtain ⟨canonical, value⟩ :=
    add_exact (isCanonical_toModel x) (isCanonical_toModel y) hx hy h
  change Extended.ofFloat (.ofModel (.pack (UnpackedFloat.add _ x.toModel.unpack _))) = _
  rw [ofFloat_pack canonical, value]

theorem apply_mul (s s' : Sign) (n k : Int) :
    (s * s').apply (n * k) = s.apply n * s'.apply k := by
  cases s <;> cases s'
  · exact (neg_mul_neg n k).symm
  · exact (neg_mul n k).symm
  · exact (mul_neg n k).symm
  · rfl

/-- The unit of a product is not above that of the double that it is. -/
theorem Canonical.mul_le {m m' m'' : Nat} {e e' e'' : Int} (h : Canonical m e)
    (h' : Canonical m' e') (h'' : Canonical m'' e'')
    (value : ((m * m' : Nat) : Rat) * 2 ^ (e + e') = m'' * 2 ^ e'') : e + e' ≤ e'' := by
  -- Otherwise a normal factor makes the significand too large, and without one the unit is tiny.
  by_contra above
  obtain ⟨k, hk⟩ : ∃ k : Nat, e + e' = e'' + (k + 1 : Nat) := ⟨(e + e' - e'' - 1).toNat, by omega⟩
  rw [hk] at value
  have hm : m'' = m * m' * 2 ^ (k + 1) := eq_mul_two_pow value.symm
  have large : m * m' * 2 ≤ m'' := by
    have : 2 ≤ 2 ^ (k + 1) := Nat.le_self_pow (by omega) 2
    exact hm ▸ Nat.mul_le_mul_left (m * m') this
  have := h''.below
  have := h''.least
  have := h.pos
  have := h'.pos
  rcases h.normal with hn | he
  · nlinarith
  · rcases h'.normal with hn | he'
    · nlinarith
    · omega

/-- Multiplying two doubles gives their product where that is the number of a double. -/
theorem mul_exact {u v : UnpackedFloat} (hu : IsCanonical u) (hv : IsCanonical v) {a b : Rat}
    (ha : valueOf u = .finite a) (hb : valueOf v = .finite b) (h : IsDouble (a * b)) :
    IsCanonical (UnpackedFloat.mul Format.binary64 u v) ∧
      valueOf (UnpackedFloat.mul Format.binary64 u v) = .finite (a * b) := by
  cases u with
  | notANumber => cases ha
  | infinity s => cases s <;> cases ha
  | zero s =>
      obtain rfl := Extended.finite.inj ha
      rw [zero_mul]
      cases v with
      | notANumber => cases hb
      | infinity s' => cases s' <;> cases hb
      | zero s' => exact ⟨trivial, rfl⟩
      | finite s' m' e' hm' => exact ⟨trivial, rfl⟩
  | finite s m e hm =>
      cases v with
      | notANumber => cases hb
      | infinity s' => cases s' <;> cases hb
      | zero s' =>
          obtain rfl := Extended.finite.inj hb
          rw [mul_zero]
          exact ⟨trivial, rfl⟩
      | finite s' m' e' hm' =>
          have product : a * b = ((s * s').apply (m * m' : Nat) : Int) * 2 ^ (e + e') := by
            rw [← Extended.finite.inj ha, ← Extended.finite.inj hb, Nat.cast_mul, apply_mul,
              zpow_add₀ (by norm_num)]
            push_cast
            ring
          rw [product] at h ⊢
          obtain ⟨m'', e'', hc, value⟩ := h.magnitude (Nat.mul_pos hm hm')
          obtain ⟨k, rfl⟩ : ∃ k : Nat, e'' = e + e' + k :=
            ⟨(e'' - (e + e')).toNat, by have := Canonical.mul_le hu hv hc value; omega⟩
          have exact := roundWithAccuracy_exact (s * s') hc k
          rw [← eq_mul_two_pow value, Int.add_sub_cancel] at exact
          simp only [UnpackedFloat.mul, exact]
          refine ⟨hc, congrArg Extended.finite ?_⟩
          cases s * s' <;> simp [Sign.apply, ← value]

theorem ofFloat_mul {x y : Float} {a b : Rat} (hx : Extended.ofFloat x = .finite a)
    (hy : Extended.ofFloat y = .finite b) (h : IsDouble (a * b)) :
    Extended.ofFloat (x * y) = .finite (a * b) := by
  rw [ofFloat_eq] at hx hy
  obtain ⟨canonical, value⟩ :=
    mul_exact (isCanonical_toModel x) (isCanonical_toModel y) hx hy h
  change Extended.ofFloat (.ofModel (.pack (UnpackedFloat.mul _ x.toModel.unpack _))) = _
  rw [ofFloat_pack canonical, value]

end Milp.Binary64
