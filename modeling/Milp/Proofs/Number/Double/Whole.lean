import Milp.Proofs.Number.Double.Arithmetic

/-!
# Whole numbers and doubles

Small whole numbers are those of doubles, large ones only if they are even. Turning a whole number
into a double, or a double into a whole number, loses nothing where nothing need be lost.
-/

namespace Milp.Binary64

open Float.Model Float.Model.UnpackedFloat

/-! ## Whole numbers -/

/-- Bits that are put together stand for what they were made of. -/
theorem ofFloat_ofBits (b : UInt64) :
    Extended.ofFloat (.ofBits b) = valueOf (unpack Format.binary64 b.toBitVec) :=
  ofFloat_pack (isCanonical_unpack b.toBitVec)

private theorem ofFloat_fields (negative : Bool) {e f : Nat} (he : e < 2047)
    (hf : f < leadingBit) (h : e ≠ 0 ∨ f ≠ 0) :
    Extended.ofFloat (.ofBits (.ofNat (if negative then (1 <<< 63) + (e * 2 ^ 52 + f) else
      e * 2 ^ 52 + f))) = .finite (if e = 0 then scaled negative f (-1074) else
        scaled negative (f + leadingBit) ((e : Int) - 1075)) := by
  have leading := leadingBit_eq
  have bits : (UInt64.ofNat (if negative then (1 <<< 63) + (e * 2 ^ 52 + f) else
      e * 2 ^ 52 + f)).toBitVec.toNat =
        (if negative then 1 else 0) * 2 ^ 63 + (e * 2 ^ 52 + f) := by
    rw [UInt64.toBitVec_ofNat', BitVec.toNat_ofNat, Nat.shiftLeft_eq]
    cases negative <;> simp <;> omega
  have sign : (((if negative then 1 else 0) * 2 ^ 63 + (e * 2 ^ 52 + f)) >>> 63 == 1) =
      negative := by
    rw [Nat.shiftRight_eq_div_pow]
    cases negative <;> simp <;> omega
  have exponent : ((if negative then 1 else 0) * 2 ^ 63 + (e * 2 ^ 52 + f)) >>> 52 % 2048 = e := by
    rw [Nat.shiftRight_eq_div_pow]
    cases negative <;> simp <;> omega
  have fraction : ((if negative then 1 else 0) * 2 ^ 63 + (e * 2 ^ 52 + f)) % leadingBit = f := by
    rw [leading] at hf ⊢
    cases negative <;> simp <;> omega
  rw [ofFloat_ofBits, unpack_eq, bits]
  simp only [sign, exponent, fraction, he.ne, if_false]
  by_cases hz : e = 0
  · have hf : f ≠ 0 := h.resolve_left (not_not.mpr hz)
    cases negative <;> simp [hz, hf, valueOf, scaled_eq, Sign.apply]
  · cases negative <;> simp [hz, valueOf, scaled_eq, Sign.apply]

/-- The double of a sign, a significand and an exponent stands for their number. -/
theorem ofFloat_assemble (negative : Bool) {m : Nat} {e : Int} (h : Canonical m e) :
    Extended.ofFloat (assemble negative m e) = .finite (scaled negative m e) := by
  obtain ⟨pos, below, least, greatest, normal⟩ := h
  have leading := leadingBit_eq
  unfold assemble
  by_cases hm : m < leadingBit
  · obtain rfl : e = -1074 := by omega
    have := ofFloat_fields negative (e := 0) (f := m) (by omega) hm (.inr pos.ne')
    simpa [hm] using this
  · have fields := ofFloat_fields negative (e := (e + 1075).toNat) (f := m - leadingBit)
      (by omega) (by omega) (.inl (by omega))
    have exponent : ((e + 1075).toNat : Int) - 1075 = e := by omega
    have some : (e + 1075).toNat ≠ 0 := by omega
    simp only [some, if_false, exponent, Nat.sub_add_cancel (not_lt.mp hm)] at fields
    simpa only [hm, if_false, Nat.shiftLeft_eq] using fields

theorem unitExponent_one {n : Nat} (hn : 0 < n) :
    BinaryFormat.double.unitExponent n 1 = max ((n.log2 : Int) - 52) (-1074) := by
  have lead : BinaryFormat.scaledBelow n 1 (-(n.log2 : Int)) = false := by
    have low := Nat.log2_self_le hn.ne'
    cases h : n.log2 with
    | zero => simpa [BinaryFormat.scaledBelow] using hn.ne'
    | succ k =>
        rw [h] at low
        change decide (n < 1 <<< (k + 1)) = false
        simpa [Nat.shiftLeft_eq] using low
  have one : (1 : Nat).log2 = 0 := by decide
  unfold BinaryFormat.unitExponent
  simp [one, lead, BinaryFormat.double]

theorem divEven_mul {m d : Nat} (hd : 0 < d) : divEven (m * d) d = m := by
  unfold divEven
  simp [Nat.mul_div_cancel m hd, hd]

/-- A whole number that has the form of a double is not rounded. -/
theorem nearest?_exact {n m : Nat} {e : Int} (hn : 0 < n) (h : Canonical m e)
    (value : (n : Rat) = m * 2 ^ e) : BinaryFormat.double.nearest? n 1 = some (m, e) := by
  have below := (Nat.log2_lt h.pos.ne').mpr h.below
  have normal (he : e ≠ -1074) : 52 ≤ m.log2 :=
    (Nat.le_log2 h.pos.ne').mpr (h.normal.resolve_right he)
  have greatest := h.greatest
  have least := h.least
  have precision : m ≠ 1 <<< BinaryFormat.double.precision := by
    have := h.below
    rw [Nat.shiftLeft_eq]
    change m ≠ 1 * 2 ^ 53
    omega
  have units : BinaryFormat.double.unitExponent n 1 = e ∧ BinaryFormat.unitsAt n 1 e = m := by
    rw [unitExponent_one hn]
    cases e with
    | ofNat k =>
        obtain rfl : n = m * 2 ^ k := by
          rw [Int.ofNat_eq_natCast, zpow_natCast] at value
          exact_mod_cast value
        have := normal (by simp)
        refine ⟨?_, ?_⟩
        · rw [log2_mul_two_pow h.pos]
          simp only [Int.ofNat_eq_natCast] at *
          omega
        · simp only [BinaryFormat.unitsAt, Nat.shiftLeft_eq, Nat.one_mul]
          exact divEven_mul (by positivity)
    | negSucc k =>
        obtain rfl : m = n * 2 ^ (k + 1) := by
          have two : (2 : Rat) ^ (k + 1) ≠ 0 := by positivity
          rw [zpow_negSucc, eq_mul_inv_iff_mul_eq₀ two] at value
          exact_mod_cast value.symm
        rw [log2_mul_two_pow hn] at below normal
        have he : Int.negSucc k ≠ -1074 := by
          omega
        have := normal he
        refine ⟨by omega, ?_⟩
        simp only [BinaryFormat.unitsAt, Nat.shiftLeft_eq]
        simpa using divEven_mul (m := n * 2 ^ (k + 1)) Nat.one_pos
  unfold BinaryFormat.nearest?
  simp only [units.1, units.2, if_neg precision]
  exact if_neg (not_lt.mpr greatest)

/-- The double nearest to a whole number that is that of a double is that double. -/
theorem ofInt?_exact {n : Int} (h : IsDouble n) :
    ∃ x, ofInt? n = some x ∧ Extended.ofFloat x = .finite n := by
  unfold ofInt? ofRat?
  by_cases hn : n = 0
  · refine ⟨0, by simp [hn], ?_⟩
    rw [hn]
    rfl
  · have size : 0 < n.natAbs := Int.natAbs_pos.mpr hn
    rcases h.cases with h | ⟨s, m, e, hc, h⟩
    · exact (hn (by exact_mod_cast h)).elim
    · have magnitude : (n.natAbs : Rat) = m * 2 ^ e := by
        rw [Nat.cast_natAbs, Int.cast_abs, h, abs_apply]
      refine ⟨assemble (decide (n < 0)) m e, ?_, ?_⟩
      · rw [Rat.num_intCast, Rat.den_intCast, if_neg hn, nearest?_exact size hc magnitude]
        rfl
      · rw [ofFloat_assemble _ hc, scaled_eq]
        refine congrArg Extended.finite ?_
        rw [Nat.cast_natAbs, Int.cast_abs] at magnitude
        by_cases hneg : n < 0
        · have : (n : Rat) < 0 := by exact_mod_cast hneg
          rw [abs_of_neg this] at magnitude
          simp [hneg, ← magnitude]
        · have : (0 : Rat) ≤ n := by exact_mod_cast not_lt.mp hneg
          rw [abs_of_nonneg this] at magnitude
          simp [hneg, magnitude]

theorem Canonical.isDouble {m : Nat} {e : Int} (h : Canonical m e) (s : Sign) :
    IsDouble (s.apply m * 2 ^ e) :=
  ⟨_, ofFloat_pack (u := .finite s m e h.pos) h⟩

theorem isDouble_zero : IsDouble 0 :=
  ⟨_, ofFloat_pack (u := .zero .positive) trivial⟩

/-- A small whole number that is not zero has the form of a double. -/
theorem exists_canonical {n : Nat} (hn : 0 < n) (h : n ≤ 2 ^ 53) :
    ∃ m e, Canonical m e ∧ (n : Rat) = m * 2 ^ e := by
  rcases h.lt_or_eq with h | rfl
  · have log := (Nat.log2_lt hn.ne').mpr h
    obtain ⟨k, hk⟩ : ∃ k : Nat, n.log2 + k = 52 := ⟨52 - n.log2, by omega⟩
    have bounds := (Nat.log2_eq_iff (by positivity : n * 2 ^ k ≠ 0)).mp
      ((log2_mul_two_pow hn k).trans hk)
    refine ⟨n * 2 ^ k, -k, ⟨by positivity, bounds.2, by omega, by omega, .inl bounds.1⟩, ?_⟩
    rw [zpow_neg, zpow_natCast]
    push_cast
    rw [mul_assoc, mul_inv_cancel₀ (by positivity), mul_one]
  · exact ⟨2 ^ 52, 1, ⟨by positivity, by norm_num, by norm_num, by norm_num, .inl le_rfl⟩,
      by norm_num⟩

theorem isDouble_intCast {n : Int} (h : n.natAbs ≤ 2 ^ 53) : IsDouble n := by
  by_cases hn : n = 0
  · simpa [hn] using isDouble_zero
  obtain ⟨m, e, hc, value⟩ := exists_canonical (Int.natAbs_pos.mpr hn) h
  rw [Nat.cast_natAbs, Int.cast_abs] at value
  rcases abs_choice (n : Rat) with h | h
  · have := hc.isDouble .positive
    rwa [show ((Sign.positive.apply m : Int) : Rat) = m from rfl, ← value, h] at this
  · have := hc.isDouble .negative
    simp only [Sign.apply, Int.cast_neg, Int.cast_natCast, neg_mul] at this
    rwa [← value, h, neg_neg] at this

/-- Large whole numbers are those of doubles only if they are even. -/
theorem IsDouble.even {n : Int} (h : IsDouble n) (large : 2 ^ 53 ≤ |n|) : Even n := by
  rcases h.cases with hn | ⟨s, m, e, hc, hn⟩
  · rw [Int.cast_eq_zero.mp hn]
    exact Even.zero
  · have size : (2 : Rat) ^ 53 ≤ m * 2 ^ e := by
      rw [← abs_apply s m e, ← hn]
      exact_mod_cast large
    have below : (m : Rat) < 2 ^ 53 := by exact_mod_cast hc.below
    have positive : 0 < e := by
      by_contra he
      have : (2 : Rat) ^ e ≤ 1 := zpow_le_one_of_nonpos₀ (by norm_num) (not_lt.mp he)
      have := mul_le_mul_of_nonneg_left this (Nat.cast_nonneg (α := Rat) m)
      linarith
    obtain ⟨k, rfl⟩ : ∃ k : Nat, e = (k + 1 : Nat) := ⟨e.toNat - 1, by omega⟩
    rw [zpow_natCast] at hn
    have hn : n = s.apply m * 2 ^ (k + 1) := by exact_mod_cast hn
    rw [hn, pow_succ]
    exact (even_two.mul_left _).mul_left _

/-- A double that is not whole is small. -/
theorem IsDouble.small {q : Rat} (h : IsDouble q) (hq : isWhole q = false) : |q| < 2 ^ 52 := by
  rcases h.cases with rfl | ⟨s, m, e, hc, rfl⟩
  · cases hq
  · have below : (m : Rat) < 2 ^ 53 := by exact_mod_cast hc.below
    rw [abs_apply]
    cases e with
    | ofNat k =>
        have whole : ((s.apply m : Int) : Rat) * 2 ^ (Int.ofNat k) = (s.apply m * 2 ^ k : Int) := by
          rw [Int.ofNat_eq_natCast, zpow_natCast]
          push_cast
          rfl
        rw [whole, isWhole, Rat.den_intCast] at hq
        cases hq
    | negSucc k =>
        have half : (2 : Rat) ^ Int.negSucc k ≤ 1 / 2 := by
          rw [zpow_negSucc, one_div]
          have : (2 : Rat) ≤ 2 ^ (k + 1) := by
            exact_mod_cast Nat.le_self_pow (Nat.succ_ne_zero k) 2
          exact inv_anti₀ (by norm_num) this
        have := mul_le_mul_of_nonneg_left half (Nat.cast_nonneg (α := Rat) m)
        linarith

/-! ## Whole numbers near a double -/

theorem roundEven_intCast (n : Int) : roundEven n = n := by
  simp [roundEven]

theorem truncate_intCast (n : Int) : Subtotal.truncate n = n := by
  simp [Subtotal.truncate]

theorem natAbs_roundEven_le {q : Rat} (h : |q| < 2 ^ 52) : (roundEven q).natAbs ≤ 2 ^ 53 := by
  obtain ⟨low, high⟩ := abs_lt.mp h
  have below : -2 ^ 52 ≤ q.floor := Rat.le_floor_iff.mpr (by push_cast; exact low.le)
  have above : q.floor < 2 ^ 52 := Rat.floor_lt_iff.mpr (by push_cast; exact high)
  unfold roundEven
  dsimp only
  split
  · omega
  · split <;> omega

theorem natAbs_truncate_le {q : Rat} (h : |q| < 2 ^ 52) :
    (Subtotal.truncate q).natAbs ≤ 2 ^ 53 := by
  have den : (0 : Rat) < q.den := by exact_mod_cast q.den_pos
  have num : |(q.num : Rat)| < 2 ^ 52 * q.den := by
    rw [← Rat.mul_den_eq_num, abs_mul, abs_of_pos den]
    exact mul_lt_mul_of_pos_right h den
  have num : q.num.natAbs < 2 ^ 52 * q.den := by
    rw [← Int.cast_abs, ← Nat.cast_natAbs] at num
    exact_mod_cast num
  rw [Subtotal.truncate, Int.natAbs_tdiv, Int.natAbs_natCast]
  have := (Nat.div_lt_iff_lt_mul q.den_pos).mpr num
  change q.num.natAbs / q.den ≤ 2 ^ 53
  omega

theorem IsDouble.roundEven {q : Rat} (h : IsDouble q) : IsDouble (roundEven q) := by
  cases hq : isWhole q with
  | true =>
      have whole : (q.num : Rat) = q := Rat.coe_int_num_of_den_eq_one (by simpa [isWhole] using hq)
      rwa [← whole, roundEven_intCast, whole]
  | false => exact isDouble_intCast (natAbs_roundEven_le (h.small hq))

theorem IsDouble.truncate {q : Rat} (h : IsDouble q) : IsDouble (Subtotal.truncate q) := by
  cases hq : isWhole q with
  | true =>
      have whole : (q.num : Rat) = q := Rat.coe_int_num_of_den_eq_one (by simpa [isWhole] using hq)
      rwa [← whole, truncate_intCast, whole]
  | false => exact isDouble_intCast (natAbs_truncate_le (h.small hq))

end Milp.Binary64
