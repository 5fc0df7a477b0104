import Mathlib
import Milp.Linear.Evaluate

/-!
# The bits of a double

The bits of a double and its logical model stand for the same number, and a number in the form of a
double is that of the bits it is packed into.
-/

namespace Milp.Binary64

open Float.Model Float.Model.UnpackedFloat

/-! ## The number of a double -/

theorem leadingBit_eq : leadingBit = 2 ^ 52 := rfl

theorem leadingBit_pos : 0 < leadingBit := by
  rw [leadingBit_eq]
  positivity

/-- The number that an unpacked double stands for. -/
def valueOf : UnpackedFloat → Extended
  | .notANumber => .notANumber
  | .infinity .negative => .negInf
  | .infinity .positive => .posInf
  | .zero _ => .finite 0
  | .finite s m e _ => .finite (s.apply m * 2 ^ e)

/-- A significand and an exponent as they stand in a double. -/
structure Canonical (m : Nat) (e : Int) : Prop where
  pos : 0 < m
  below : m < 2 ^ 53
  least : -1074 ≤ e
  greatest : e ≤ 971
  normal : 2 ^ 52 ≤ m ∨ e = -1074

def IsCanonical : UnpackedFloat → Prop
  | .finite _ m e _ => Canonical m e
  | _ => True

theorem toNat_unpackExponent (b : BitVec 64) :
    (@unpackExponent Format.binary64 b).toNat = (b.toNat >>> 52) % 2048 := by
  simp [unpackExponent]

theorem toNat_unpackMantissa (b : BitVec 64) :
    (@unpackMantissa Format.binary64 b).toNat = b.toNat % leadingBit := by
  simp [unpackMantissa, leadingBit]

theorem ofBitVec_unpackSign (b : BitVec 64) :
    Sign.ofBitVec (@unpackSign Format.binary64 b) =
      if (b.toNat >>> 63) == 1 then .negative else .positive := by
  have small : b.toNat < 2 ^ 64 := b.isLt
  have bit : (@unpackSign Format.binary64 b).toNat = b.toNat >>> 63 := by
    simp [unpackSign]
    omega
  unfold Sign.ofBitVec
  by_cases hb : b.toNat >>> 63 = 1
  · have : @unpackSign Format.binary64 b ≠ 0#1 := by
      intro h
      simp [h, hb] at bit
    simp [this, hb]
  · have : @unpackSign Format.binary64 b = 0#1 := by
      apply BitVec.eq_of_toNat_eq
      rw [bit, Nat.shiftRight_eq_div_pow] at *
      simp
      omega
    simp [this, hb]

theorem toNat_implicit (m : BitVec 52) : (1#1 ++ m).toNat = m.toNat + leadingBit := by
  rw [BitVec.toNat_append, ← Nat.shiftLeft_add_eq_or_of_lt m.isLt, Nat.add_comm]
  rfl

/-- A power of two times a whole number, as the bits of a double say it. -/
theorem scaled_eq (negative : Bool) (m : Nat) (e : Int) :
    scaled negative m e = (if negative then -(m : Int) else m : Int) * (2 : Rat) ^ e := by
  unfold scaled
  cases e with
  | ofNat k =>
      simp [Nat.shiftLeft_eq]
  | negSucc k =>
      simp only [zpow_negSucc, Nat.shiftLeft_eq, one_mul]
      rw [Rat.mkRat_eq_div]
      push_cast
      ring

private theorem exponentBias_eq : Format.binary64.exponentBias = 1023 := by
  decide

/-- What the model of a double reads off its bits. -/
theorem unpack_eq (b : BitVec 64) :
    unpack Format.binary64 b =
      let s : Sign := if (b.toNat >>> 63) == 1 then .negative else .positive
      let e := (b.toNat >>> 52) % 2048
      let f := b.toNat % leadingBit
      if e = 2047 then (if f = 0 then .infinity s else .notANumber)
      else if e = 0 then
        (if h : f = 0 then .zero s else .finite s f (-1074) (Nat.pos_of_ne_zero h))
      else .finite s (f + leadingBit) ((e : Int) - 1075) (Nat.add_pos_right _ leadingBit_pos) := by
  have all : (-1#11).toNat = 2047 := rfl
  have noExponent : (0#11).toNat = 0 := rfl
  have noFraction : (0#52).toNat = 0 := rfl
  unfold UnpackedFloat.unpack
  simp only [ofBitVec_unpackSign, BitVec.toNat_inj.symm, all, noExponent, noFraction,
    toNat_unpackExponent, toNat_unpackMantissa, toNat_implicit, exponentBias_eq]
  by_cases he : b.toNat >>> 52 % 2048 = 0
  · simp [he]
  · simp [he]

/-- The bits of a double are read in the same way by its model. -/
theorem ofFloat_eq (x : Float) : Extended.ofFloat x = valueOf x.toModel.unpack := by
  have bits : x.toBits.toNat = x.toModel.toBits.toBitVec.toNat := rfl
  unfold Extended.ofFloat parts Float.Model.unpack
  rw [unpack_eq, bits]
  dsimp only
  generalize x.toModel.toBits.toBitVec.toNat = n
  by_cases he : n >>> 52 % 2048 = 2047
  · by_cases hf : n % leadingBit = 0 <;> cases (n >>> 63 == 1) <;> simp [he, hf, valueOf]
  · by_cases hz : n >>> 52 % 2048 = 0
    · by_cases hf : n % leadingBit = 0 <;> cases (n >>> 63 == 1) <;>
        simp [hz, hf, valueOf, scaled_eq, Sign.apply]
    · cases (n >>> 63 == 1) <;> simp [he, hz, valueOf, scaled_eq, Sign.apply]

theorem isCanonical_unpack (b : BitVec 64) : IsCanonical (unpack Format.binary64 b) := by
  rw [unpack_eq]
  have fraction : b.toNat % leadingBit < leadingBit := Nat.mod_lt _ leadingBit_pos
  have exponent : b.toNat >>> 52 % 2048 < 2048 := Nat.mod_lt _ (by decide)
  have leading := leadingBit_eq
  dsimp only
  split
  · split <;> trivial
  · split
    · split
      · trivial
      · constructor <;> omega
    · constructor <;> omega

/-! ## Packing -/

private theorem unpack_packComponents (s : Sign) {e f : Nat} (he : e < 2047) (hf : f < leadingBit) :
    unpack Format.binary64 (packComponents Format.binary64 s (BitVec.ofNat 11 e)
      (BitVec.ofNat 52 f)) =
      if e = 0 then
        (if h : f = 0 then .zero s else .finite s f (-1074) (Nat.pos_of_ne_zero h))
      else .finite s (f + leadingBit) ((e : Int) - 1075) (Nat.add_pos_right _ leadingBit_pos) := by
  have exponent : (BitVec.ofNat 11 e).toNat = e := by
    rw [BitVec.toNat_ofNat]
    omega
  have fraction : (BitVec.ofNat 52 f).toNat = f := by
    rw [BitVec.toNat_ofNat]
    exact Nat.mod_eq_of_lt hf
  have all : (-1#11).toNat = 2047 := rfl
  have noExponent : (0#11).toNat = 0 := rfl
  have noFraction : (0#52).toNat = 0 := rfl
  unfold UnpackedFloat.unpack
  simp only [unpackMantissa_packComponents, unpackExponent_packComponents,
    unpackSign_packComponents, Sign.ofBitVec_toBitVec, BitVec.toNat_inj.symm, all, noExponent,
    noFraction, exponent, fraction, toNat_implicit, exponentBias_eq, he.ne, if_false]
  by_cases h : e = 0
  · simp [h]
  · simp [h]

/-- A double in canonical form is what is unpacked after it was packed. -/
theorem unpack_pack {u : UnpackedFloat} (h : IsCanonical u) :
    unpack Format.binary64 (pack Format.binary64 u) = u := by
  cases u with
  | notANumber => rfl
  | infinity s => cases s <;> rfl
  | zero s => cases s <;> rfl
  | finite s m e hm =>
      have leading := leadingBit_eq
      have bits : 2 ^ Format.binary64.exponentBits = 2048 := rfl
      have precision : Format.binary64.mantissaBits = 53 := rfl
      obtain ⟨-, below, least, greatest, normal⟩ := h
      have biased : (((e + 1023 + 52).toNat : Nat) : Int) = e + 1075 := by omega
      unfold UnpackedFloat.pack
      simp only [exponentBias_eq, bits, precision]
      have room : ¬ 2048 ≤ (e + ((1023 : Nat) : Int) + ((52 : Nat) : Int)).toNat + 1 := by omega
      rw [if_neg room]
      by_cases hn : 2 ^ 52 ≤ m
      · have log : m.log2 + 1 = 53 := by
          have := (Nat.le_log2 hm.ne').mpr hn
          have := (Nat.log2_lt hm.ne').mpr below
          omega
        have fraction : BitVec.ofNat 52 m = BitVec.ofNat 52 (m - leadingBit) := by
          apply BitVec.eq_of_toNat_eq
          simp only [BitVec.toNat_ofNat]
          omega
        rw [if_pos log, fraction, unpack_packComponents s (by omega) (by omega),
          if_neg (by omega)]
        simp only [UnpackedFloat.finite.injEq, true_and]
        omega
      · have log : ¬ m.log2 + 1 = 53 := by
          have := (Nat.log2_lt hm.ne').mpr (by omega : m < 2 ^ 52)
          omega
        rw [if_neg log]
        have := unpack_packComponents s (e := 0) (f := m) (by omega) (by omega)
        rw [if_pos rfl, dif_neg hm.ne'] at this
        obtain rfl : e = -1074 := by omega
        exact this

/-! ## Doubles -/

theorem unpack_ofModel_pack {u : UnpackedFloat} (h : IsCanonical u) :
    (Float.Model.pack u).unpack = u :=
  unpack_pack h

theorem isCanonical_toModel (x : Float) : IsCanonical x.toModel.unpack :=
  isCanonical_unpack x.toModel.toBits.toBitVec

/-- A number is that of a double. -/
def IsDouble (q : Rat) : Prop :=
  ∃ x : Float, Extended.ofFloat x = .finite q

/-- The number of a double is zero, or has a sign, a significand and an exponent. -/
theorem IsDouble.cases {q : Rat} (h : IsDouble q) :
    q = 0 ∨ ∃ (s : Sign) (m : Nat) (e : Int), Canonical m e ∧ q = s.apply m * 2 ^ e := by
  obtain ⟨x, hx⟩ := h
  have canonical := isCanonical_toModel x
  rw [ofFloat_eq] at hx
  cases hu : x.toModel.unpack with
  | notANumber => simp [hu, valueOf] at hx
  | infinity s => cases s <;> simp [hu, valueOf] at hx
  | zero s => exact .inl (by simpa [hu, valueOf, eq_comm] using hx)
  | finite s m e hm =>
      rw [hu] at hx canonical
      exact .inr ⟨s, m, e, canonical, (Extended.finite.inj hx).symm⟩

theorem ofFloat_pack {u : UnpackedFloat} (h : IsCanonical u) :
    Extended.ofFloat (.ofModel (.pack u)) = valueOf u := by
  rw [ofFloat_eq, unpack_ofModel_pack h]

end Milp.Binary64
