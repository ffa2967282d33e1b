import Recourse.Proofs.Decimal.Rounding

/-! Whole numbers divided as floating-point numbers. A whole number with no more than fifty-three
binary digits is a number as it is, the quotient of two numbers is nearest to the quotient of their
values, and such whole numbers have a quotient whose whole part survives the rounding. -/

namespace Recourse.Decimal

open Float.Model Float.Model.UnpackedFloat

/-! ### Whole numbers -/

theorem exists_ofNat {n : ℕ} (hpos : 0 < n) (hn : n < 2 ^ 53) :
    ∃ x : Normal, UnpackedFloat.ofNat Format.binary64 n = x.unpacked ∧ x.value = n := by
  have hlog : n.log2 < 53 := (Nat.log2_lt hpos.ne').mpr hn
  obtain ⟨a, ha⟩ : ∃ a, a + n.log2 = 52 := ⟨52 - n.log2, by omega⟩
  have htarget : Format.binary64.targetExponent (totalExponent n 0) = -(a : ℤ) := by
    rw [targetExponent_eq]
    omega
  have hcompare : compare (n : ℤ) 0 = .gt := compare_gt_iff_gt.mpr (by omega)
  have hround : UnpackedFloat.ofNat Format.binary64 n =
      roundWithAccuracy Format.binary64 .positive (n * 2 ^ a * 2 ^ 0) (-a) .exact := by
    simp [UnpackedFloat.ofNat, UnpackedFloat.ofInt, UnpackedFloat.normalize, hcompare,
      UnpackedFloat.round,
      decreaseExponent, htarget, Nat.shiftLeft_eq]
  have hbounds := (Nat.log2_eq_iff hpos.ne').mp rfl
  have hlow : 2 ^ 52 ≤ n * 2 ^ a := by
    rw [← ha, add_comm, pow_add]
    exact Nat.mul_le_mul_right _ hbounds.1
  have hhigh : n * 2 ^ a < 2 ^ 53 := by
    have hsum : 53 = n.log2 + 1 + a := by omega
    rw [hsum, pow_add]
    exact Nat.mul_lt_mul_of_pos_right hbounds.2 (Nat.two_pow_pos a)
  obtain ⟨x, hx, hvalue⟩ := exists_roundWithAccuracy_exact (k := 0) (e := -a) hlow hhigh
    (by omega) (by omega)
  refine ⟨x, hround.trans hx, ?_⟩
  rw [hvalue, Nat.cast_zero, add_zero, zpow_neg, zpow_natCast]
  push_cast
  exact mul_inv_cancel_right₀ (by positivity) _

namespace Normal

variable (x y : Normal)

/-! ### Products and quotients -/

def one : Normal := ⟨2 ^ 52, -52, le_rfl, by norm_num, by norm_num, by norm_num⟩

theorem toFloat_one : one.toFloat = Float.ofBits 0x3FF0000000000000 := by decide

theorem exists_mul_one (hx : x.exponent ≤ 970) :
    ∃ z : Normal, x.toFloat * one.toFloat = z.toFloat ∧ z.value = x.value := by
  have hmul : x.toFloat * one.toFloat = .ofModel
      (.pack (UnpackedFloat.mul Format.binary64 x.unpacked one.unpacked)) := by
    rw [← unpack_toFloat, ← unpack_toFloat]
    rfl
  have hround : UnpackedFloat.mul Format.binary64 x.unpacked one.unpacked =
      roundWithAccuracy Format.binary64 .positive (x.mantissa * 2 ^ 52) (x.exponent + -52) .exact :=
      rfl
  have hexponent : x.exponent + -52 + (52 : ℕ) = x.exponent := neg_add_cancel_right x.exponent 52
  obtain ⟨z, hz, hvalue⟩ := exists_roundWithAccuracy_exact (k := 52)
    (e := x.exponent + -52) x.le_mantissa x.mantissa_lt
    (x.le_exponent.trans hexponent.ge) (hexponent.le.trans hx)
  rw [hexponent] at hvalue
  rw [hmul, hround, hz]
  exact ⟨z, rfl, hvalue⟩

theorem divCore_eq (h : -1021 ≤ x.exponent - y.exponent) :
    divCore Format.binary64 x.mantissa x.exponent y.mantissa y.exponent =
      (x.mantissa * 2 ^ 53 / y.mantissa, x.exponent - y.exponent - 53,
        accuracyOfFraction (x.mantissa * 2 ^ 53 % y.mantissa) y.mantissa) := by
  have htarget : Format.binary64.targetExponent
      (totalExponent x.mantissa x.exponent - totalExponent y.mantissa y.exponent) = x.exponent -
      y.exponent - 53 := by
    simp only [totalExponent, log2_mantissa, Format.targetExponent, Format.mantissaBits,
      Format.minExponent]
    norm_num
    omega
  have hmin : min (x.exponent - y.exponent)
      (x.exponent - y.exponent - 53) = x.exponent - y.exponent - 53 := by omega
  have hshift : (x.exponent - y.exponent - (x.exponent - y.exponent - 53)).toNat = 53 := by omega
  simp only [divCore, htarget, hmin, hshift, Nat.shiftLeft_eq]

/-- Nearest to a value among the multiples of its fifty-third binary place. -/
def Nearest (v : ℚ) : Prop :=
  ∃ (r : ℕ) (e : ℤ), x.value = r * 2 ^ e ∧ 2 ^ 52 * 2 ^ e ≤ v ∧ |r - v / 2 ^ e| ≤ 1 / 2

/-- A quotient of numbers is nearest to the quotient of their values. -/
theorem exists_div (hlow : -1021 ≤ x.exponent - y.exponent)
    (hhigh : x.exponent - y.exponent ≤ 1022) :
    ∃ z : Normal, x.toFloat / y.toFloat = z.toFloat ∧ z.Nearest (x.value / y.value) := by
  have hdiv : x.toFloat / y.toFloat = .ofModel
      (.pack (UnpackedFloat.div Format.binary64 x.unpacked y.unpacked)) := by
    rw [← unpack_toFloat, ← unpack_toFloat]
    rfl
  have hround : UnpackedFloat.div Format.binary64 x.unpacked y.unpacked =
      roundWithAccuracy Format.binary64 .positive
      (divCore Format.binary64 x.mantissa x.exponent y.mantissa y.exponent).1
        (divCore Format.binary64 x.mantissa x.exponent y.mantissa y.exponent).2.1
        (divCore Format.binary64 x.mantissa x.exponent y.mantissa y.exponent).2.2 := rfl
  -- the quotient of the mantissas has fifty-three digits, or one more if the first is not the
  -- smaller one
  obtain ⟨k, hk, hfew, hmany⟩ : ∃ k, k ≤ 1 ∧ 2 ^ 52 * (y.mantissa * 2 ^ k) ≤ x.mantissa * 2 ^ 53 ∧
      x.mantissa * 2 ^ 53 < 2 ^ 53 * (y.mantissa * 2 ^ k) := by
    have := x.le_mantissa
    have := x.mantissa_lt
    have := y.le_mantissa
    have := y.mantissa_lt
    rcases lt_or_ge x.mantissa y.mantissa with hless | hmore
    · exact ⟨0, by omega, by omega, by omega⟩
    · exact ⟨1, by omega, by omega, by omega⟩
  obtain ⟨z, hz, hvalue⟩ := exists_roundWithAccuracy y.mantissa_pos hfew hmany
    (show -1074 ≤ x.exponent - y.exponent - 53 + k by omega) (by omega)
  have hquotient : x.value / y.value = (x.mantissa * 2 ^ 53 : ℕ) / (y.mantissa * 2 ^ k : ℕ) *
      2 ^ (x.exponent - y.exponent - 53 + k) := by
    have hy : (y.mantissa : ℚ) ≠ 0 := by exact_mod_cast y.mantissa_pos.ne'
    rw [value, value, zpow_add₀ two_ne_zero, zpow_sub₀ two_ne_zero, zpow_sub₀ two_ne_zero,
      zpow_natCast]
    push_cast
    field_simp
  have hden : 0 < y.mantissa * 2 ^ k := Nat.mul_pos y.mantissa_pos (Nat.two_pow_pos k)
  rw [hdiv, hround, divCore_eq x y hlow, hz]
  refine ⟨z, rfl, _, _, hvalue, ?_, ?_⟩
  · rw [hquotient]
    refine mul_le_mul_of_nonneg_right ?_ (by positivity)
    rw [le_div_iff₀ (by exact_mod_cast hden)]
    exact_mod_cast hfew
  · rw [hquotient, mul_div_cancel_right₀ _ (by positivity)]
    exact abs_roundDiv_sub_le hden

/-! ### Whole parts -/

variable {x}

/-- What is nearest to a quotient of whole numbers has the whole part of the quotient, as long as
the dividend has no more than fifty-three binary digits. -/
theorem Nearest.floor {n p : ℕ} (h : x.Nearest (n / p)) (hp : 0 < p) (hn : n < 2 ^ 53) :
    ⌊x.value⌋ = (n / p : ℕ) := by
  obtain ⟨r, e, hvalue, hlow, hnear⟩ := h
  obtain ⟨habove, hbelow⟩ := abs_sub_le_iff.mp hnear
  have hunit : (0 : ℚ) < 2 ^ e := by positivity
  have hpos : (0 : ℚ) < p := by exact_mod_cast hp
  have hsmall : (n : ℚ) < 2 ^ 53 := by exact_mod_cast hn
  rw [Int.floor_eq_iff, hvalue, Int.cast_natCast]
  constructor
  · -- the last place is not above the units, so the whole part is one of the multiples that compete
    have hone : (1 : ℚ) ≤ p := by exact_mod_cast hp
    have hexponent : e ≤ 0 := by
      have hlt : (2 : ℚ) ^ e < 2 ^ (1 : ℤ) := by
        have hle : (n : ℚ) / p ≤ n := div_le_self (by positivity) hone
        rw [zpow_one]
        linarith
      have := (zpow_lt_zpow_iff_right₀ one_lt_two).mp hlt
      omega
    obtain ⟨k, hk⟩ := Int.eq_ofNat_of_zero_le (neg_nonneg.mpr hexponent)
    have hshift : (2 : ℚ) ^ e = (2 ^ k)⁻¹ := by rw [← neg_neg e, hk, zpow_neg, zpow_natCast]
    rw [hshift, div_inv_eq_mul] at hbelow
    have hfloor : ((n / p : ℕ) : ℚ) * 2 ^ k ≤ n / p * 2 ^ k :=
      mul_le_mul_of_nonneg_right Nat.cast_div_le (by positivity)
    have hle : n / p * 2 ^ k ≤ r := by
      by_contra hlt
      have hlt : (r : ℚ) + 1 ≤ (n / p : ℕ) * 2 ^ k := by exact_mod_cast not_le.mp hlt
      linarith
    rw [hshift, ← div_eq_mul_inv, le_div_iff₀ (by positivity)]
    exact_mod_cast hle
  · -- the quotient is farther from the next whole number than half of its last place
    have hnext : (n : ℚ) + 1 ≤ ((n / p : ℕ) + 1) * p := by
      have hlt : n < (n / p + 1) * p := by
        rw [mul_comm]
        exact Nat.lt_mul_div_succ n hp
      exact_mod_cast hlt
    have hhalf : 2 ^ e / 2 * (p : ℚ) < 1 := by
      rw [le_div_iff₀ hpos] at hlow
      linarith
    have hquotient : (n : ℚ) / p * p = n := div_mul_cancel₀ _ hpos.ne'
    have hup : r * 2 ^ e ≤ (n : ℚ) / p + 2 ^ e / 2 := by
      have hscaled : (n : ℚ) / p / 2 ^ e * 2 ^ e = n / p := div_mul_cancel₀ _ hunit.ne'
      nlinarith
    refine lt_of_mul_lt_mul_right ?_ hpos.le
    calc r * 2 ^ e * p ≤ ((n : ℚ) / p + 2 ^ e / 2) * p := mul_le_mul_of_nonneg_right hup hpos.le
      _ = n + 2 ^ e / 2 * p := by rw [add_mul, hquotient]
      _ < ((n / p : ℕ) + 1) * p := by linarith

end Normal

theorem exists_ofInt? {n : ℕ} (hpos : 0 < n) (hn : n < 2 ^ 53) :
    ∃ x : Normal, ofInt? n = some x.toFloat ∧ x.value = n ∧ -52 ≤ x.exponent ∧ x.exponent ≤ 0 := by
  obtain ⟨w, hw, hwvalue⟩ := exists_ofNat hpos hn
  have hone : 1 ≤ (n : ℚ) := by exact_mod_cast hpos
  have hlt : (n : ℚ) < 2 ^ 53 := by exact_mod_cast hn
  have hexponent := w.exponent_mem (hwvalue.symm ▸ hone) (hwvalue.symm ▸ hlt)
  obtain ⟨x, hx, hvalue⟩ := w.exists_mul_one (hexponent.2.trans (by norm_num))
  rw [hwvalue] at hvalue
  refine ⟨x, ?_, hvalue, x.exponent_mem (hvalue.symm ▸ hone) (hvalue.symm ▸ hlt)⟩
  have hword : n.toUInt64.toFloat = w.toFloat := by
    have htoNat : n.toUInt64.toNat = n := by
      rw [Nat.toUInt64_eq, UInt64.toNat_ofNat']
      omega
    calc n.toUInt64.toFloat
        = .ofModel (.pack (UnpackedFloat.ofNat Format.binary64 n.toUInt64.toNat)) := rfl
      _ = w.toFloat := by
        rw [htoNat, hw]
        rfl
  -- a decimal without a power of ten is read as a whole number times one
  have hscientific : Float.ofScientific n false 0 = x.toFloat := by
    rw [← hx, ← hword, Normal.toFloat_one]
    exact dif_pos ⟨hn, by norm_num⟩
  rw [ofInt?, Int.natAbs_natCast, hscientific, if_neg (by omega), withinRange, x.isInf_toFloat]
  rfl

/-- Whole numbers with no more than fifty-three binary digits are divided with the right whole
part. -/
theorem truncate?_div {n p : ℕ} (hn : 0 < n) (hp : 0 < p) (hn' : n < 2 ^ 53) (hp' : p < 2 ^ 53) :
    ∃ x y : Float, ofInt? n = some x ∧ ofInt? p = some y ∧ truncate? (x / y) = some (n / p) := by
  obtain ⟨x, hx, hxvalue, hxexponent⟩ := exists_ofInt? hn hn'
  obtain ⟨y, hy, hyvalue, hyexponent⟩ := exists_ofInt? hp hp'
  obtain ⟨z, hz, hnear⟩ := x.exists_div y (by omega) (by omega)
  rw [hxvalue, hyvalue] at hnear
  refine ⟨x.toFloat, y.toFloat, hx, hy, ?_⟩
  rw [hz, z.truncate?_toFloat, hnear.floor hp hn']
  rfl

end Recourse.Decimal
