import Mathlib
import Recourse.Decimal.Whole

/-! Rounding to fifty-three binary digits. A positive floating-point number that has all its digits
is put together from its parts and taken apart again without loss, and a quotient that is rounded is
the multiple of the last place that is nearest to it. -/

namespace Recourse.Decimal

open Float.Model Float.Model.UnpackedFloat

/-! ### Whole parts and what is left over -/

/-- A mantissa is the whole part of a quotient, and its two further digits say how what is left over
compares with one half and whether the digits so far are exact. -/
structure Approximates (em : ExtendedMantissa) (num den : ℕ) : Prop where
  mantissa : em.mantissa = num / den
  half : em.roundBit = true ↔ den ≤ 2 * (num % den)
  rest : em.stickyBit = true ↔ 2 * (num % den) ≠ 0 ∧ 2 * (num % den) ≠ den

variable {em : ExtendedMantissa} {num den : ℕ}

theorem approximates_of_fraction (hden : 0 < den) :
    Approximates (.ofMantissaAndAccuracy (num / den) (accuracyOfFraction (num % den) den))
      num den := by
  unfold accuracyOfFraction
  split_ifs with hzero
  · constructor <;> simp [ExtendedMantissa.ofMantissaAndAccuracy, hzero, hden.ne']
  · rcases lt_trichotomy (2 * (num % den)) den with hlt | heq | hgt
    · rw [compare_lt_iff_lt.mpr hlt]
      exact ⟨rfl, by simp [ExtendedMantissa.ofMantissaAndAccuracy, hlt],
        by simp [ExtendedMantissa.ofMantissaAndAccuracy, hzero, hlt.ne]⟩
    · rw [compare_eq_iff_eq.mpr heq]
      exact ⟨rfl, by simp [ExtendedMantissa.ofMantissaAndAccuracy, heq],
        by simp [ExtendedMantissa.ofMantissaAndAccuracy, heq]⟩
    · rw [compare_gt_iff_gt.mpr hgt]
      exact ⟨rfl, by simp [ExtendedMantissa.ofMantissaAndAccuracy, hgt.le],
        by simp [ExtendedMantissa.ofMantissaAndAccuracy, hzero, hgt.ne']⟩

theorem Approximates.shiftRightOne (h : Approximates em num den) (hden : 0 < den) :
    Approximates em.shiftRightOne num (den * 2) := by
  have hmod : num % (den * 2) = num % den + den * (num / den % 2) := Nat.mod_mul
  have hlt := Nat.mod_lt num hden
  have hbit := Nat.mod_two_eq_zero_or_one (num / den)
  refine ⟨?_, ?_, ?_⟩
  · rw [ExtendedMantissa.shiftRightOne, h.mantissa, Nat.div_div_eq_div_mul]
  · rw [ExtendedMantissa.shiftRightOne, bne_iff_ne, h.mantissa, hmod]
    rcases hbit with hbit | hbit <;> rw [hbit] <;> omega
  · rw [ExtendedMantissa.shiftRightOne, Bool.or_eq_true, h.half, h.rest, hmod]
    rcases hbit with hbit | hbit <;> rw [hbit] <;> omega

theorem Approximates.shiftRight (h : Approximates em num den) (hden : 0 < den) (k : ℕ) :
    Approximates (em >>> k) num (den * 2 ^ k) := by
  induction k with
  | zero =>
    rw [pow_zero, mul_one]
    exact h
  | succ k ih =>
    rw [pow_succ, ← mul_assoc]
    exact ih.shiftRightOne (by positivity)

theorem Approximates.roundedMantissa (h : Approximates em num den) :
    em.roundedMantissa = roundDiv num den := by
  obtain ⟨m, half, rest⟩ := em
  obtain ⟨hm, hhalf, hrest⟩ := h
  dsimp only at hm hhalf hrest
  subst hm
  unfold roundDiv
  -- the two digits say whether nothing is left over, less than one half, one half or more
  cases half <;> cases rest <;>
    simp only [true_iff, false_iff, Bool.false_eq_true] at hhalf hrest <;>
    simp only [ExtendedMantissa.roundedMantissa, ExtendedMantissa.accuracy,
      Accuracy.roundToNearestEven] <;>
    split_ifs <;> omega

/-- Rounding to a whole number errs by one half at most. -/
theorem abs_roundDiv_sub_le (hden : 0 < den) : |(roundDiv num den : ℚ) - num / den| ≤ 1 / 2 := by
  have hsum := Nat.div_add_mod' num den
  have hlt := Nat.mod_lt num hden
  have hsucc : (num / den + 1) * den = num / den * den + den := add_one_mul _ _
  have hbounds : 2 * (roundDiv num den * den) ≤ 2 * num + den ∧
      2 * num ≤ 2 * (roundDiv num den * den) + den := by
    unfold roundDiv
    dsimp only
    split_ifs <;> omega
  have hpos : (0 : ℚ) < den := by exact_mod_cast hden
  have habove : 2 * ((roundDiv num den : ℚ) * den) ≤ 2 * num + den := by exact_mod_cast hbounds.1
  have hbelow : 2 * (num : ℚ) ≤ 2 * ((roundDiv num den : ℚ) * den) + den := by
    exact_mod_cast hbounds.2
  have hquotient : (num : ℚ) / den * den = num := div_mul_cancel₀ _ hpos.ne'
  rw [abs_sub_le_iff]
  constructor <;> nlinarith

theorem roundDiv_mul_self (m : ℕ) (hden : 0 < den) : roundDiv (m * den) den = m := by
  simp [roundDiv, hden]

theorem roundDiv_mem {a b : ℕ} (hden : 0 < den) (hlow : a * den ≤ num) (hhigh : num < b * den) :
    a ≤ roundDiv num den ∧ roundDiv num den ≤ b := by
  have hle : a ≤ num / den := (Nat.le_div_iff_mul_le hden).mpr hlow
  have hlt : num / den < b := (Nat.div_lt_iff_lt_mul hden).mpr hhigh
  unfold roundDiv
  dsimp only
  split_ifs <;> omega

/-! ### Fields of bits -/

section

variable {spec : Format} {sign : Sign} {exponent : BitVec spec.exponentBits}
  {mantissa : BitVec spec.mantissaBitsWithoutImplicit}

theorem unpack_packComponents (hlast : exponent ≠ -1#_) (hfirst : exponent ≠ 0#_) :
    UnpackedFloat.unpack spec (packComponents spec sign exponent mantissa) =
      .finite sign (1#1 ++ mantissa).toNat
        ((exponent.toNat : ℤ) - (spec.exponentBias + spec.mantissaBitsWithoutImplicit))
        (by simp) := by
  simp only [UnpackedFloat.unpack, unpackExponent_packComponents, unpackMantissa_packComponents,
    unpackSign_packComponents, Sign.ofBitVec_toBitVec, if_neg hlast, if_neg hfirst]

theorem toNat_packComponents : (packComponents spec .positive exponent mantissa).toNat =
    exponent.toNat * 2 ^ spec.mantissaBitsWithoutImplicit + mantissa.toNat := by
  rw [packComponents, BitVec.toNat_append, BitVec.toNat_append,
    ← Nat.shiftLeft_add_eq_or_of_lt mantissa.isLt,
    Nat.shiftLeft_eq _ spec.mantissaBitsWithoutImplicit]
  simp [Sign.toBitVec]

end

/-! ### Numbers with all their digits -/

/-- The parts of a positive number that has all its fifty-three binary digits. -/
structure Normal where
  mantissa : ℕ
  exponent : ℤ
  le_mantissa : 2 ^ 52 ≤ mantissa
  mantissa_lt : mantissa < 2 ^ 53
  le_exponent : -1074 ≤ exponent
  exponent_le : exponent ≤ 971

namespace Normal

variable (x : Normal)

theorem mantissa_pos : 0 < x.mantissa := lt_of_lt_of_le (Nat.two_pow_pos 52) x.le_mantissa

theorem log2_mantissa : x.mantissa.log2 = 52 :=
  (Nat.log2_eq_iff x.mantissa_pos.ne').mpr ⟨x.le_mantissa, x.mantissa_lt⟩

def unpacked : UnpackedFloat := .finite .positive x.mantissa x.exponent x.mantissa_pos

def toFloat : Float := .ofModel (.pack x.unpacked)

def value : ℚ := x.mantissa * 2 ^ x.exponent

def field : ℕ := (x.exponent + 1075).toNat

theorem field_eq : (x.field : ℤ) = x.exponent + 1075 :=
  Int.toNat_of_nonneg (by have := x.le_exponent; omega)

theorem field_pos : 0 < x.field := by
  have := x.field_eq
  have := x.le_exponent
  omega

theorem field_lt : x.field < 2047 := by
  have := x.field_eq
  have := x.exponent_le
  omega

theorem toNat_field : (BitVec.ofNat 11 x.field).toNat = x.field :=
  Nat.mod_eq_of_lt (x.field_lt.trans (by decide))

theorem toNat_mantissa : (BitVec.ofNat 52 x.mantissa).toNat = x.mantissa - 2 ^ 52 := by
  have := x.le_mantissa
  have := x.mantissa_lt
  rw [BitVec.toNat_ofNat]
  omega

theorem pack_unpacked : UnpackedFloat.pack Format.binary64 x.unpacked =
    packComponents Format.binary64 .positive (.ofNat 11 x.field) (.ofNat 52 x.mantissa) := by
  have hfield : (x.exponent + Format.binary64.exponentBias +
      Format.binary64.mantissaBitsWithoutImplicit).toNat =
      x.field := by
    rw [field, add_assoc]
    rfl
  have hlt := x.field_lt
  rw [unpacked, UnpackedFloat.pack, hfield, x.log2_mantissa]
  exact (if_neg (show ¬ 2 ^ 11 ≤ x.field + 1 by omega)).trans (if_pos rfl)

theorem unpack_toFloat : x.toFloat.toModel.unpack = x.unpacked := by
  have hlast : BitVec.ofNat 11 x.field ≠ -1#11 := by
    intro h
    exact x.field_lt.ne (x.toNat_field.symm.trans (congrArg BitVec.toNat h))
  have hfirst : BitVec.ofNat 11 x.field ≠ 0#11 := by
    intro h
    exact x.field_pos.ne' (x.toNat_field.symm.trans (congrArg BitVec.toNat h))
  have hmantissa : (1#1 ++ BitVec.ofNat 52 x.mantissa).toNat = x.mantissa := by
    have := x.le_mantissa
    rw [BitVec.toNat_append, ← Nat.shiftLeft_add_eq_or_of_lt (BitVec.isLt _), toNat_mantissa,
      Nat.shiftLeft_eq,
      BitVec.toNat_ofNat]
    omega
  have hpos : 0 < (1#1 ++ BitVec.ofNat 52 x.mantissa).toNat := by
    rw [hmantissa]
    exact x.mantissa_pos
  have hexponent : ((BitVec.ofNat 11 x.field).toNat : ℤ) - 1075 = x.exponent := by
    rw [toNat_field, field_eq]
    omega
  calc x.toFloat.toModel.unpack
      = UnpackedFloat.unpack Format.binary64 (UnpackedFloat.pack Format.binary64 x.unpacked) := rfl
    _ = .finite .positive (1#1 ++ BitVec.ofNat 52 x.mantissa).toNat
      ((BitVec.ofNat 11 x.field).toNat - 1075) hpos := by
      rw [pack_unpacked]
      exact unpack_packComponents hlast hfirst
    _ = x.unpacked := by
      rw [unpacked]
      congr

theorem toNat_toBits : x.toFloat.toBits.toNat = x.field * 2 ^ 52 + (x.mantissa - 2 ^ 52) := by
  calc x.toFloat.toBits.toNat = (UnpackedFloat.pack Format.binary64 x.unpacked).toNat := rfl
    _ = (BitVec.ofNat 11 x.field).toNat * 2 ^ 52 + (BitVec.ofNat 52 x.mantissa).toNat := by
      rw [pack_unpacked]
      exact toNat_packComponents
    _ = x.field * 2 ^ 52 + (x.mantissa - 2 ^ 52) := by rw [toNat_field, toNat_mantissa]

theorem ofFloat_toFloat : Binary.ofFloat x.toFloat = .finite false x.mantissa x.exponent := by
  have := x.field_pos
  have := x.field_lt
  have := x.field_eq
  have := x.le_mantissa
  have := x.mantissa_lt
  have hnegative : (x.field * 2 ^ 52 + (x.mantissa - 2 ^ 52)) / 2 ^ 63 = 0 := by omega
  have hfield : (x.field * 2 ^ 52 + (x.mantissa - 2 ^ 52)) / 2 ^ 52 % 2 ^ 11 = x.field := by omega
  have hfraction : (x.field * 2 ^ 52 + (x.mantissa - 2 ^ 52)) % 2 ^ 52 = x.mantissa - 2 ^ 52 := by
    omega
  have hmantissa : 2 ^ 52 + (x.mantissa - 2 ^ 52) = x.mantissa := by omega
  have hexponent : (x.field : ℤ) - 1075 = x.exponent := by omega
  simp only [Binary.ofFloat, toNat_toBits, Nat.pow_eq, hnegative, hfield, hfraction,
    hmantissa, hexponent]
  rw [if_neg (by omega), if_neg (by omega)]
  rfl

theorem isInf_toFloat : x.toFloat.isInf = false := by
  have hunpack : x.toFloat.isInf = x.toFloat.toModel.unpack.isInf := rfl
  rw [hunpack, unpack_toFloat]
  rfl

/-- Without its fraction, a number is the largest whole number that its value reaches. -/
theorem truncate?_toFloat : truncate? x.toFloat = some ⌊x.value⌋ := by
  rw [truncate?, ofFloat_toFloat]
  simp only [Bool.false_eq_true, if_false, Option.some_inj]
  rcases le_or_gt 0 x.exponent with hexponent | hexponent
  · obtain ⟨k, hk⟩ := Int.eq_ofNat_of_zero_le hexponent
    have hvalue : x.value = ((x.mantissa * 2 ^ k : ℤ) : ℚ) := by
      rw [value, hk, zpow_natCast]
      push_cast
      rfl
    rw [if_pos hexponent, hvalue, Int.floor_intCast, hk]
    rfl
  · obtain ⟨k, hk⟩ := Int.eq_ofNat_of_zero_le (by omega : 0 ≤ -x.exponent)
    have hvalue : x.value = (x.mantissa : ℚ) / (2 ^ k : ℕ) := by
      rw [value, ← neg_neg x.exponent, hk, zpow_neg, zpow_natCast, div_eq_mul_inv]
      push_cast
      rfl
    rw [if_neg (by omega), hvalue, Rat.floor_natCast_div_natCast, hk]
    rfl

theorem two_pow_le_value : 2 ^ (52 + x.exponent) ≤ x.value := by
  have hle : (2 ^ 52 : ℚ) ≤ x.mantissa := by exact_mod_cast x.le_mantissa
  rw [value, zpow_add₀ two_ne_zero]
  exact mul_le_mul_of_nonneg_right hle (by positivity)

theorem value_lt_two_pow : x.value < 2 ^ (53 + x.exponent) := by
  have hlt : (x.mantissa : ℚ) < 2 ^ 53 := by exact_mod_cast x.mantissa_lt
  rw [value, zpow_add₀ two_ne_zero]
  exact mul_lt_mul_of_pos_right hlt (by positivity)

theorem exponent_mem (hone : 1 ≤ x.value) (hlt : x.value < 2 ^ 53) :
    -52 ≤ x.exponent ∧ x.exponent ≤ 0 := by
  have hlow : (2 : ℚ) ^ (0 : ℤ) < 2 ^ (53 + x.exponent) := hone.trans_lt x.value_lt_two_pow
  have hhigh : (2 : ℚ) ^ (52 + x.exponent) < 2 ^ (53 : ℤ) := x.two_pow_le_value.trans_lt hlt
  rw [zpow_lt_zpow_iff_right₀ one_lt_two] at hlow hhigh
  omega

end Normal

/-! ### Rounding -/

theorem targetExponent_eq (m : ℕ) (e : ℤ) :
    Format.binary64.targetExponent (totalExponent m e) = max (m.log2 + e - 52) (-1074) := by
  simp only [Format.targetExponent, totalExponent, Format.mantissaBits, Format.minExponent]
  norm_num
  omega

theorem shift_of_log2 {m k : ℕ} {e : ℤ} (accuracy : Accuracy) (hm : m.log2 = 52 + k)
    (he : -1074 ≤ e + k) :
    shiftToTargetExponent Format.binary64 m e accuracy =
      (ExtendedMantissa.ofMantissaAndAccuracy m accuracy >>> k, e + k) := by
  have htarget : Format.binary64.targetExponent (totalExponent m e) = e + k := by
    rw [targetExponent_eq, hm]
    push_cast
    omega
  unfold shiftToTargetExponent shiftToExponent
  simp only [htarget, add_sub_cancel_left, Int.toNat_natCast]

/-- A rounded mantissa in its place: where rounding has carried into a new digit, the last one is
dropped. -/
def carried (mantissa : ℕ) (exponent : ℤ) : UnpackedFloat :=
  let placed := shiftToTargetExponent Format.binary64 mantissa exponent .exact
  if h : placed.1.mantissa = 0 then .zero .positive
  else .finite .positive placed.1.mantissa placed.2 (Nat.pos_of_ne_zero h)

theorem exists_carried {m : ℕ} {e : ℤ} (hlow : 2 ^ 52 ≤ m) (hhigh : m ≤ 2 ^ 53) (he : -1074 ≤ e)
    (he' : e ≤ 970) :
    ∃ x : Normal, carried m e = x.unpacked ∧ x.value = m * 2 ^ e := by
  rcases hhigh.lt_or_eq with hlt | rfl
  · have hlog : m.log2 = 52 + 0 := (Nat.log2_eq_iff (by omega)).mpr ⟨hlow, hlt⟩
    have hplaced := shift_of_log2 .exact hlog (show -1074 ≤ e + (0 : ℕ) by simpa using he)
    rw [Nat.cast_zero, add_zero] at hplaced
    refine ⟨⟨m, e, hlow, hlt, he, by omega⟩, ?_, rfl⟩
    simp only [carried, hplaced]
    exact dif_neg (show m ≠ 0 by omega)
  · have hlog : (2 ^ 53).log2 = 52 + 1 := Nat.log2_two_pow
    refine ⟨⟨2 ^ 52, e + 1, le_rfl, by norm_num, by omega, by omega⟩, ?_, ?_⟩
    · simp only [carried, shift_of_log2 .exact hlog (show -1074 ≤ e + (1 : ℕ) by push_cast; omega)]
      exact dif_neg (by decide)
    · rw [Normal.value, zpow_add_one₀ two_ne_zero]
      push_cast
      ring

/-- A quotient is rounded to the multiple of its last place that `roundDiv` finds. -/
theorem exists_roundWithAccuracy {k : ℕ} {e : ℤ} (hden : 0 < den)
    (hlow : 2 ^ 52 * (den * 2 ^ k) ≤ num) (hhigh : num < 2 ^ 53 * (den * 2 ^ k))
    (he : -1074 ≤ e + k) (he' : e + k ≤ 970) :
    ∃ x : Normal, roundWithAccuracy Format.binary64 .positive (num / den) e
      (accuracyOfFraction (num % den) den) =
      x.unpacked ∧ x.value = roundDiv num (den * 2 ^ k) * 2 ^ (e + k) := by
  have hlog : (num / den).log2 = 52 + k := by
    have hle : 2 ^ (52 + k) ≤ num / den :=
      (Nat.le_div_iff_mul_le hden).mpr (by rw [pow_add]; linarith)
    have hlt : num / den < 2 ^ (52 + k + 1) :=
      (Nat.div_lt_iff_lt_mul hden).mpr (by rw [pow_succ, pow_add]; linarith)
    exact (Nat.log2_eq_iff (by have := Nat.two_pow_pos (52 + k); omega)).mpr ⟨hle, hlt⟩
  have hround : roundWithAccuracy Format.binary64 .positive (num / den) e
      (accuracyOfFraction (num % den) den) =
      carried (roundDiv num (den * 2 ^ k)) (e + k) := by
    rw [← ((approximates_of_fraction hden).shiftRight hden k).roundedMantissa]
    unfold roundWithAccuracy
    rw [shift_of_log2 _ hlog he]
    rfl
  obtain ⟨hrlow, hrhigh⟩ := roundDiv_mem (by positivity : 0 < den * 2 ^ k) hlow hhigh
  rw [hround]
  exact exists_carried hrlow hrhigh he he'

theorem exists_roundWithAccuracy_exact {m k : ℕ} {e : ℤ} (hlow : 2 ^ 52 ≤ m) (hhigh : m < 2 ^ 53)
    (he : -1074 ≤ e + k)
    (he' : e + k ≤ 970) : ∃ x : Normal,
    roundWithAccuracy Format.binary64 .positive (m * 2 ^ k) e .exact = x.unpacked ∧
      x.value = m * 2 ^ (e + k) := by
  have hfew : 2 ^ 52 * (1 * 2 ^ k) ≤ m * 2 ^ k := by
    rw [one_mul]
    exact Nat.mul_le_mul_right _ hlow
  have hmany : m * 2 ^ k < 2 ^ 53 * (1 * 2 ^ k) := by
    rw [one_mul]
    exact Nat.mul_lt_mul_of_pos_right hhigh (Nat.two_pow_pos k)
  obtain ⟨x, hx, hvalue⟩ := exists_roundWithAccuracy one_pos hfew hmany he he'
  rw [Nat.div_one, Nat.mod_one] at hx
  rw [one_mul, roundDiv_mul_self m (Nat.two_pow_pos k)] at hvalue
  exact ⟨x, hx, hvalue⟩

end Recourse.Decimal
