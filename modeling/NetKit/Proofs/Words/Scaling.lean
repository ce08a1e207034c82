import NetKit.Proofs.Number.HexFloat
import NetKit.Proofs.Words.Rounding

/-!
# Scaling in words — a significand times a power of two, by multiplication

What rounding leaves is a significand and an exponent. A machine makes a number of them by multiplying the
significand with a power of two, whose bits it writes down (`powerInWords`). No power of two below 2^-1074 or above
2^1023 can be written down, and a subnormal result takes two steps. Here it is shown that only powers in this range are
asked for (`scaleInWords_eq_ok`), and that nothing is lost on the way: `Binary64.mul` rounds to nearest, and each
product is a number of the format already.

## Contents
- `nearestEven_placeOf`, `magnitude_placeOf`: the place of a significand with an exponent.
- `Binary64.mul`, `isRounding_mul`: multiplication.
- `powerInWords`, `scaleInWords`: powers of two, and scaling by them.
- `Rounded.roundInWords`: rounding and scaling.
-/

namespace NetKit

-- Powers are those of the core library, also where a theory of powers is imported.
attribute [local instance (high)] instPowNat

namespace Binary64

/-! ## Places -/

/-- `placeOf` a significand of 53 bits, or one that was carried to 2^53, is on a grid. -/
theorem exists_grid_placeOf {significand : Nat} {exponent : Int} (hle : significand ≤ 2 ^ 53)
    (hexponent : -1074 ≤ exponent) :
    ∃ E n : Nat, placeOf significand exponent = min (E * 2 ^ 52 + n) infinityPlace ∧ n ≤ 2 ^ 53 ∧
      (E = 0 ∨ 2 ^ 52 ≤ n) ∧ (n : ℚ) * gap E = significand * 2 ^ exponent := by
  rcases Nat.lt_or_eq_of_le hle with hlt | hcarried
  · exact placeOf_eq_grid hlt hexponent
  · obtain ⟨E, rfl⟩ : ∃ E : Nat, exponent = E - 1074 := ⟨(exponent + 1074).toNat, by omega⟩
    have hnormal : E = 0 ∨ 2 ^ 52 ≤ significand := .inr (by omega)
    exact ⟨E, significand, placeOf_grid hnormal, hle, hnormal, rfl⟩

/-- `placeOf` is the rounding of the value. -/
theorem nearestEven_placeOf {significand : Nat} {exponent : Int} (hle : significand ≤ 2 ^ 53)
    (hexponent : -1074 ≤ exponent) :
    NearestEven (significand * 2 ^ exponent) (placeOf significand exponent) := by
  obtain ⟨E, n, hplace, hn, hnormal, hvalue⟩ := exists_grid_placeOf hle hexponent
  have hgap := gap_pos E
  rw [hplace, ← hvalue]
  apply nearestEven_of_grid
  refine ⟨hn, hnormal.imp_right fun hlow => ⟨hlow, ?_⟩, ?_, ?_⟩
  · exact mul_le_mul_of_nonneg_right (Nat.cast_le.mpr hlow) (le_of_lt hgap)
  · rw [sub_self, abs_zero, mul_zero]
    exact le_of_lt hgap
  · rw [sub_self, abs_zero, mul_zero]
    exact fun h => absurd h (ne_of_lt hgap)

/-- `placeOf` does not change a value below 2^1024. -/
theorem magnitude_placeOf {significand : Nat} {exponent : Int} (hle : significand ≤ 2 ^ 53)
    (hexponent : -1074 ≤ exponent) (hlt : (significand : ℚ) * 2 ^ exponent < 2 ^ (1024 : ℤ)) :
    magnitude (placeOf significand exponent) = significand * 2 ^ exponent := by
  obtain ⟨E, n, hplace, hn, hnormal, hvalue⟩ := exists_grid_placeOf hle hexponent
  have hgrid := magnitude_grid hn hnormal
  have hfinite : E * 2 ^ 52 + n < infinityPlace := by
    rw [← magnitude_strictMono.lt_iff_lt, hgrid, hvalue, magnitude_infinityPlace]
    exact hlt
  rw [hplace, Nat.min_eq_left (Nat.le_of_lt hfinite), hgrid, hvalue]

/-! ## Multiplication -/

/-- The significand and the exponent at `place`, a right inverse of `placeOf`. -/
def unplace (place : Nat) : Nat × Int :=
  if place / minNormalPlace = 0 then (place, minExponent)
  else (minNormalPlace + place % minNormalPlace, (place / minNormalPlace : Nat) - 1 + minExponent)

theorem magnitude_eq_unplace (place : Nat) :
    magnitude place = (unplace place).1 * 2 ^ (unplace place).2 := by
  unfold magnitude unplace
  rw [minNormalPlace_eq]
  by_cases hlow : place / 2 ^ 52 = 0
  · rw [if_pos hlow, if_pos hlow, Nat.mod_eq_of_lt (by omega)]
    rfl
  · rw [if_neg hlow, if_neg hlow]
    dsimp only
    congr 2
    have hminimum : minExponent = -1074 := rfl
    omega

/-- The product of two finite values, rounded. -/
def mul (x y : Binary64) : Binary64 :=
  let (m, e) := unplace x.place
  let (n, f) := unplace y.place
  ((Rounded.ofMantissa (m * n) false (e + f)).value).withSign (x.negative != y.negative)

theorem isRounding_mul (x y : Binary64) :
    (x.mul y).IsRounding (x.negative != y.negative) (magnitude x.place * magnitude y.place) := by
  have hexact : Truncates ((unplace x.place).1 * (unplace y.place).1 : ℕ)
      ((unplace x.place).1 * (unplace y.place).1) false :=
    ⟨le_refl _, lt_add_one _, iff_of_true rfl rfl⟩
  have hrounds := Rounded.rounds_ofMantissa hexact (fun h => absurd h Bool.false_ne_true)
    ((unplace x.place).2 + (unplace y.place).2)
  have hproduct : (((unplace x.place).1 * (unplace y.place).1 : ℕ) : ℚ) *
      2 ^ ((unplace x.place).2 + (unplace y.place).2) = magnitude x.place * magnitude y.place := by
    rw [magnitude_eq_unplace, magnitude_eq_unplace, zpow_add₀ (by norm_num), Nat.cast_mul]
    ring
  rw [hproduct] at hrounds
  exact hrounds.isRounding_withSign _

/-- `mul` is exact if the product is a number of the format. -/
theorem mul_eq_ofScaled {x y : Binary64} {significand : Nat} {exponent : Int}
    (hx : x.negative = false) (hy : y.negative = false) (hle : significand ≤ 2 ^ 53)
    (hexponent : -1074 ≤ exponent)
    (hproduct : magnitude x.place * magnitude y.place = significand * 2 ^ exponent) :
    x.mul y = ofScaled significand exponent := by
  have hmul := isRounding_mul x y
  rw [hproduct, hx, hy] at hmul
  exact (isRounding_iff_eq ⟨rfl, nearestEven_placeOf hle hexponent⟩ _).mp hmul

/-! ## Powers of two -/

/-- The value with these bits, if they fit into a word and have no sign. -/
def ofBitsInWord (bits : Nat) : Checked Binary64 :=
  if h : bits < 0x8000000000000000 then .ok ⟨false, bits, h⟩ else .error .overflow

/-- 2^`exponent` by its bits: a normal power by its exponent field, a subnormal one by the place of its only
    bit. -/
def powerInWords (exponent : Int) : Checked Binary64 := do
  if -1074 ≤ exponent ∧ exponent ≤ 1023 then
    if -1022 ≤ exponent then ofBitsInWord ((← natOfInt (← intWord (exponent + 1023))) <<< 52)
    else ofBitsInWord (1 <<< (← shiftAmount (← intWord (exponent + 1074))))
  else .error .power

theorem bitLength_one : bitLength 1 = 1 := by decide

theorem placeOf_one_normal {field : Nat} (hsome : 0 < field) (hlt : field < 2047) :
    placeOf 1 (field - 1023) = field * 2 ^ 52 := by
  have hprecision : precision = 53 := rfl
  have hminimum : minExponent = -1074 := rfl
  have hinfinity : infinityPlace = 2047 * 2 ^ 52 := by decide
  have hroom : min (precision - 1) ((field : Int) - 1023 - minExponent).toNat = 52 := by omega
  have hE : ((field : Int) - 1023 - minExponent - (52 : Nat)).toNat = field - 1 := by omega
  unfold placeOf
  rw [if_neg Nat.one_ne_zero, bitLength_one]
  dsimp only
  rw [hroom, hE, minNormalPlace_eq, hinfinity]
  omega

theorem placeOf_one_subnormal {k : Nat} (hlt : k ≤ 52) : placeOf 1 (k - 1074) = 2 ^ k := by
  have hprecision : precision = 53 := rfl
  have hminimum : minExponent = -1074 := rfl
  have hinfinity : 2 ^ 52 ≤ infinityPlace := by decide
  have hpower : 2 ^ k ≤ 2 ^ 52 := Nat.pow_le_pow_right (by decide) hlt
  have hroom : min (precision - 1) ((k : Int) - 1074 - minExponent).toNat = k := by omega
  have hE : ((k : Int) - 1074 - minExponent - (k : Nat)).toNat = 0 := by omega
  unfold placeOf
  rw [if_neg Nat.one_ne_zero, bitLength_one]
  dsimp only
  rw [hroom, hE, Nat.zero_mul, Nat.zero_add, Nat.one_mul, Nat.min_eq_left (Nat.le_trans hpower hinfinity)]

theorem ofBitsInWord_placeOf (significand : Nat) (exponent : Int) :
    ofBitsInWord (placeOf significand exponent) = .ok (ofScaled significand exponent) :=
  dif_pos (Nat.lt_of_le_of_lt (placeOf_le significand exponent) (by decide))

theorem powerInWords_eq_ok {exponent : Int} (hlow : -1074 ≤ exponent) (hhigh : exponent ≤ 1023) :
    powerInWords exponent = .ok (ofScaled 1 exponent) := by
  unfold powerInWords
  rw [if_pos ⟨hlow, hhigh⟩]
  by_cases hnormal : -1022 ≤ exponent
  · obtain ⟨field, rfl⟩ : ∃ field : Nat, exponent = field - 1023 := ⟨(exponent + 1023).toNat, by omega⟩
    rw [if_pos hnormal, intWord_of_mem (by omega) (by omega), Checked.ok_bind, Int.sub_add_cancel,
      natOfInt_natCast, Checked.ok_bind, Nat.shiftLeft_eq, ← placeOf_one_normal (by omega) (by omega),
      ofBitsInWord_placeOf]
  · obtain ⟨k, rfl⟩ : ∃ k : Nat, exponent = k - 1074 := ⟨(exponent + 1074).toNat, by omega⟩
    rw [if_neg hnormal, intWord_of_mem (by omega) (by omega), Checked.ok_bind, Int.sub_add_cancel,
      shiftAmount_natCast (by omega), Checked.ok_bind, Nat.one_shiftLeft,
      ← placeOf_one_subnormal (by omega), ofBitsInWord_placeOf]

/-! ## Scaling -/

/-- `n`, rounded. -/
def ofNat (n : Nat) : Binary64 := (Rounded.ofMantissa n false 0).value

/-- `ofScaled` by multiplication. A subnormal result takes two, the first of which has a whole number as its
    result. -/
def scaleInWords (significand : Nat) (exponent : Int) : Checked Binary64 := do
  let value := ofNat significand
  if 1023 < exponent then return infinity
  else if -1022 ≤ exponent then return value.mul (← powerInWords exponent)
  else
    return (value.mul (← powerInWords (← intWord (exponent + 1074)))).mul (← powerInWords (-1074))

theorem ofNat_eq_ofScaled {n : Nat} (hle : n ≤ 2 ^ 53) : ofNat n = ofScaled n 0 := by
  have hrounds := Rounded.rounds_ofMantissa ⟨le_refl _, lt_add_one (n : ℚ), iff_of_true rfl rfl⟩
    (fun h => absurd h Bool.false_ne_true) 0
  exact (isRounding_iff_eq ⟨rfl, nearestEven_placeOf hle (by decide)⟩ _).mp ⟨rfl, hrounds.nearest⟩

/-- `mul` with a power of two adds its exponent, as long as the product is a number of the format. -/
theorem mul_power {significand : Nat} {exponent power : Int} (hle : significand ≤ 2 ^ 53)
    (hexponent : -1074 ≤ exponent) (hlt : (significand : ℚ) * 2 ^ exponent < 2 ^ (1024 : ℤ))
    (hlow : -1074 ≤ power) (hhigh : power ≤ 1023) (hsum : -1074 ≤ exponent + power) :
    (ofScaled significand exponent).mul (ofScaled 1 power) = ofScaled significand (exponent + power) := by
  have hpower : ((1 : ℕ) : ℚ) * 2 ^ power < 2 ^ (1024 : ℤ) := by
    rw [Nat.cast_one, one_mul]
    exact zpow_lt_zpow_right₀ (by norm_num) (by omega)
  apply mul_eq_ofScaled rfl rfl hle hsum
  have hvalue := magnitude_placeOf hle hexponent hlt
  have hfactor := magnitude_placeOf (by decide) hlow hpower
  show magnitude (placeOf significand exponent) * magnitude (placeOf 1 power) = _
  rw [hvalue, hfactor, zpow_add₀ (by norm_num), Nat.cast_one, one_mul, mul_assoc]

/-- `ofScaled` above the exponents of the format is infinite. -/
theorem ofScaled_of_large {significand : Nat} {exponent : Int} (hpos : 0 < significand)
    (hle : significand ≤ 2 ^ 53) (hlarge : 1023 < exponent) : ofScaled significand exponent = infinity := by
  have hvalue : magnitude infinityPlace ≤ significand * 2 ^ exponent := by
    rw [magnitude_infinityPlace]
    calc (2 : ℚ) ^ (1024 : ℤ) ≤ 2 ^ exponent := zpow_le_zpow_right₀ (by norm_num) (by omega)
      _ ≤ significand * 2 ^ exponent :=
        le_mul_of_one_le_left (le_of_lt (zpow_pos (by norm_num) _)) (Nat.one_le_cast.mpr hpos)
  exact (isRounding_iff_eq ⟨rfl, nearestEven_infinityPlace hvalue⟩ _).mp
    ⟨rfl, nearestEven_placeOf hle (by omega)⟩

/-- **`scaleInWords` asks for powers of two in the range only, and loses nothing.** -/
theorem scaleInWords_eq_ok {significand : Nat} {exponent : Int} (hpos : 0 < significand)
    (hle : significand ≤ 2 ^ 53) (hexponent : -1074 ≤ exponent) :
    scaleInWords significand exponent = .ok (ofScaled significand exponent) := by
  have hfinite : ∀ {power : Int}, power ≤ 970 → (significand : ℚ) * 2 ^ power < 2 ^ (1024 : ℤ) := by
    intro power hpower
    calc (significand : ℚ) * 2 ^ power ≤ (2 ^ 53 : ℕ) * 2 ^ power :=
          mul_le_mul_of_nonneg_right (Nat.cast_le.mpr hle) (le_of_lt (zpow_pos (by norm_num) _))
      _ = 2 ^ (53 + power) := by rw [zpow_add₀ (by norm_num), Nat.cast_pow]; rfl
      _ < 2 ^ (1024 : ℤ) := zpow_lt_zpow_right₀ (by norm_num) (by omega)
  unfold scaleInWords
  dsimp only
  rw [ofNat_eq_ofScaled hle]
  by_cases hlarge : 1023 < exponent
  · rw [if_pos hlarge, ofScaled_of_large hpos hle hlarge]
    rfl
  · rw [if_neg hlarge]
    by_cases hnormal : -1022 ≤ exponent
    · have hproduct : (ofScaled significand 0).mul (ofScaled 1 exponent) =
          ofScaled significand (0 + exponent) :=
        mul_power hle (by decide) (hfinite (by decide)) hexponent (by omega) (by omega)
      rw [if_pos hnormal, powerInWords_eq_ok hexponent (by omega), Checked.ok_bind, hproduct, Int.zero_add]
      rfl
    · have hwhole : (ofScaled significand 0).mul (ofScaled 1 (exponent + 1074)) =
          ofScaled significand (0 + (exponent + 1074)) :=
        mul_power hle (by decide) (hfinite (by decide)) (by omega) (by omega) (by omega)
      have hproduct : (ofScaled significand (exponent + 1074)).mul (ofScaled 1 (-1074)) =
          ofScaled significand (exponent + 1074 + -1074) :=
        mul_power hle (by omega) (hfinite (by omega)) (by decide) (by decide) (by omega)
      rw [if_neg hnormal, intWord_of_mem (by omega) (by omega), Checked.ok_bind,
        powerInWords_eq_ok (by omega) (by omega), Checked.ok_bind,
        powerInWords_eq_ok (by decide) (by decide), Checked.ok_bind, hwhole, Int.zero_add, hproduct,
        Int.add_neg_cancel_right]
      rfl

end Binary64

/-! ## Rounding and scaling -/

namespace Rounded

open Binary64

variable {mantissa : Nat} {sticky : Bool} {exponent : Int}

/-- `ofMantissaInWords`, then `scaleInWords`: the value, and whether it is exact. -/
def roundInWords (mantissa : Nat) (sticky : Bool) (exponent : Int) : Checked (Binary64 × Bool) := do
  let r ← ofMantissaInWords mantissa sticky exponent
  let value ← if r.significand = 0 then pure (Binary64.ofNat 0) else scaleInWords r.significand r.exponent
  return (value, r.exact)

/-- `ofMantissa` gives a significand of 53 bits, or one that was carried, in the range of exponents. -/
theorem ofMantissa_bounds (hsticky : sticky = true → 2 ^ 53 ≤ mantissa)
    (hsome : (ofMantissa mantissa sticky exponent).significand ≠ 0) :
    (ofMantissa mantissa sticky exponent).significand ≤ 2 ^ 53 ∧
      -1074 ≤ (ofMantissa mantissa sticky exponent).exponent := by
  obtain ⟨x, hx⟩ : ∃ x : ℚ, Truncates x mantissa sticky := by
    cases sticky with
    | false => exact ⟨mantissa, le_refl _, lt_add_one _, iff_of_true rfl rfl⟩
    | true =>
        refine ⟨mantissa + 1 / 2, by norm_num, by norm_num, iff_of_false ?_ (by decide)⟩
        norm_num
  have hpos : mantissa ≠ 0 := by
    rintro rfl
    exact hsome rfl
  have hkernel := kernel_ofMantissa hx hsticky hpos exponent
  exact ⟨hkernel.significand_le, hkernel.exponent_le (Nat.pos_of_ne_zero hsome)⟩

/-- **`roundInWords` passes all checks**, and gives the value of `ofMantissa`. -/
theorem roundInWords_eq_ok (hlt : mantissa < 2 ^ 60) (hsticky : sticky = true → 2 ^ 53 ≤ mantissa)
    (hlow : -2 ^ 63 ≤ exponent) (hhigh : exponent < 2 ^ 63) :
    roundInWords mantissa sticky exponent =
      .ok ((ofMantissa mantissa sticky exponent).value, (ofMantissa mantissa sticky exponent).exact) := by
  have hlimit : exponentLimit = 9223372036854775807 := by decide
  unfold roundInWords
  rw [ofMantissaInWords_eq_ok hlt hlow hhigh, Checked.ok_bind]
  dsimp only
  rcases hr : ofMantissa mantissa sticky exponent with ⟨significand, e, exact⟩
  dsimp only
  by_cases hzero : significand = 0
  · subst hzero
    rw [if_pos rfl, ofNat_eq_ofScaled (Nat.zero_le _)]
    simp only [value, ofScaled, placeOf_zero]
    rfl
  · obtain ⟨hle, hexponent⟩ : significand ≤ 2 ^ 53 ∧ -1074 ≤ e := by
      have hbounds := @ofMantissa_bounds mantissa sticky exponent hsticky (by rw [hr]; exact hzero)
      rwa [hr] at hbounds
    have hpos : 0 < significand := Nat.pos_of_ne_zero hzero
    -- an exponent that does not fit into a word is far above the format's
    have hvalue : ofScaled significand (min e exponentLimit) = ofScaled significand e := by
      rcases Int.le_total e exponentLimit with hfits | hlarge
      · rw [Int.min_eq_left hfits]
      · rw [ofScaled_of_large hpos hle (by omega), ofScaled_of_large hpos hle (by omega)]
    rw [if_neg hzero, scaleInWords_eq_ok hpos hle (by omega), hvalue]
    rfl

end Rounded

end NetKit
