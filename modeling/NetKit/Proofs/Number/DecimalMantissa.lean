import Mathlib.Data.List.TakeWhile
import NetKit.Proofs.Number.HexMantissa
import NetKit.Proofs.Number.Quotient
import NetKit.Proofs.Numeral

/-!
# Decimal mantissas — all digits are used, and the value is rounded to the nearest

A decimal mantissa times a power of ten is a quotient of natural numbers, and is rounded as one
(`Rounded.rounds_ofQuotient`). Only a number that is far outside the range of the format is not
computed: `Mantissa.reach`, which is where its first digit stands, says that it is too large, or too
close to zero.

`saturate` confines an exponent where it is read. That does not matter as long as the mantissa has less
than 2^60 digits, as a number with so large an exponent is outside the range anyway, unless it is zero
(`Mantissa.reach_saturate`).

## Contents
- `Mantissa.decimalValue`, `Mantissa.isNonzero_iff`: the number that a decimal mantissa denotes.
- `Mantissa.reach`, `Mantissa.decimal_bounds`: where its first digit stands.
- `Mantissa.rounds_roundDecimal`, `Mantissa.rounds_roundDecimal_saturate`: whole mantissas.
-/

namespace NetKit

namespace Rounded

open Binary64

/-- `tooLarge` rounds everything from `magnitude infinityPlace` on. -/
theorem rounds_tooLarge {q : ℚ} (hq : magnitude infinityPlace ≤ q) : tooLarge.Rounds q := by
  have hplace : tooLarge.value.place = infinityPlace := by decide
  refine ⟨hplace ▸ nearestEven_infinityPlace hq, fun hfinite => ?_⟩
  rw [hplace] at hfinite
  exact absurd hfinite (Nat.lt_irrefl _)

/-- Up to half of `gap 0`, everything rounds to zero, inexactly. -/
theorem rounds_tooSmall {q : ℚ} (hpos : 0 < q) (hq : 2 * q ≤ gap 0) :
    Rounds ⟨0, minExponent, false⟩ q := by
  have hplace : (Rounded.mk 0 minExponent false).value.place = 0 := placeOf_zero minExponent
  refine ⟨hplace ▸ nearestEven_zero hq, fun _ => ?_⟩
  rw [hplace, magnitude_zero]
  constructor
  · intro h; cases h
  · intro h; exact absurd h (ne_of_lt hpos)

end Rounded

namespace Mantissa

open Binary64

/-- The number that `m` denotes in decimal. -/
def decimalValue (m : Mantissa) : ℚ := digitsValue 10 m.digits / 10 ^ m.fraction.length

variable {m : Mantissa}

/-- The places behind the point count against the exponent. -/
theorem decimalValue_mul_scale (m : Mantissa) (e : Int) :
    m.decimalValue * 10 ^ e = digitsValue 10 m.digits * 10 ^ (e - m.fraction.length) := by
  unfold decimalValue
  rw [zpow_sub₀ (by norm_num), zpow_natCast]
  ring

/-- The power of ten right above the first digit that is not zero. -/
def reach (m : Mantissa) (e : Int) : Int :=
  (m.digits.dropWhile (· = '0')).length + (e - m.fraction.length)

/-- Without `isNonzero` the value is zero. -/
theorem decimalValue_eq_zero (hzero : m.isNonzero = false) : m.decimalValue = 0 := by
  have hall : ∀ c ∈ m.digits, decide (c = '0') = true := by
    intro c hc
    have hnot := List.any_eq_false.mp hzero c hc
    simpa using hnot
  have hnone : m.digits.dropWhile (· = '0') = [] := List.dropWhile_eq_nil_iff.mpr hall
  unfold decimalValue
  rw [← digitsValue_dropWhile, hnone, digitsValue_nil, Nat.cast_zero, zero_div]

/-- With `isNonzero` there is a first digit that is not zero. -/
theorem exists_significant (hsome : m.isNonzero = true) :
    ∃ c ds, m.digits.dropWhile (· = '0') = c :: ds ∧ c ≠ '0' ∧ c ∈ m.digits ∧
      ∀ d ∈ ds, d ∈ m.digits := by
  obtain ⟨d, hd, hne⟩ := List.any_eq_true.mp hsome
  have hsubset := List.dropWhile_subset (l := m.digits) (fun c => decide (c = '0'))
  cases hdrop : m.digits.dropWhile (· = '0') with
  | nil =>
      have hall := List.dropWhile_eq_nil_iff.mp hdrop d hd
      rw [of_decide_eq_true hall] at hne
      exact absurd hne (by decide)
  | cons c ds =>
      have hhead := List.head?_dropWhile_not (fun c => decide (c = '0')) m.digits
      rw [hdrop] at hhead hsubset
      obtain ⟨hc, hds⟩ := List.cons_subset.mp hsubset
      exact ⟨c, ds, rfl, of_decide_eq_false hhead, hc, hds⟩

/-- **`reach` bounds the number from both sides**, up to a factor of ten. -/
theorem decimal_bounds (hdigits : ∀ c ∈ m.digits, isDigit 10 c = true) (hsome : m.isNonzero = true)
    (e : Int) : (10 : ℚ) ^ (m.reach e - 1) ≤ m.decimalValue * 10 ^ e ∧
      m.decimalValue * 10 ^ e < 10 ^ m.reach e := by
  obtain ⟨c, ds, hdrop, hc, hmem, hds⟩ := exists_significant hsome
  have hall : ∀ d ∈ c :: ds, isDigit 10 d = true :=
    List.forall_mem_cons.mpr ⟨hdigits c hmem, fun d hd => hdigits d (hds d hd)⟩
  have hfirst : digitValue c ≠ 0 := mt (digitValue_eq_zero_iff (hdigits c hmem)).mp hc
  have hlow : ((10 ^ ds.length : ℕ) : ℚ) ≤ digitsValue 10 (c :: ds) := by
    exact_mod_cast pow_le_digitsValue hfirst
  have hhigh : (digitsValue 10 (c :: ds) : ℚ) < (10 ^ (c :: ds).length : ℕ) := by
    exact_mod_cast digitsValue_lt hall
  have hvalue : m.decimalValue * 10 ^ e =
      digitsValue 10 (c :: ds) * 10 ^ (e - m.fraction.length) := by
    rw [decimalValue_mul_scale, ← hdrop, digitsValue_dropWhile]
  have hreach : m.reach e = (c :: ds).length + (e - m.fraction.length) := by
    unfold reach
    rw [hdrop]
  have hscale : (0 : ℚ) < 10 ^ (e - m.fraction.length) := zpow_pos (by norm_num) _
  rw [hvalue, hreach]
  constructor
  · calc (10 : ℚ) ^ ((c :: ds).length + (e - m.fraction.length) - 1)
        = (10 ^ ds.length : ℕ) * 10 ^ (e - m.fraction.length) := by
          rw [Nat.cast_pow, Nat.cast_ofNat, ← zpow_natCast, ← zpow_add₀ (by norm_num),
            List.length_cons]
          congr 1
          push_cast
          ring
      _ ≤ _ := mul_le_mul_of_nonneg_right hlow (le_of_lt hscale)
  · calc _ < ((10 ^ (c :: ds).length : ℕ) : ℚ) * 10 ^ (e - m.fraction.length) :=
          mul_lt_mul_of_pos_right hhigh hscale
      _ = 10 ^ ((c :: ds).length + (e - m.fraction.length)) := by
          rw [Nat.cast_pow, Nat.cast_ofNat, ← zpow_natCast, ← zpow_add₀ (by norm_num)]

theorem decimal_pos (hdigits : ∀ c ∈ m.digits, isDigit 10 c = true) (hsome : m.isNonzero = true)
    (e : Int) : 0 < m.decimalValue * 10 ^ e :=
  lt_of_lt_of_le (zpow_pos (by norm_num) _) (decimal_bounds hdigits hsome e).1

/-- `isNonzero` tells whether `decimalValue` is zero. -/
theorem isNonzero_iff (hdigits : ∀ c ∈ m.digits, isDigit 10 c = true) :
    m.isNonzero = true ↔ m.decimalValue ≠ 0 := by
  constructor
  · intro hsome
    have hpos := decimal_pos hdigits hsome 0
    rw [zpow_zero, mul_one] at hpos
    exact ne_of_gt hpos
  · intro hne
    by_contra hzero
    rw [Bool.not_eq_true] at hzero
    exact hne (decimalValue_eq_zero hzero)

/-- `8 ^ k ≤ 10 ^ k`. -/
theorem two_zpow_le_ten_zpow (k : Nat) : (2 : ℚ) ^ (3 * k : ℤ) ≤ 10 ^ (k : ℤ) := by
  rw [zpow_mul, zpow_natCast, zpow_natCast]
  exact pow_le_pow_left₀ (by norm_num) (by norm_num) k

/-- A `reach` above `400` is too large for the format. -/
theorem magnitude_infinityPlace_le_decimal (hdigits : ∀ c ∈ m.digits, isDigit 10 c = true)
    (hsome : m.isNonzero = true) {e : Int} (hreach : 400 < m.reach e) :
    magnitude infinityPlace ≤ m.decimalValue * 10 ^ e := by
  rw [magnitude_infinityPlace]
  calc (2 : ℚ) ^ (1024 : ℤ) ≤ 2 ^ (3 * (400 : ℕ) : ℤ) :=
        zpow_le_zpow_right₀ (by norm_num) (by norm_num)
    _ ≤ 10 ^ ((400 : ℕ) : ℤ) := two_zpow_le_ten_zpow 400
    _ ≤ 10 ^ (m.reach e - 1) := zpow_le_zpow_right₀ (by norm_num) (by omega)
    _ ≤ m.decimalValue * 10 ^ e := (decimal_bounds hdigits hsome e).1

/-- A `reach` below `-400` is too close to zero for the format. -/
theorem two_mul_decimal_le_gap (hdigits : ∀ c ∈ m.digits, isDigit 10 c = true)
    (hsome : m.isNonzero = true) {e : Int} (hreach : m.reach e < -400) :
    2 * (m.decimalValue * 10 ^ e) ≤ gap 0 := by
  have hhigh := (decimal_bounds hdigits hsome e).2
  calc 2 * (m.decimalValue * 10 ^ e)
      ≤ 2 * 10 ^ m.reach e := by linarith
    _ ≤ 2 * 10 ^ (-((401 : ℕ) : ℤ)) := by
        exact mul_le_mul_of_nonneg_left (zpow_le_zpow_right₀ (by norm_num) (by omega)) (by norm_num)
    _ ≤ 2 * 2 ^ (-(3 * (401 : ℕ) : ℤ)) := by
        rw [zpow_neg, zpow_neg]
        exact mul_le_mul_of_nonneg_left
          (inv_anti₀ (zpow_pos (by norm_num) _) (two_zpow_le_ten_zpow 401)) (by norm_num)
    _ = 2 ^ (1 + -(3 * (401 : ℕ) : ℤ)) := (zpow_one_add₀ (by norm_num) _).symm
    _ ≤ gap 0 := zpow_le_zpow_right₀ (by norm_num) (by norm_num)

/-- `decimalValue` times a power of ten is a quotient of natural numbers. -/
theorem decimalValue_mul_zpow (m : Mantissa) (e : Int) :
    m.decimalValue * 10 ^ e =
      (digitsValue 10 m.digits * 10 ^ (e - m.fraction.length : Int).toNat : ℕ) /
        (10 ^ (-(e - m.fraction.length : Int)).toNat : ℕ) := by
  have hscale : (10 : ℚ) ^ (e - m.fraction.length) =
      10 ^ (e - m.fraction.length : Int).toNat / 10 ^ (-(e - m.fraction.length : Int)).toNat := by
    rw [← zpow_natCast, ← zpow_natCast, ← zpow_sub₀ (by norm_num)]
    congr 1
    omega
  rw [decimalValue_mul_scale, hscale]
  push_cast
  ring

/-- `roundDecimal` rounds to nearest. -/
theorem rounds_roundDecimal (hdigits : ∀ c ∈ m.digits, isDigit 10 c = true) (e : Int) :
    (m.roundDecimal e).Rounds (m.decimalValue * 10 ^ e) := by
  unfold roundDecimal
  simp only
  by_cases hsome : m.isNonzero = true
  · rw [if_neg (by rw [hsome]; decide)]
    have hreach : ((m.digits.dropWhile (· = '0')).length : Int) + (e - m.fraction.length) =
        m.reach e := rfl
    rw [hreach]
    by_cases hlarge : decimalReach < m.reach e
    · rw [if_pos hlarge]
      exact Rounded.rounds_tooLarge (magnitude_infinityPlace_le_decimal hdigits hsome hlarge)
    · rw [if_neg hlarge]
      by_cases hsmall : m.reach e < -decimalReach
      · rw [if_pos hsmall]
        exact Rounded.rounds_tooSmall (decimal_pos hdigits hsome e)
          (two_mul_decimal_le_gap hdigits hsome hsmall)
      · rw [if_neg hsmall]
        have hden : 0 < 10 ^ (-(e - m.fraction.length : Int)).toNat := Nat.pow_pos (by decide)
        have hquotient := Rounded.rounds_ofQuotient
          (digitsValue 10 m.digits * 10 ^ (e - m.fraction.length : Int).toNat) hden
        rw [decimalValue_mul_zpow]
        exact hquotient
  · rw [Bool.not_eq_true] at hsome
    rw [if_pos hsome, decimalValue_eq_zero hsome, zero_mul]
    exact @Rounded.rounds_zero 0

/-- If `saturate` changes an exponent, `reach` is beyond `decimalReach` with both. -/
theorem reach_saturate (hlength : m.digits.length < 2 ^ 60) (e : Int) :
    saturate e = e ∨ (decimalReach < m.reach (saturate e) ∧ decimalReach < m.reach e) ∨
      (m.reach (saturate e) < -decimalReach ∧ m.reach e < -decimalReach) := by
  have hsignificant : (m.digits.dropWhile (· = '0')).length ≤ m.digits.length :=
    (List.dropWhile_suffix _).length_le
  have hfraction := m.length_fraction_le
  unfold saturate reach exponentLimit decimalReach
  omega

/-- **`roundDecimal` rounds to nearest, also with the exponent confined.** -/
theorem rounds_roundDecimal_saturate (hdigits : ∀ c ∈ m.digits, isDigit 10 c = true)
    (hlength : m.digits.length < 2 ^ 60) (e : Int) :
    (m.roundDecimal (saturate e)).Rounds (m.decimalValue * 10 ^ e) := by
  have hrounds := rounds_roundDecimal hdigits (saturate e)
  by_cases hsome : m.isNonzero = true
  · rcases reach_saturate hlength e with heq | ⟨hlarge, hlarge'⟩ | ⟨hsmall, hsmall'⟩
    · rw [heq] at hrounds ⊢
      exact hrounds
    · exact hrounds.of_large (magnitude_infinityPlace_le_decimal hdigits hsome hlarge)
        (magnitude_infinityPlace_le_decimal hdigits hsome hlarge')
    · exact hrounds.of_small (decimal_pos hdigits hsome _) (decimal_pos hdigits hsome _)
        (two_mul_decimal_le_gap hdigits hsome hsmall) (two_mul_decimal_le_gap hdigits hsome hsmall')
  · -- zero is zero at every exponent
    rw [Bool.not_eq_true] at hsome
    rw [decimalValue_eq_zero hsome, zero_mul] at hrounds ⊢
    exact hrounds

end Mantissa

end NetKit
