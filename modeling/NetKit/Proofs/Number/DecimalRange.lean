import NetKit.Proofs.Number.DecimalFloat

/-!
# Decimal range — decimal numerals that are zero, normal, too large or too small

A `DecimalNumeral` denotes a rational number, and the number has one rounding. This file says what
`parseBinary64` makes of it wherever that rounding is not a subnormal number. Zero is read as zero with
its sign (`Binary64.signedZero`), however it is written. A normal rounding is read as it is. What is rounded
to infinity is out of range, and so is what is rounded to zero but is not zero.

Zero is told from what is rounded to zero by the digits of the mantissa alone, and a digit of the exponent does
not count (`DecimalNumeral.isNonzero_iff`). The exponent is confined to 64 bits where it is read. Whether that
changes the rounding is asked of the numeral by itself (`DecimalNumeral.ConfinedAlike`): it changes nothing for
zero, and nothing in any text that is shorter than 2^60 bytes.

## Contents
- `DecimalNumeral.ConfinedAlike`: numerals that are rounded alike with a confined exponent.
- `DecimalNumeral.ConfinedAlike.isRounding`: the value that is computed is the rounding.
- `parseBinary64_decimalNumeral`: the strict reader on decimal numerals.
-/

namespace NetKit

open Binary64

namespace DecimalNumeral

variable {n : DecimalNumeral} {t : Text}

/-! ## Confined exponents -/

/-- The number that `n` denotes with its exponent confined by `saturate`. -/
def confinedValue (n : DecimalNumeral) : ℚ :=
  n.mantissa.mantissa.decimalValue * 10 ^ saturate n.exponentValue

/-- `confinedValue` and `value` have the same rounding. -/
def ConfinedAlike (n : DecimalNumeral) : Prop :=
  ∀ place, NearestEven n.confinedValue place ↔ NearestEven n.value place

/-- `DecimalNumeral.rounded` is the rounding of `confinedValue`, for every numeral. -/
theorem nearest_confinedValue (n : DecimalNumeral) :
    NearestEven n.confinedValue n.rounded.value.place :=
  (Mantissa.rounds_roundDecimal n.mantissa.isDigit_digits (saturate n.exponentValue)).nearest

/-- `ConfinedAlike` holds in every text of less than 2^60 bytes. -/
theorem confinedAlike_of_standsIn (hstands : n.StandsIn t) (hsize : t.byteLength < 2 ^ 60) :
    n.ConfinedAlike := by
  have hnearest : NearestEven n.value n.rounded.value.place := (rounds_rounded hstands hsize).nearest
  intro place
  constructor
  · intro hplace
    rw [hplace.unique n.nearest_confinedValue]
    exact hnearest
  · intro hplace
    rw [hplace.unique hnearest]
    exact n.nearest_confinedValue

/-- **`DecimalNumeral.rounded` is the rounding of the number**, given `ConfinedAlike`. -/
theorem ConfinedAlike.isRounding (h : n.ConfinedAlike) :
    (n.rounded.value.withSign n.negative).IsRounding n.negative n.value where
  sign := by cases n.negative <;> rfl
  nearest := by
    rw [Rounded.place_withSign]
    exact (h _).mp n.nearest_confinedValue

/-- `ConfinedAlike` holds for zero, whatever the exponent. -/
theorem confinedAlike_of_zero (hzero : n.value = 0) : n.ConfinedAlike := by
  have hdigits : n.mantissa.mantissa.isNonzero = false := by
    apply Bool.eq_false_iff.mpr
    intro hnonzero
    exact n.isNonzero_iff.mp hnonzero hzero
  have hconfined : n.confinedValue = 0 := by
    unfold confinedValue
    rw [Mantissa.decimalValue_eq_zero hdigits, zero_mul]
  intro place
  rw [hconfined, hzero]

end DecimalNumeral

/-! ## The strict reader -/

/-- Zero with a sign. -/
def Binary64.signedZero (negative : Bool) : Binary64 := ⟨negative, 0, by decide⟩

/-- `signedZero` is the rounding of zero with its sign. -/
theorem Binary64.isRounding_signedZero (negative : Bool) :
    (signedZero negative).IsRounding negative 0 where
  sign := rfl
  nearest := by
    apply nearestEven_zero
    rw [mul_zero]
    exact le_of_lt (gap_pos 0)

/-- **Decimal numerals are correctly rounded outside the subnormal range.** `parseBinary64` reads zero as
    zero with the sign of the numeral. Every number has one rounding with the sign of the numeral. It is
    read if it is normal, and the number is out of range if the rounding is infinite, or if it is zero and
    the number is not. This supposes `ConfinedAlike`, which holds in every text of less than 2^60 bytes. -/
theorem parseBinary64_decimalNumeral (n : DecimalNumeral) {t : Text} (hstands : n.StandsIn t) :
    (n.value = 0 → parseBinary64 t = .ok (signedZero n.negative)) ∧
    (t.byteLength < 2 ^ 60 → n.ConfinedAlike) ∧
    (n.ConfinedAlike →
      ∃ r : Binary64, (∀ r' : Binary64, r'.IsRounding n.negative n.value ↔ r' = r) ∧
        (r.place ≠ infinityPlace ∧ 2 ^ (-1022 : ℤ) ≤ magnitude r.place → parseBinary64 t = .ok r) ∧
        (r.place = infinityPlace ∨ (n.value ≠ 0 ∧ r.place = 0) →
          parseBinary64 t = .error ⟨.outOfRange, t⟩)) := by
  have hparse := parseBinary64_of_decimal hstands
  refine ⟨?_, DecimalNumeral.confinedAlike_of_standsIn hstands, ?_⟩
  · intro hzero
    have hrounding := (DecimalNumeral.confinedAlike_of_zero hzero).isRounding
    rw [hzero] at hrounding
    have hvalue : signedZero n.negative = n.rounded.value.withSign n.negative :=
      (isRounding_iff_eq hrounding _).mp (isRounding_signedZero n.negative)
    have hplace : n.rounded.value.place = 0 := by
      rw [← n.rounded.place_withSign n.negative, ← hvalue]
      rfl
    have haccepted : ¬n.isRejected = true := by
      rw [n.isRejected_iff, hplace]
      rintro (hinfinite | ⟨hnonzero, -⟩)
      · exact absurd hinfinite (by decide)
      · exact hnonzero hzero
    rw [hparse, if_neg haccepted, hvalue]
  · intro halike
    refine ⟨n.rounded.value.withSign n.negative, isRounding_iff_eq halike.isRounding, ?_, ?_⟩
    · rw [Rounded.place_withSign]
      rintro ⟨hfinite, hnormal⟩
      have haccepted : ¬n.isRejected = true := by
        rw [n.isRejected_iff]
        rintro (hinfinite | ⟨-, hsmall⟩)
        · exact hfinite hinfinite
        · exact absurd hsmall (not_lt.mpr hnormal)
      rw [hparse, if_neg haccepted]
    · rw [Rounded.place_withSign]
      intro hout
      have hrejected : n.isRejected = true := by
        rw [n.isRejected_iff]
        refine hout.imp_right ?_
        rintro ⟨hnonzero, hplace⟩
        refine ⟨hnonzero, ?_⟩
        rw [hplace, magnitude_zero]
        exact zpow_pos (by norm_num) _
      rw [hparse, if_pos hrejected]

/-- Zero with a sign, zeros on both sides of the point, and an exponent that is confined. -/
def DecimalNumeral.writtenZero : DecimalNumeral where
  sign := .minus
  mantissa := ⟨"00".toList, some "000".toList, List.all_eq_true.mp rfl, List.all_eq_true.mp rfl, by decide⟩
  exponent := some ⟨'e', .plus, "99999999999999999999".toList, .inl rfl, List.all_eq_true.mp rfl, by decide⟩

/-- 2^53 + 1 with a point behind it, in the middle of two neighbours. -/
def DecimalNumeral.middle : DecimalNumeral where
  sign := .none
  mantissa := ⟨"9007199254740993".toList, some [], List.all_eq_true.mp rfl, List.all_eq_true.mp rfl, by decide⟩
  exponent := none

theorem DecimalNumeral.value_writtenZero : DecimalNumeral.writtenZero.value = 0 := by
  have hdigits : DecimalNumeral.writtenZero.mantissa.mantissa.isNonzero = false := rfl
  unfold value
  rw [Mantissa.decimalValue_eq_zero hdigits, zero_mul]

theorem DecimalNumeral.value_middle : DecimalNumeral.middle.value = 9007199254740993 := by
  have hdigits : digitsValue 10 DecimalNumeral.middle.mantissa.mantissa.digits = 9007199254740993 := by
    decide +kernel
  have hmantissa : DecimalNumeral.middle.mantissa.mantissa.decimalValue = 9007199254740993 := by
    unfold Mantissa.decimalValue
    rw [hdigits]
    exact div_one _
  have hexponent : DecimalNumeral.middle.exponentValue = 0 := rfl
  unfold value
  rw [hmantissa, hexponent, zpow_zero, mul_one]

/-- `DecimalNumeral.middle` is rounded to its even neighbour 2^53. -/
theorem DecimalNumeral.isRounding_middle :
    Binary64.IsRounding ⟨false, 1075 * 2 ^ 52 + 2 ^ 52, by decide⟩ false DecimalNumeral.middle.value where
  sign := rfl
  nearest := by
    have hgap : gap 1075 = 2 := by
      unfold gap
      norm_num
    have hgrid : RoundsOnGrid 9007199254740993 1075 (2 ^ 52) := by
      refine ⟨by decide, .inr ⟨Nat.le_refl _, ?_⟩, ?_, fun _ => rfl⟩ <;> rw [hgap] <;> norm_num
    rw [value_middle]
    exact nearestEven_of_grid hgrid

/-- `writtenZero`, `middle`, and 2^-1075, half of the smallest subnormal number. -/
theorem parseBinary64_decimalNumeral_middle :
    (DecimalNumeral.writtenZero.StandsIn "-00.000e+99999999999999999999".toList ∧
      DecimalNumeral.writtenZero.value = 0 ∧
      parseBinary64 "-00.000e+99999999999999999999".toList = .ok (signedZero true)) ∧
    (DecimalNumeral.middle.StandsIn " 9007199254740993.\n".toList ∧ DecimalNumeral.middle.ConfinedAlike ∧
      parseBinary64 " 9007199254740993.\n".toList = .ok ⟨false, 1075 * 2 ^ 52 + 2 ^ 52, by decide⟩) ∧
    ((DecimalNumeral.halved 1075).ConfinedAlike ∧ (DecimalNumeral.halved 1075).value ≠ 0 ∧
      parseBinary64 (DecimalNumeral.halved 1075).text =
        .error ⟨.outOfRange, (DecimalNumeral.halved 1075).text⟩) := by
  have hzero : DecimalNumeral.writtenZero.StandsIn "-00.000e+99999999999999999999".toList :=
    DecimalNumeral.standsIn_text _
  have hmiddle : DecimalNumeral.middle.StandsIn " 9007199254740993.\n".toList :=
    ⟨[' '], ['\n'], List.all_eq_true.mp rfl, List.all_eq_true.mp rfl, rfl⟩
  obtain ⟨hreadZero, -, -⟩ := parseBinary64_decimalNumeral _ hzero
  obtain ⟨-, halike, hmiddleRead⟩ := parseBinary64_decimalNumeral _ hmiddle
  obtain ⟨-, halikeSmall, hsmallRead⟩ :=
    parseBinary64_decimalNumeral _ (DecimalNumeral.standsIn_text (.halved 1075))
  have hvalueSmall := DecimalNumeral.value_halved 1075
  have hpos : (DecimalNumeral.halved 1075).value ≠ 0 := by
    rw [hvalueSmall]
    exact zpow_ne_zero _ (by norm_num)
  have halike := halike (by decide)
  have halikeSmall := halikeSmall (by decide +kernel)
  refine ⟨⟨hzero, DecimalNumeral.value_writtenZero, hreadZero DecimalNumeral.value_writtenZero⟩,
    ⟨hmiddle, halike, ?_⟩, ⟨halikeSmall, hpos, ?_⟩⟩
  · obtain ⟨r, hrounding, hread, -⟩ := hmiddleRead halike
    obtain rfl := (hrounding _).mp DecimalNumeral.isRounding_middle
    apply hread
    refine ⟨by decide, ?_⟩
    rw [← magnitude_minNormalPlace]
    exact magnitude_strictMono.monotone (by decide)
  · obtain ⟨r, hrounding, -, hout⟩ := hsmallRead halikeSmall
    have hnearest : IsRounding (signedZero false) false (DecimalNumeral.halved 1075).value := by
      refine ⟨rfl, nearestEven_zero ?_⟩
      rw [hvalueSmall, ← zpow_one_add₀ (by norm_num)]
      exact le_refl _
    obtain rfl := (hrounding _).mp hnearest
    exact hout (.inr ⟨hpos, rfl⟩)

end NetKit
