import NetKit.Proofs.Number.FloatNumeral

/-!
# Hexadecimal floats — the strict reader rounds every numeral to the nearest value

A `HexNumeral` denotes a rational number, and the number has one rounding. `parseBinary64` gives exactly
this value, with the sign of the numeral, also if it is zero; but it rejects what overflows to infinity,
and what cannot be told exactly below the normal numbers.

Everything has been said elsewhere: the numeral is read back (`HexNumeral.read?_text`), its mantissa is
rounded to the nearest value for every exponent (`Mantissa.rounds_roundHex`), and whether the value is
called exact tells whether it is the number (`Rounded.Rounds`). What is left is to follow the two checks
of the reader.

## Contents
- `Binary64.IsRounding`, `Binary64.isRounding_iff_eq`: the rounding of a number with a sign.
- `HexNumeral.StandsIn`: texts whose number is a numeral.
- `Rounded.Rounds.isOutOfRange_iff`: which roundings are rejected.
- `parseBinary64_hexNumeral`: the strict reader on hexadecimal numerals.
-/

namespace NetKit

/-- `r` is the rounding of the number with sign `negative` and magnitude `q`. -/
structure Binary64.IsRounding (r : Binary64) (negative : Bool) (q : ℚ) : Prop where
  sign : r.negative = negative
  nearest : Binary64.NearestEven q r.place

/-- `IsRounding` determines the value, zero with its sign. -/
theorem Binary64.isRounding_iff_eq {r : Binary64} {negative : Bool} {q : ℚ}
    (h : r.IsRounding negative q) (r' : Binary64) : r'.IsRounding negative q ↔ r' = r := by
  constructor
  · intro h'
    obtain ⟨negative', place', _⟩ := r'
    obtain ⟨negative, place, _⟩ := r
    have hsign : negative' = negative := h'.sign.trans h.sign.symm
    have hplace : place' = place := h'.nearest.unique h.nearest
    subst hsign hplace
    rfl
  · rintro rfl
    exact h

namespace Rounded

open Binary64

/-- `withSign` puts the sign to a rounding. -/
theorem Rounds.isRounding_withSign {r : Rounded} {q : ℚ} (h : r.Rounds q) (negative : Bool) :
    (r.value.withSign negative).IsRounding negative q := by
  cases negative with
  | false => exact ⟨rfl, h.nearest⟩
  | true => exact ⟨rfl, h.nearest⟩

theorem place_withSign (r : Rounded) (negative : Bool) :
    (r.value.withSign negative).place = r.value.place := by
  cases negative <;> rfl

theorem place_lt_minNormalPlace_iff {place : Nat} :
    place < minNormalPlace ↔ magnitude place < 2 ^ (-1022 : ℤ) := by
  rw [← magnitude_minNormalPlace, magnitude_strictMono.lt_iff_lt]

/-- **`isOutOfRange` holds for infinite roundings**, and for inexact ones below the normal numbers. -/
theorem Rounds.isOutOfRange_iff {r : Rounded} {q : ℚ} (h : r.Rounds q) :
    (r.overflows || (!r.exact && r.isBelowNormal)) = true ↔
      r.value.place = infinityPlace ∨
        (magnitude r.value.place < 2 ^ (-1022 : ℤ) ∧ magnitude r.value.place ≠ q) := by
  unfold overflows isBelowNormal
  rw [Bool.or_eq_true, beq_iff_eq, Bool.and_eq_true, decide_eq_true_eq, Bool.not_eq_true',
    place_lt_minNormalPlace_iff, and_comm]
  apply or_congr_right'
  intro hfinite
  rw [ne_eq, ← h.exact_iff (Nat.lt_of_le_of_ne h.nearest.le hfinite), Bool.not_eq_true]

/-- Zero is exact. -/
theorem Rounds.magnitude_of_zero {r : Rounded} (h : r.Rounds 0) :
    magnitude r.value.place = 0 := by
  have hzero : 2 * (0 : ℚ) ≤ gap 0 := by rw [mul_zero]; exact le_of_lt (gap_pos 0)
  rw [h.nearest.unique (nearestEven_zero hzero), magnitude_zero]

end Rounded

/-! ## The strict reader -/

open Binary64

/-- A text has at least a byte for every character. -/
theorem Text.length_le_byteLength (t : Text) : t.length ≤ t.byteLength := by
  induction t with
  | nil => exact Nat.le_refl _
  | cons c t ih =>
      have hone : 1 ≤ c.utf8Size := Char.utf8Size_pos c
      have hcons : Text.byteLength (c :: t) = c.utf8Size + Text.byteLength t := List.sum_cons
      rw [hcons, List.length_cons]
      omega

/-- A mantissa in a text has no more digits than the text has bytes. -/
theorem NumeralMantissa.length_digits_le_byteLength {radix : Nat} {m : NumeralMantissa radix} {t : Text}
    (hmantissa : m.text <:+: t) : m.mantissa.digits.length ≤ t.byteLength :=
  (m.length_digits_le.trans hmantissa.length_le).trans t.length_le_byteLength

/-- `parseBinary64` on a literal that only blanks follow. -/
theorem parseBinary64_of_read? {t : Text} {l : FloatLiteral} (hread : FloatLiteral.read? t = some l)
    (hrest : ∀ c ∈ l.rest, isBlank c = true) :
    parseBinary64 t =
      if l.form.isOutOfRange = true then .error ⟨.outOfRange, t⟩ else .ok l.value := by
  have hblanks : l.rest.all isBlank = true := List.all_eq_true.mpr hrest
  unfold parseBinary64 strictly endingAfter
  rw [hread]
  simp only [hblanks, if_true]

/-- `t` is `n.text` with blanks around it. -/
def HexNumeral.StandsIn (n : HexNumeral) (t : Text) : Prop :=
  ∃ before after, (∀ c ∈ before, isBlank c = true) ∧ (∀ c ∈ after, isBlank c = true) ∧
    t = before ++ (n.text ++ after)

/-- `Mantissa.roundHex` with the exponent of `n` confined. -/
def HexNumeral.rounded (n : HexNumeral) : Rounded :=
  n.mantissa.mantissa.roundHex (saturate n.exponentValue)

/-- `HexNumeral.rounded` is the value nearest to the number. -/
theorem HexNumeral.rounds_rounded {n : HexNumeral} {t : Text} (hstands : n.StandsIn t)
    (hsize : t.byteLength < 2 ^ 60) : n.rounded.Rounds n.value := by
  obtain ⟨before, after, -, -, rfl⟩ := hstands
  have hmantissa : n.mantissa.text <:+: before ++ (n.text ++ after) :=
    ⟨before ++ (n.sign.text ++ ['0', n.mark]), n.exponentText ++ after, by
      simp only [HexNumeral.text, List.append_assoc, List.cons_append, List.nil_append]⟩
  exact Mantissa.rounds_roundHex n.mantissa.isDigit_digits
    (Nat.lt_of_le_of_lt (NumeralMantissa.length_digits_le_byteLength hmantissa) hsize) n.exponentValue

/-- `parseBinary64` on a hexadecimal numeral. -/
theorem parseBinary64_of_standsIn {n : HexNumeral} {t : Text} (hstands : n.StandsIn t) :
    parseBinary64 t =
      if (n.rounded.overflows || (!n.rounded.exact && n.rounded.isBelowNormal)) = true then
        .error ⟨.outOfRange, t⟩
      else .ok (n.rounded.value.withSign n.negative) := by
  obtain ⟨before, after, hbefore, hafter, rfl⟩ := hstands
  exact parseBinary64_of_read? (n.read?_text hbefore hafter) hafter

/-- **Hexadecimal numerals are correctly rounded.** A numeral has one rounding, with the sign of the
    numeral. `parseBinary64` gives it if it is finite and, below the normal numbers, exact. Otherwise the
    number is out of range, which is to say that it is rounded to infinity, or that it is not zero and is
    rounded inexactly to zero or to a subnormal number. -/
theorem parseBinary64_hexNumeral (n : HexNumeral) {t : Text} (hstands : n.StandsIn t)
    (hsize : t.byteLength < 2 ^ 60) :
    ∃ r : Binary64, (∀ r' : Binary64, r'.IsRounding n.negative n.value ↔ r' = r) ∧
      parseBinary64 t =
        (if r.place ≠ infinityPlace ∧
            (2 ^ (-1022 : ℤ) ≤ magnitude r.place ∨ magnitude r.place = n.value) then .ok r
          else .error ⟨.outOfRange, t⟩) ∧
      (parseBinary64 t = .error ⟨.outOfRange, t⟩ ↔
        r.place = infinityPlace ∨
          (n.value ≠ 0 ∧ magnitude r.place < 2 ^ (-1022 : ℤ) ∧ magnitude r.place ≠ n.value)) := by
  have hrounds := HexNumeral.rounds_rounded hstands hsize
  have hparse := parseBinary64_of_standsIn hstands
  have hrejected := hrounds.isOutOfRange_iff
  refine ⟨n.rounded.value.withSign n.negative,
    isRounding_iff_eq (hrounds.isRounding_withSign n.negative), ?_, ?_⟩
  · rw [hparse, Rounded.place_withSign]
    by_cases hout : (n.rounded.overflows || (!n.rounded.exact && n.rounded.isBelowNormal)) = true
    · rw [if_pos hout, if_neg]
      rintro ⟨hfinite, hnormal⟩
      rcases hrejected.mp hout with hinfinite | ⟨hsmall, hinexact⟩
      · exact hfinite hinfinite
      · rcases hnormal with hle | heq
        · exact absurd hsmall (not_lt.mpr hle)
        · exact hinexact heq
    · rw [if_neg hout, if_pos]
      rw [hrejected, not_or, not_and_or, not_lt, ne_eq, not_not] at hout
      exact hout
  · rw [hparse, Rounded.place_withSign]
    -- what is not exact is not zero, so that the two ways to say out of range agree
    have hzero : magnitude n.rounded.value.place ≠ n.value → n.value ≠ 0 := by
      intro hinexact hvalue
      rw [hvalue] at hrounds hinexact
      exact hinexact hrounds.magnitude_of_zero
    constructor
    · intro herror
      by_cases hout : (n.rounded.overflows || (!n.rounded.exact && n.rounded.isBelowNormal)) = true
      · exact (hrejected.mp hout).imp_right fun h => ⟨hzero h.2, h⟩
      · rw [if_neg hout] at herror
        cases herror
    · intro h
      rw [if_pos (hrejected.mpr (h.imp_right And.right))]

/-- Above the middle between one and its successor, by a digit that is not kept. -/
def HexNumeral.aboveTie : HexNumeral where
  sign := .none
  mark := 'x'
  mantissa := ⟨['1'], some "0000000000000800001".toList, List.all_eq_true.mp rfl,
    List.all_eq_true.mp rfl, by decide⟩
  exponent := some ⟨'P', .minus, ['0'], by decide, List.all_eq_true.mp rfl, by decide⟩
  mark_eq := .inl rfl

/-- The dropped digit of `aboveTie` decides: the number is rounded up. -/
theorem parseBinary64_hexNumeral_aboveTie :
    HexNumeral.aboveTie.StandsIn " 0x1.0000000000000800001P-0\n".toList ∧
      Text.byteLength " 0x1.0000000000000800001P-0\n".toList < 2 ^ 60 ∧
      parseBinary64 " 0x1.0000000000000800001P-0\n".toList =
        .ok ⟨false, 1023 * 2 ^ 52 + 1, by decide⟩ ∧
      Binary64.IsRounding ⟨false, 1023 * 2 ^ 52 + 1, by decide⟩ false HexNumeral.aboveTie.value := by
  have hstands : HexNumeral.aboveTie.StandsIn " 0x1.0000000000000800001P-0\n".toList :=
    ⟨[' '], ['\n'], List.all_eq_true.mp rfl, List.all_eq_true.mp rfl, rfl⟩
  have hparse : parseBinary64 " 0x1.0000000000000800001P-0\n".toList =
      .ok ⟨false, 1023 * 2 ^ 52 + 1, by decide⟩ := by decide +kernel
  refine ⟨hstands, by decide, hparse, ?_⟩
  obtain ⟨r, hrounding, hread, -⟩ := parseBinary64_hexNumeral _ hstands (by decide)
  rw [hparse] at hread
  split at hread
  · exact (hrounding _).mpr (Except.ok.inj hread)
  · cases hread

end NetKit
