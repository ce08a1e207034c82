import NetKit.Proofs.Number.HexFloat

/-!
# Decimal floats — the strict reader, and how it differs from the one of hexadecimal numerals

A `DecimalNumeral` is rounded to the nearest value as a `HexNumeral` is, and both are out of range if
that value is infinite. Close to zero they are not treated alike. `HexNumeral.isRejected` holds below
the normal numbers if the rounding is not exact. `DecimalNumeral.isRejected` holds there unless the
number is zero: it does not ask whether the rounding is exact.

So two spellings of one number are read as the same value, or are both out of range, except if the number
is exactly a subnormal one (`Binary64.IsSubnormal`). Such a number has hundreds of decimal digits, but it
can be written down.

## Contents
- `DecimalNumeral.StandsIn`, `DecimalNumeral.rounds_rounded`: texts whose number is a decimal numeral.
- `DecimalNumeral.isRejected_iff`: which decimal numerals are rejected.
- `Binary64.IsSubnormal`: the numbers on which the two spellings differ.
- `parseBinary64_decimal_hex`: the strict reader on two spellings of one number.
-/

namespace NetKit

open Binary64

/-! ## The strict reader on decimal numerals -/

/-- `t` is `n.text` with blanks around it. -/
def DecimalNumeral.StandsIn (n : DecimalNumeral) (t : Text) : Prop :=
  ∃ before after, (∀ c ∈ before, isBlank c = true) ∧ (∀ c ∈ after, isBlank c = true) ∧
    t = before ++ (n.text ++ after)

/-- `Mantissa.roundDecimal` with the exponent of `n` confined. -/
def DecimalNumeral.rounded (n : DecimalNumeral) : Rounded :=
  n.mantissa.mantissa.roundDecimal (saturate n.exponentValue)

/-- The test of `FloatForm.isOutOfRange` on `n`. -/
def DecimalNumeral.isRejected (n : DecimalNumeral) : Bool :=
  n.rounded.overflows || (n.mantissa.mantissa.isNonzero && n.rounded.isBelowNormal)

/-- `n` stands in `n.text`. -/
theorem DecimalNumeral.standsIn_text (n : DecimalNumeral) : n.StandsIn n.text :=
  ⟨[], [], List.forall_mem_nil _, List.forall_mem_nil _, (List.append_nil _).symm⟩

section Decimal

variable {n : DecimalNumeral} {t : Text}

/-- `DecimalNumeral.rounded` is the value nearest to the number. -/
theorem DecimalNumeral.rounds_rounded (hstands : n.StandsIn t) (hsize : t.byteLength < 2 ^ 60) :
    n.rounded.Rounds n.value := by
  obtain ⟨before, after, -, -, rfl⟩ := hstands
  have hmantissa : n.mantissa.text <:+: before ++ (n.text ++ after) :=
    ⟨before ++ n.sign.text, n.exponentText ++ after, by
      simp only [DecimalNumeral.text, List.append_assoc]⟩
  exact Mantissa.rounds_roundDecimal_saturate n.mantissa.isDigit_digits
    (Nat.lt_of_le_of_lt (NumeralMantissa.length_digits_le_byteLength hmantissa) hsize) n.exponentValue

/-- `parseBinary64` on a decimal numeral. -/
theorem parseBinary64_of_decimal (hstands : n.StandsIn t) :
    parseBinary64 t =
      if n.isRejected = true then .error ⟨.outOfRange, t⟩
      else .ok (n.rounded.value.withSign n.negative) := by
  obtain ⟨before, after, hbefore, hafter, rfl⟩ := hstands
  exact parseBinary64_of_read? (n.read?_text hbefore hafter) hafter

/-- `Mantissa.isNonzero` tells whether the number is, since a power of ten is not zero. -/
theorem DecimalNumeral.isNonzero_iff (n : DecimalNumeral) :
    n.mantissa.mantissa.isNonzero = true ↔ n.value ≠ 0 := by
  have hscale : (10 : ℚ) ^ n.exponentValue ≠ 0 := zpow_ne_zero _ (by norm_num)
  rw [Mantissa.isNonzero_iff n.mantissa.isDigit_digits]
  unfold DecimalNumeral.value
  exact ⟨fun h => mul_ne_zero h hscale, left_ne_zero_of_mul⟩

/-- **`isRejected` holds for infinite roundings**, and for numbers other than zero with a rounding below the
    normal ones. -/
theorem DecimalNumeral.isRejected_iff (n : DecimalNumeral) :
    n.isRejected = true ↔ n.rounded.value.place = infinityPlace ∨
      (n.value ≠ 0 ∧ magnitude n.rounded.value.place < 2 ^ (-1022 : ℤ)) := by
  unfold DecimalNumeral.isRejected Rounded.overflows Rounded.isBelowNormal
  rw [Bool.or_eq_true, beq_iff_eq, Bool.and_eq_true, decide_eq_true_eq, n.isNonzero_iff,
    Rounded.place_lt_minNormalPlace_iff]

end Decimal

/-! ## Two spellings of one number -/

/-- `q` is exactly a subnormal number. -/
def Binary64.IsSubnormal (q : ℚ) : Prop :=
  ∃ place, 0 < place ∧ place < minNormalPlace ∧ magnitude place = q

/-- The test of `FloatForm.isOutOfRange` on a hexadecimal numeral. -/
def HexNumeral.isRejected (n : HexNumeral) : Bool :=
  n.rounded.overflows || (!n.rounded.exact && n.rounded.isBelowNormal)

theorem HexNumeral.standsIn_text (n : HexNumeral) : n.StandsIn n.text :=
  ⟨[], [], List.forall_mem_nil _, List.forall_mem_nil _, (List.append_nil _).symm⟩

section Spellings

variable {n : DecimalNumeral} {m : HexNumeral} {q : ℚ} {r : Rounded}

/-- `Rounds` is exact on subnormal numbers. -/
theorem Rounded.Rounds.of_isSubnormal (h : r.Rounds q) (hq : IsSubnormal q) :
    magnitude r.value.place = q ∧ 0 < r.value.place ∧ r.value.place < minNormalPlace := by
  obtain ⟨place, hpos, hlt, rfl⟩ := hq
  have hle : place ≤ infinityPlace := Nat.le_of_lt (Nat.lt_trans hlt (by decide))
  rw [h.nearest.unique (nearestEven_magnitude hle)]
  exact ⟨rfl, hpos, hlt⟩

/-- Below the normal numbers `magnitude` gives zero and the subnormal numbers. -/
theorem isSubnormal_of_magnitude_eq {place : Nat} (hq : q ≠ 0) (hsmall : magnitude place < 2 ^ (-1022 : ℤ))
    (hexact : magnitude place = q) : IsSubnormal q := by
  refine ⟨place, Nat.pos_of_ne_zero ?_, Rounded.place_lt_minNormalPlace_iff.mpr hsmall, hexact⟩
  rintro rfl
  rw [magnitude_zero] at hexact
  exact hq hexact.symm

/-- A hexadecimal numeral with `IsSubnormal` is not rejected. -/
theorem HexNumeral.not_isRejected_of_isSubnormal (h : m.rounded.Rounds m.value)
    (hm : IsSubnormal m.value) : m.isRejected = false := by
  obtain ⟨hexact, -, hlt⟩ := h.of_isSubnormal hm
  apply Bool.eq_false_iff.mpr
  intro hrejected
  rcases h.isOutOfRange_iff.mp hrejected with hinfinite | ⟨-, hinexact⟩
  · rw [hinfinite] at hlt
    exact absurd hlt (by decide)
  · exact hinexact hexact

/-- A decimal numeral with `IsSubnormal` is rejected. -/
theorem DecimalNumeral.isRejected_of_isSubnormal (h : n.rounded.Rounds n.value)
    (hn : IsSubnormal n.value) : n.isRejected = true := by
  obtain ⟨hexact, hpos, hlt⟩ := h.of_isSubnormal hn
  refine n.isRejected_iff.mpr (.inr ⟨?_, Rounded.place_lt_minNormalPlace_iff.mp hlt⟩)
  rw [← hexact, ← magnitude_zero]
  exact magnitude_strictMono.injective.ne (Nat.ne_of_gt hpos)

/-- Without `IsSubnormal` the two tests agree. -/
theorem isRejected_iff_of_not_isSubnormal (hn : n.rounded.Rounds n.value)
    (hm : m.rounded.Rounds m.value) (hvalue : n.value = m.value) (hnot : ¬ IsSubnormal n.value) :
    n.isRejected = true ↔ m.isRejected = true := by
  have hplace : n.rounded.value.place = m.rounded.value.place :=
    hn.nearest.unique (hvalue ▸ hm.nearest)
  rw [n.isRejected_iff, HexNumeral.isRejected, hm.isOutOfRange_iff, ← hplace, ← hvalue]
  apply or_congr_right
  constructor
  · rintro ⟨hne, hsmall⟩
    exact ⟨hsmall, fun hexact => hnot (isSubnormal_of_magnitude_eq hne hsmall hexact)⟩
  · rintro ⟨hsmall, hinexact⟩
    refine ⟨fun hzero => ?_, hsmall⟩
    rw [hzero] at hn hinexact
    exact hinexact hn.magnitude_of_zero

end Spellings

/-- **A decimal and a hexadecimal spelling of one number are read alike, unless it is subnormal.**
    `parseBinary64` gives the rounding of both, or both are out of range. A number with `IsSubnormal` is
    read from its hexadecimal spelling only: the decimal spelling is out of range. -/
theorem parseBinary64_decimal_hex (n : DecimalNumeral) (m : HexNumeral) {t u : Text}
    (hn : n.StandsIn t) (hm : m.StandsIn u) (htsize : t.byteLength < 2 ^ 60)
    (husize : u.byteLength < 2 ^ 60) (hsign : n.negative = m.negative) (hvalue : n.value = m.value) :
    (¬ IsSubnormal n.value →
      (∃ r : Binary64, parseBinary64 t = .ok r ∧ parseBinary64 u = .ok r ∧
        r.IsRounding n.negative n.value) ∨
      (parseBinary64 t = .error ⟨.outOfRange, t⟩ ∧ parseBinary64 u = .error ⟨.outOfRange, u⟩)) ∧
    (IsSubnormal n.value →
      parseBinary64 t = .error ⟨.outOfRange, t⟩ ∧
      ∃ r : Binary64, parseBinary64 u = .ok r ∧ r.negative = m.negative ∧
        magnitude r.place = m.value) := by
  have hdecimal := DecimalNumeral.rounds_rounded hn htsize
  have hhex := HexNumeral.rounds_rounded hm husize
  have ht := parseBinary64_of_decimal hn
  have hu : parseBinary64 u = if m.isRejected = true then .error ⟨.outOfRange, u⟩
      else .ok (m.rounded.value.withSign m.negative) := parseBinary64_of_standsIn hm
  constructor
  · intro hnot
    have hboth := isRejected_iff_of_not_isSubnormal hdecimal hhex hvalue hnot
    by_cases hrejected : n.isRejected = true
    · right
      rw [ht, hu, if_pos hrejected, if_pos (hboth.mp hrejected)]
      exact ⟨rfl, rfl⟩
    · left
      have hrounding := hdecimal.isRounding_withSign n.negative
      have hrounding' := hhex.isRounding_withSign m.negative
      rw [← hsign, ← hvalue] at hrounding'
      have hsame := (isRounding_iff_eq hrounding _).mp hrounding'
      refine ⟨n.rounded.value.withSign n.negative, ?_, ?_, hrounding⟩
      · rw [ht, if_neg hrejected]
      · rw [hu, if_neg (mt hboth.mpr hrejected), ← hsign, hsame]
  · intro hsubnormal
    have hrejected := DecimalNumeral.isRejected_of_isSubnormal hdecimal hsubnormal
    rw [hvalue] at hsubnormal
    have haccepted := HexNumeral.not_isRejected_of_isSubnormal hhex hsubnormal
    constructor
    · rw [ht, if_pos hrejected]
    · refine ⟨m.rounded.value.withSign m.negative, ?_,
        (hhex.isRounding_withSign m.negative).sign, ?_⟩
      · rw [hu, haccepted, if_neg Bool.false_ne_true]
      · rw [Rounded.place_withSign]
        exact (hhex.of_isSubnormal hsubnormal).1

/-- The digits of `n`, without a point. -/
def NumeralMantissa.ofNat {radix : Nat} (hlow : 1 < radix) (hhigh : radix ≤ 16) (n : Nat) :
    NumeralMantissa radix where
  whole := Nat.toDigits radix n
  fraction := none
  isDigit_whole _ hc := isDigit_of_mem_toDigits hlow hhigh hc
  isDigit_fraction _ hc := nomatch hc
  digits_ne_nil hnil := Nat.toDigits_ne_nil (List.append_eq_nil_iff.mp hnil).1

theorem NumeralMantissa.digitsValue_ofNat {radix : Nat} (hlow : 1 < radix) (hhigh : radix ≤ 16)
    (n : Nat) : digitsValue radix (NumeralMantissa.ofNat hlow hhigh n).mantissa.digits = n := by
  unfold ofNat mantissa Mantissa.digits
  rw [Option.getD_none, List.append_nil, digitsValue_toDigits hlow hhigh]

/-- The exponent `-k` in decimal digits. -/
def NumeralExponent.ofNeg (marker : Char) (k : Nat) : NumeralExponent marker where
  letter := marker
  sign := .minus
  digits := Nat.toDigits 10 k
  letter_eq := .inl rfl
  isDigit_digits _ hc := isDigit_of_mem_toDigits (by decide) (by decide) hc
  digits_ne_nil := Nat.toDigits_ne_nil

theorem NumeralExponent.value_ofNeg (marker : Char) (k : Nat) :
    (NumeralExponent.ofNeg marker k).value = -(k : ℤ) := by
  have hdigits : digitsValue 10 (Nat.toDigits 10 k) = k := digitsValue_toDigits (by decide) (by decide) k
  unfold value ofNeg
  rw [hdigits]
  rfl

/-- 2^-`k` in decimal, as 5^`k` / 10^`k`. -/
def DecimalNumeral.halved (k : Nat) : DecimalNumeral :=
  ⟨.none, .ofNat (by decide) (by decide) (5 ^ k), some (.ofNeg 'e' k)⟩

/-- 2^-`k` in hexadecimal. -/
def HexNumeral.halved (k : Nat) : HexNumeral :=
  ⟨.none, 'X', .ofNat (by decide) (by decide) 1, some (.ofNeg 'p' k), .inr rfl⟩

theorem DecimalNumeral.value_halved (k : Nat) :
    (DecimalNumeral.halved k).value = 2 ^ (-(k : ℤ)) := by
  have hmantissa : (DecimalNumeral.halved k).mantissa.mantissa.decimalValue = 5 ^ k := by
    unfold DecimalNumeral.halved Mantissa.decimalValue
    rw [NumeralMantissa.digitsValue_ofNat]
    push_cast
    exact div_one _
  have hexponent : (DecimalNumeral.halved k).exponentValue = -(k : ℤ) :=
    NumeralExponent.value_ofNeg 'e' k
  unfold value
  rw [hmantissa, hexponent, zpow_neg, zpow_neg, zpow_natCast, zpow_natCast,
    show (10 : ℚ) = 5 * 2 by norm_num, mul_pow, mul_inv, mul_inv_cancel_left₀ (by positivity)]

theorem HexNumeral.value_halved (k : Nat) : (HexNumeral.halved k).value = 2 ^ (-(k : ℤ)) := by
  have hmantissa : (HexNumeral.halved k).mantissa.mantissa.hexValue = 1 := by
    unfold HexNumeral.halved Mantissa.hexValue
    rw [NumeralMantissa.digitsValue_ofNat, Nat.cast_one]
    exact div_one _
  have hexponent : (HexNumeral.halved k).exponentValue = -(k : ℤ) :=
    NumeralExponent.value_ofNeg 'p' k
  unfold value
  rw [hmantissa, hexponent, one_mul]

/-- 2^-1074 is subnormal. -/
theorem isSubnormal_smallest : IsSubnormal (2 ^ (-(1074 : ℕ) : ℤ)) := by
  have hplace : magnitude (0 * 2 ^ 52 + 1) = (1 : ℕ) * gap 0 :=
    magnitude_grid (by decide) (.inl rfl)
  refine ⟨1, Nat.one_pos, by decide, ?_⟩
  calc magnitude 1 = magnitude (0 * 2 ^ 52 + 1) := by rw [Nat.zero_mul, Nat.zero_add]
    _ = gap 0 := by rw [hplace, Nat.cast_one, one_mul]
    _ = 2 ^ (-(1074 : ℕ) : ℤ) := rfl

theorem not_isSubnormal_half : ¬ IsSubnormal (2 ^ (-(1 : ℕ) : ℤ)) := by
  rintro ⟨place, -, hlt, hplace⟩
  have hsmall := Rounded.place_lt_minNormalPlace_iff.mp hlt
  rw [hplace] at hsmall
  exact absurd hsmall (not_lt.mpr (zpow_le_zpow_right₀ (by norm_num) (by norm_num)))

/-- `halved 1`, one half, is read alike from both spellings; `halved 1074` is not. -/
theorem parseBinary64_decimal_hex_halved :
    (∃ r : Binary64, parseBinary64 (DecimalNumeral.halved 1).text = .ok r ∧
      parseBinary64 (HexNumeral.halved 1).text = .ok r ∧
      r.IsRounding false (DecimalNumeral.halved 1).value) ∧
    parseBinary64 (DecimalNumeral.halved 1074).text =
      .error ⟨.outOfRange, (DecimalNumeral.halved 1074).text⟩ ∧
    ∃ r : Binary64, parseBinary64 (HexNumeral.halved 1074).text = .ok r ∧ r.negative = false ∧
      magnitude r.place = (HexNumeral.halved 1074).value := by
  have hvalue : ∀ k, (DecimalNumeral.halved k).value = (HexNumeral.halved k).value := fun k =>
    (DecimalNumeral.value_halved k).trans (HexNumeral.value_halved k).symm
  have hsubnormal := isSubnormal_smallest
  have hnot := not_isSubnormal_half
  rw [← DecimalNumeral.value_halved] at hsubnormal hnot
  have hhalf := (parseBinary64_decimal_hex (.halved 1) (.halved 1) (DecimalNumeral.standsIn_text _)
    (HexNumeral.standsIn_text _) (by decide +kernel) (by decide +kernel) rfl (hvalue 1)).1 hnot
  have hsmallest := (parseBinary64_decimal_hex (.halved 1074) (.halved 1074)
    (DecimalNumeral.standsIn_text _) (HexNumeral.standsIn_text _) (by decide +kernel)
    (by decide +kernel) rfl (hvalue 1074)).2 hsubnormal
  refine ⟨?_, hsmallest⟩
  rcases hhalf with hread | ⟨herror, -⟩
  · exact hread
  · have hread : parseBinary64 (DecimalNumeral.halved 1).text = .ok ⟨false, 1022 * 2 ^ 52, by decide⟩ := by
      decide +kernel
    rw [hread] at herror
    cases herror

/-- `halved 1074` refutes that the two spellings are always read alike. -/
theorem not_parseBinary64_decimal_eq_hex :
    ¬ ∀ (n : DecimalNumeral) (m : HexNumeral) (t u : Text), n.StandsIn t → m.StandsIn u →
        t.byteLength < 2 ^ 60 → u.byteLength < 2 ^ 60 → n.negative = m.negative → n.value = m.value →
        (∃ r : Binary64, parseBinary64 t = .ok r ∧ parseBinary64 u = .ok r) ∨
        (parseBinary64 t = .error ⟨.outOfRange, t⟩ ∧ parseBinary64 u = .error ⟨.outOfRange, u⟩) := by
  intro hagree
  have hdecimal : parseBinary64 (DecimalNumeral.halved 1074).text =
      .error ⟨.outOfRange, (DecimalNumeral.halved 1074).text⟩ := by decide +kernel
  have hhex : parseBinary64 (HexNumeral.halved 1074).text = .ok ⟨false, 1, by decide⟩ := by
    decide +kernel
  rcases hagree (.halved 1074) (.halved 1074) _ _ (DecimalNumeral.standsIn_text _)
    (HexNumeral.standsIn_text _) (by decide +kernel) (by decide +kernel) rfl
    ((DecimalNumeral.value_halved 1074).trans (HexNumeral.value_halved 1074).symm) with
    ⟨r, hread, -⟩ | ⟨-, herror⟩
  · rw [hdecimal] at hread
    cases hread
  · rw [hhex] at herror
    cases herror

end NetKit
