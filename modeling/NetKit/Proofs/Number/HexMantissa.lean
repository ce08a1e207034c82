import NetKit.Number.Mantissa
import NetKit.Proofs.Number.Rounding

/-!
# Hexadecimal mantissas — the digit loop loses nothing that rounding needs

`Mantissa.accumulate` reads the digits of a hexadecimal mantissa one by one into 60 bits. What the loop
maintains is `HexAccumulator.Holds`: the digits so far denote the kept mantissa, shifted by the digits
that were left out, and a rest that is smaller than that shift; `sticky` says whether the rest is zero,
and the exponent counts the digits left out and the digits after the point. A digit is left out only when
`maxKeptDigits` are kept, and then the mantissa has more than the 53 bits that `sticky` asks for.

So the accumulator truncates the number that the digits denote, and rounding it is right
(`Mantissa.rounds_roundHex`), for every exponent. Exponents are confined twice on the way: where they
are read, and where the exponent of the mantissa is added. Either only moves numbers that are far
outside the range of the format, as long as the mantissa has less than 2^60 digits.

## Contents
- `saturate`, `saturatedValue_eq_min`: written exponents.
- `HexAccumulator.Holds`, `HexAccumulator.Holds.push`, `HexAccumulator.Holds.foldl`: the digit loop.
- `clampExponent_add_saturate`, `Rounded.Rounds.of_exponent`: what confining exponents does.
- `Mantissa.hexValue`, `Mantissa.rounds_roundHex`: whole mantissas.
-/

namespace NetKit

/-! ## Written exponents -/

/-- A written exponent, confined to `exponentLimit` either way. -/
def saturate (e : Int) : Int := max (-(exponentLimit : Int)) (min e exponentLimit)

/-- `saturatedValue`, which confines at every digit, confines at the end. -/
theorem saturatedValue_eq_min (ds : Text) :
    saturatedValue ds = min (digitsValue 10 ds) exponentLimit := by
  have hfold : ∀ (ds : Text) (n : Nat),
      ds.foldl (fun value c => min (value * 10 + digitValue c) exponentLimit) (min n exponentLimit) =
        min (ds.foldl (fun value c => value * 10 + digitValue c) n) exponentLimit := by
    -- for every start: once the limit is reached, either side stays there
    intro ds
    induction ds with
    | nil => intro n; rfl
    | cons c ds ih =>
        intro n
        have hstep : min (min n exponentLimit * 10 + digitValue c) exponentLimit =
            min (n * 10 + digitValue c) exponentLimit := by omega
        rw [List.foldl_cons, List.foldl_cons, hstep, ih]
  have hzero : min 0 exponentLimit = 0 := Nat.zero_min _
  have h := hfold ds 0
  rw [hzero] at h
  exact h

/-! ## The digit loop -/

namespace HexAccumulator

/-- What the accumulator says of the digits read so far, of which `places` stand after the point and
    `dropped` were left out: they denote the mantissa and a rest. -/
structure Holds (a : HexAccumulator) (ds : Text) (places dropped rest : Nat) : Prop where
  value : digitsValue 16 ds = a.mantissa * 16 ^ dropped + rest
  rest_lt : rest < 16 ^ dropped
  sticky_iff : a.sticky = true ↔ rest ≠ 0
  exponent : a.exponent = 4 * ((dropped : Int) - places)
  full : dropped ≠ 0 → a.kept = maxKeptDigits
  dropped_le : dropped ≤ ds.length
  kept_le : a.kept ≤ maxKeptDigits
  mantissa_lt : a.mantissa < 16 ^ a.kept
  le_mantissa : a.kept ≠ 0 → 16 ^ (a.kept - 1) ≤ a.mantissa

theorem holds_empty : Holds empty [] 0 0 0 where
  value := rfl
  rest_lt := by decide
  sticky_iff := by decide
  exponent := by decide
  full h := absurd rfl h
  dropped_le := Nat.le_refl _
  kept_le := by decide
  mantissa_lt := by decide
  le_mantissa h := absurd rfl h

/-- The count of significant digits grows by one, unless the mantissa stays zero. -/
theorem significant_push {mantissa kept digit : Nat} (hlt : mantissa < 16 ^ kept)
    (hle : kept ≠ 0 → 16 ^ (kept - 1) ≤ mantissa) (hdigit : digit < 16) :
    mantissa * 16 + digit < 16 ^ (if mantissa ≠ 0 ∨ digit ≠ 0 then kept + 1 else kept) ∧
      ((if mantissa ≠ 0 ∨ digit ≠ 0 then kept + 1 else kept) ≠ 0 →
        16 ^ ((if mantissa ≠ 0 ∨ digit ≠ 0 then kept + 1 else kept) - 1) ≤
          mantissa * 16 + digit) := by
  by_cases hsome : mantissa ≠ 0 ∨ digit ≠ 0
  · rw [if_pos hsome, Nat.pow_succ, Nat.add_sub_cancel]
    refine ⟨by omega, fun _ => ?_⟩
    -- the first significant digit is not zero, as the mantissa before it is
    cases kept with
    | zero => rw [Nat.pow_zero]; omega
    | succ k =>
        have hk := hle (Nat.succ_ne_zero k)
        rw [Nat.add_sub_cancel] at hk
        rw [Nat.pow_succ]
        omega
  · rw [if_neg hsome]
    have hpos : 0 < 16 ^ kept := Nat.pow_pos (by decide)
    refine ⟨by omega, fun hkept => ?_⟩
    have := hle hkept
    omega

namespace Holds

variable {a : HexAccumulator} {ds : Text} {places dropped rest : Nat} {c : Char}

/-- Below `maxKeptDigits` nothing is dropped. -/
theorem dropped_eq_zero (h : a.Holds ds places dropped rest) (hroom : a.kept < maxKeptDigits) :
    dropped = 0 ∧ rest = 0 ∧ a.sticky = false := by
  have hdropped : dropped = 0 := by
    by_contra hne
    exact absurd (h.full hne) (Nat.ne_of_lt hroom)
  have hrest : rest = 0 := by
    have hlt := h.rest_lt
    rw [hdropped, Nat.pow_zero] at hlt
    omega
  refine ⟨hdropped, hrest, ?_⟩
  cases hsticky : a.sticky with
  | false => rfl
  | true => exact absurd hrest (h.sticky_iff.mp hsticky)

/-- `push` below `maxKeptDigits` keeps the digit. -/
theorem push_kept (h : a.Holds ds places dropped rest) (hc : isDigit 16 c = true)
    (hroom : a.kept < maxKeptDigits) (afterPoint : Bool) :
    (push afterPoint a c).Holds (ds ++ [c]) (places + afterPoint.toNat) 0 0 := by
  obtain ⟨rfl, rfl, hsticky⟩ := h.dropped_eq_zero hroom
  have hvalue := h.value
  rw [Nat.pow_zero, Nat.mul_one, Nat.add_zero] at hvalue
  obtain ⟨hlt, hle⟩ := significant_push h.mantissa_lt h.le_mantissa (digitValue_lt hc)
  unfold push
  simp only [if_pos hroom]
  refine ⟨?_, by decide, ?_, ?_, fun hne => absurd rfl hne, Nat.zero_le _, ?_, hlt, hle⟩
  · rw [digitsValue_append_one, hvalue, Nat.pow_zero, Nat.mul_one, Nat.add_zero]
  · rw [hsticky]; decide
  · rw [h.exponent]
    cases afterPoint with
    | false => rfl
    | true => simp only [if_true, Bool.toNat_true]; omega
  · by_cases hsome : a.mantissa ≠ 0 ∨ digitValue c ≠ 0
    · rw [if_pos hsome]; exact hroom
    · rw [if_neg hsome]; exact h.kept_le

/-- `push` at `maxKeptDigits` drops the digit into the rest. -/
theorem push_dropped (h : a.Holds ds places dropped rest) (hc : isDigit 16 c = true)
    (hfull : ¬a.kept < maxKeptDigits) (afterPoint : Bool) :
    (push afterPoint a c).Holds (ds ++ [c]) (places + afterPoint.toNat) (dropped + 1)
      (rest * 16 + digitValue c) := by
  have hdigit := digitValue_lt hc
  have hrest := h.rest_lt
  have hkept : a.kept = maxKeptDigits := Nat.le_antisymm h.kept_le (Nat.le_of_not_lt hfull)
  unfold push
  simp only [if_neg hfull]
  refine ⟨?_, ?_, ?_, ?_, fun _ => hkept, ?_, h.kept_le, h.mantissa_lt, h.le_mantissa⟩
  · rw [digitsValue_append_one, h.value, Nat.pow_succ]
    ring
  · rw [Nat.pow_succ]
    omega
  · rw [Bool.or_eq_true, h.sticky_iff, bne_iff_ne]
    omega
  · rw [h.exponent]
    cases afterPoint with
    | false => simp only [Bool.false_eq_true, if_false, Bool.toNat_false]; omega
    | true => simp only [if_true, Bool.toNat_true]; omega
  · rw [List.length_append]
    exact Nat.add_le_add_right h.dropped_le 1

/-- **`push` preserves `Holds`.** -/
theorem push (h : a.Holds ds places dropped rest) (hc : isDigit 16 c = true) (afterPoint : Bool) :
    ∃ dropped' rest', (push afterPoint a c).Holds (ds ++ [c]) (places + afterPoint.toNat)
      dropped' rest' := by
  by_cases hroom : a.kept < maxKeptDigits
  · exact ⟨0, 0, h.push_kept hc hroom afterPoint⟩
  · exact ⟨_, _, h.push_dropped hc hroom afterPoint⟩

/-- A run of `push` preserves `Holds`. -/
theorem foldl (h : a.Holds ds places dropped rest) {digits : Text}
    (hdigits : ∀ c ∈ digits, isDigit 16 c = true) (afterPoint : Bool) :
    ∃ dropped' rest', (digits.foldl (HexAccumulator.push afterPoint) a).Holds (ds ++ digits)
      (places + afterPoint.toNat * digits.length) dropped' rest' := by
  induction digits generalizing a ds places dropped rest with
  | nil =>
      refine ⟨dropped, rest, ?_⟩
      rw [List.append_nil]
      exact h
  | cons c digits ih =>
      obtain ⟨hc, htail⟩ := List.forall_mem_cons.mp hdigits
      obtain ⟨dropped', rest', hpush⟩ := h.push hc afterPoint
      obtain ⟨dropped'', rest'', hfold⟩ := ih hpush htail
      refine ⟨dropped'', rest'', ?_⟩
      have hplaces : places + afterPoint.toNat * (c :: digits).length =
          places + afterPoint.toNat + afterPoint.toNat * digits.length := by
        rw [List.length_cons]; ring
      rw [hplaces, List.append_cons]
      exact hfold

/-- `sticky` comes with fifteen kept digits, the first of which is not zero. -/
theorem pow_le_of_sticky (h : a.Holds ds places dropped rest) (hsticky : a.sticky = true) :
    16 ^ 14 ≤ a.mantissa := by
  have hdropped : dropped ≠ 0 := by
    intro hzero
    have hlt := h.rest_lt
    rw [hzero, Nat.pow_zero] at hlt
    exact h.sticky_iff.mp hsticky (by omega)
  have hkept := h.full hdropped
  have hle := h.le_mantissa (by rw [hkept]; decide)
  rw [hkept] at hle
  exact hle

/-- `sticky` comes with more than 53 bits. -/
theorem two_pow_le_of_sticky (h : a.Holds ds places dropped rest) (hsticky : a.sticky = true) :
    2 ^ 53 ≤ a.mantissa :=
  Nat.le_trans (by decide) (h.pow_le_of_sticky hsticky)

theorem mantissa_lt_two_pow (h : a.Holds ds places dropped rest) : a.mantissa + 1 ≤ 2 ^ 60 :=
  Nat.le_trans h.mantissa_lt (Nat.pow_le_pow_right (by decide) h.kept_le)

/-- **The accumulator truncates what the digits denote**, in units of the last kept digit. -/
theorem truncates (h : a.Holds ds places dropped rest) :
    Truncates (digitsValue 16 ds / 16 ^ dropped) a.mantissa a.sticky := by
  have hpos : (0 : ℚ) < 16 ^ dropped := pow_pos (by norm_num) _
  have hvalue : (digitsValue 16 ds : ℚ) = a.mantissa * 16 ^ dropped + rest := by
    exact_mod_cast h.value
  have hlow : (0 : ℚ) ≤ rest := Nat.cast_nonneg _
  have hhigh : (rest : ℚ) < 16 ^ dropped := by exact_mod_cast h.rest_lt
  refine ⟨?_, ?_, ?_⟩
  · rw [le_div_iff₀ hpos]; linarith
  · rw [div_lt_iff₀ hpos]; linarith
  · rw [div_eq_iff (ne_of_gt hpos), hvalue, add_eq_left, Nat.cast_eq_zero]
    rw [← not_iff_not, ← ne_eq, ← h.sticky_iff, Bool.not_eq_false]

/-- `exponent` is that of the last kept digit. -/
theorem scale (h : a.Holds ds places dropped rest) :
    (digitsValue 16 ds / 16 ^ dropped : ℚ) * 2 ^ a.exponent = digitsValue 16 ds / 16 ^ places := by
  have hpower : (2 : ℚ) ^ a.exponent = 16 ^ dropped / 16 ^ places := by
    rw [h.exponent, zpow_mul, zpow_sub₀ (by norm_num), zpow_natCast, zpow_natCast]
    norm_num
  rw [hpower, div_mul_div_cancel₀ (by positivity)]

end Holds

end HexAccumulator

/-! ## Whole mantissas -/

/-- Confining twice changes no exponent, or both are far outside the range of the format. -/
theorem clampExponent_add_saturate {a e : Int} (hlow : -2 ^ 62 ≤ a) (hhigh : a ≤ 2 ^ 62) :
    clampExponent (a + saturate e) = a + e ∨
      (1024 ≤ clampExponent (a + saturate e) ∧ 1024 ≤ a + e) ∨
      (clampExponent (a + saturate e) ≤ -1135 ∧ a + e ≤ -1135) := by
  have hlimit : exponentLimit = 9223372036854775807 := by decide
  unfold clampExponent saturate
  rw [hlimit]
  omega

/-- From an exponent of `1024` on, numbers are too large for the format. -/
theorem magnitude_infinityPlace_le {x : ℚ} {e : Int} (hx : 1 ≤ x) (he : 1024 ≤ e) :
    Binary64.magnitude Binary64.infinityPlace ≤ x * 2 ^ e := by
  rw [Binary64.magnitude_infinityPlace]
  calc (2 : ℚ) ^ (1024 : ℤ) ≤ 2 ^ e := zpow_le_zpow_right₀ (by norm_num) he
    _ ≤ x * 2 ^ e := le_mul_of_one_le_left (le_of_lt (zpow_pos (by norm_num) _)) hx

/-- Up to an exponent of `-1135`, numbers of 60 bits are too small for the format. -/
theorem two_mul_le_gap {x : ℚ} {e : Int} (hx : x ≤ 2 ^ 60) (he : e ≤ -1135) :
    2 * (x * 2 ^ e) ≤ Binary64.gap 0 := by
  calc 2 * (x * 2 ^ e)
      ≤ 2 * (2 ^ 60 * 2 ^ e) := by
        exact mul_le_mul_of_nonneg_left
          (mul_le_mul_of_nonneg_right hx (le_of_lt (zpow_pos (by norm_num) _))) (by norm_num)
    _ = 2 ^ (61 + e) := by
        rw [zpow_add₀ (by norm_num), ← mul_assoc]
        norm_num
    _ ≤ Binary64.gap 0 := zpow_le_zpow_right₀ (by norm_num) (by omega)

/-- `Rounds` for one exponent is `Rounds` for another one, if both are far outside the range. -/
theorem Rounded.Rounds.of_exponent {r : Rounded} {x : ℚ} {e e' : Int} (h : r.Rounds (x * 2 ^ e))
    (hone : x ≠ 0 → 1 ≤ x) (hlt : x ≤ 2 ^ 60)
    (hfar : e = e' ∨ (1024 ≤ e ∧ 1024 ≤ e') ∨ (e ≤ -1135 ∧ e' ≤ -1135)) :
    r.Rounds (x * 2 ^ e') := by
  rcases hfar with rfl | hfar
  · exact h
  -- zero is zero at every exponent
  by_cases hzero : x = 0
  · rw [hzero, zero_mul] at h ⊢
    exact h
  · have hpos : ∀ e : ℤ, 0 < x * 2 ^ e := fun e =>
      mul_pos (lt_of_lt_of_le one_pos (hone hzero)) (zpow_pos (by norm_num) e)
    rcases hfar with ⟨hlarge, hlarge'⟩ | ⟨hsmall, hsmall'⟩
    · exact h.of_large (magnitude_infinityPlace_le (hone hzero) hlarge)
        (magnitude_infinityPlace_le (hone hzero) hlarge')
    · exact h.of_small (hpos e) (hpos e') (two_mul_le_gap hlt hsmall) (two_mul_le_gap hlt hsmall')

namespace Mantissa

/-- The digits behind the point are some of the digits. -/
theorem length_fraction_le (m : Mantissa) : m.fraction.length ≤ m.digits.length := by
  unfold digits
  rw [List.length_append]
  exact Nat.le_add_left _ _

/-- The number that `m` denotes in hexadecimal. -/
def hexValue (m : Mantissa) : ℚ := digitsValue 16 m.digits / 16 ^ m.fraction.length

variable {m : Mantissa}

/-- `accumulate` satisfies `Holds` for all digits of `m`. -/
theorem holds_accumulate (hdigits : ∀ c ∈ m.digits, isDigit 16 c = true) :
    ∃ dropped rest, m.accumulate.Holds m.digits m.fraction.length dropped rest := by
  obtain ⟨hwhole, hfraction⟩ := List.forall_mem_append.mp hdigits
  obtain ⟨_, _, hholds⟩ := HexAccumulator.holds_empty.foldl hwhole false
  obtain ⟨dropped, rest, hholds⟩ := hholds.foldl hfraction true
  refine ⟨dropped, rest, ?_⟩
  rw [Bool.toNat_false, Bool.toNat_true, Nat.zero_mul, Nat.one_mul, Nat.zero_add,
    List.nil_append] at hholds
  exact hholds

/-- **`roundHex` rounds to nearest, for every exponent.** -/
theorem rounds_roundHex (hdigits : ∀ c ∈ m.digits, isDigit 16 c = true)
    (hlength : m.digits.length < 2 ^ 60) (e : Int) :
    (m.roundHex (saturate e)).Rounds (m.hexValue * 2 ^ e) := by
  obtain ⟨dropped, rest, hholds⟩ := holds_accumulate hdigits
  have hrounds := Rounded.rounds_ofMantissa hholds.truncates hholds.two_pow_le_of_sticky
    (clampExponent (m.accumulate.exponent + saturate e))
  have hvalue : m.hexValue * 2 ^ e =
      digitsValue 16 m.digits / 16 ^ dropped * 2 ^ (m.accumulate.exponent + e) := by
    rw [zpow_add₀ (by norm_num), ← mul_assoc, hholds.scale]
    rfl
  have hlt : (digitsValue 16 m.digits : ℚ) / 16 ^ dropped ≤ 2 ^ 60 := by
    have hcast : (m.accumulate.mantissa : ℚ) + 1 ≤ 2 ^ 60 := by
      exact_mod_cast hholds.mantissa_lt_two_pow
    exact le_of_lt (lt_of_lt_of_le hholds.truncates.lt hcast)
  have hfraction := m.length_fraction_le
  have hdropped := hholds.dropped_le
  have hexponent := hholds.exponent
  rw [hvalue]
  -- with less than 2^60 digits the exponent of the mantissa is below 2^62 in magnitude
  exact hrounds.of_exponent (hholds.truncates.one_le hholds.two_pow_le_of_sticky) hlt
    (clampExponent_add_saturate (by omega) (by omega))

end Mantissa

end NetKit
