import Mathlib.Tactic.FieldSimp
import NetKit.Proofs.Number.Rounding

/-!
# Quotients — a quotient of natural numbers is rounded to the nearest value

A decimal number is a quotient whose denominator is a power of ten, so that no bits can be dropped from
it. `Rounded.ofQuotient` looks for the power of two below the quotient, which says how fine the grid of
the format is there, divides on this grid, and rounds the integer quotient by its remainder.

Everything but the division is known: a significand that is right on a grid of the format is right
(`nearestEven_of_grid`). So the file is about two things, the power of two below a quotient and rounding
an integer division.

## Contents
- `zpow_eq_div`, `floorLog2_spec`: the power of two below a quotient.
- `roundHalfEven_nearest`, `roundHalfEven_eq_iff`: rounding an integer division.
- `Rounded.rounds_ofQuotient`: quotients.
-/

namespace NetKit

/-! ## The power of two below a quotient -/

section FloorLog2

open Rounded

/-- A negative power of two is one over a power. -/
theorem zpow_eq_div (k : ℤ) : (2 : ℚ) ^ k = (2 ^ k.toNat : ℕ) / (2 ^ (-k).toNat : ℕ) := by
  rw [Nat.cast_pow, Nat.cast_pow, Nat.cast_ofNat, ← zpow_natCast, ← zpow_natCast,
    ← zpow_sub₀ (by norm_num)]
  congr 1
  omega

variable {num den : Nat}

/-- Comparing with a power of two is comparing natural numbers. -/
theorem zpow_le_div_iff (hden : 0 < den) (k : ℤ) :
    (2 : ℚ) ^ k ≤ num / den ↔ den * 2 ^ k.toNat ≤ num * 2 ^ (-k).toNat := by
  have hpow : (0 : ℚ) < (2 ^ (-k).toNat : ℕ) := by exact_mod_cast Nat.two_pow_pos _
  rw [zpow_eq_div, div_le_div_iff₀ hpow (by exact_mod_cast hden), mul_comm (den : ℕ)]
  exact_mod_cast Iff.rfl

/-- `Nat.log2` tells the quotient within a factor of four. -/
theorem div_bounds_log2 (hnum : num ≠ 0) (hden : 0 < den) :
    (2 : ℚ) ^ ((num.log2 : ℤ) - den.log2 - 1) ≤ num / den ∧
      (num / den : ℚ) < 2 ^ ((num.log2 : ℤ) - den.log2 + 1) := by
  have hden' : (0 : ℚ) < den := by exact_mod_cast hden
  have hnumLow : ((2 ^ num.log2 : ℕ) : ℚ) ≤ num := by exact_mod_cast Nat.log2_self_le hnum
  have hnumHigh : (num : ℚ) < (2 ^ (num.log2 + 1) : ℕ) := by exact_mod_cast Nat.lt_log2_self
  have hdenLow : ((2 ^ den.log2 : ℕ) : ℚ) ≤ den := by
    exact_mod_cast Nat.log2_self_le (Nat.ne_of_gt hden)
  have hdenHigh : (den : ℚ) < (2 ^ (den.log2 + 1) : ℕ) := by exact_mod_cast Nat.lt_log2_self
  rw [Nat.cast_pow, Nat.cast_ofNat, ← zpow_natCast] at hnumLow hnumHigh hdenLow hdenHigh
  constructor
  · rw [le_div_iff₀ hden']
    calc (2 : ℚ) ^ ((num.log2 : ℤ) - den.log2 - 1) * den
        ≤ 2 ^ ((num.log2 : ℤ) - den.log2 - 1) * 2 ^ ((den.log2 + 1 : ℕ) : ℤ) := by
          exact mul_le_mul_of_nonneg_left (le_of_lt hdenHigh) (le_of_lt (zpow_pos (by norm_num) _))
      _ = 2 ^ (num.log2 : ℤ) := by
          rw [← zpow_add₀ (by norm_num)]; congr 1; push_cast; ring
      _ ≤ num := hnumLow
  · rw [div_lt_iff₀ hden']
    calc (num : ℚ) < 2 ^ ((num.log2 + 1 : ℕ) : ℤ) := hnumHigh
      _ = 2 ^ ((num.log2 : ℤ) - den.log2 + 1) * 2 ^ (den.log2 : ℤ) := by
          rw [← zpow_add₀ (by norm_num)]; congr 1; push_cast; ring
      _ ≤ 2 ^ ((num.log2 : ℤ) - den.log2 + 1) * den := by
          exact mul_le_mul_of_nonneg_left hdenLow (le_of_lt (zpow_pos (by norm_num) _))

/-- **`floorLog2` is the largest exponent** whose power of two is not above the quotient. -/
theorem floorLog2_spec (hnum : num ≠ 0) (hden : 0 < den) :
    (2 : ℚ) ^ floorLog2 num den ≤ num / den ∧ (num / den : ℚ) < 2 ^ (floorLog2 num den + 1) := by
  obtain ⟨hlow, hhigh⟩ := div_bounds_log2 hnum hden
  unfold floorLog2
  simp only
  by_cases hle : den * 2 ^ ((num.log2 : ℤ) - den.log2).toNat ≤
      num * 2 ^ (-((num.log2 : ℤ) - den.log2)).toNat
  · rw [if_pos hle]
    exact ⟨(zpow_le_div_iff hden _).mpr hle, hhigh⟩
  · rw [if_neg hle, sub_add_cancel]
    exact ⟨hlow, not_le.mp (mt (zpow_le_div_iff hden _).mp hle)⟩

end FloorLog2

/-! ## Rounding an integer division -/

section RoundHalfEven

variable {n d : Nat}

/-- `roundHalfEven` takes ties to even numbers. -/
theorem roundHalfEven_even (hd : 0 < d) (htie : 2 * n = 2 * (d * roundHalfEven n d) + d ∨
    2 * (d * roundHalfEven n d) = 2 * n + d) : roundHalfEven n d % 2 = 0 := by
  apply roundHalfEven_tie
  have hparts : d * (n / d) + n % d = n := Nat.div_add_mod n d
  have hmod : n % d < d := Nat.mod_lt n hd
  rcases roundHalfEven_cases n d with hfloor | hceil
  · rw [hfloor] at htie
    omega
  · rw [hceil, Nat.mul_succ] at htie
    omega

/-- **`roundHalfEven` is nearest to the quotient**, even if two are equally near. -/
theorem roundHalfEven_nearest (hd : 0 < d) :
    2 * |(n / d : ℚ) - roundHalfEven n d| ≤ 1 ∧
      (2 * |(n / d : ℚ) - roundHalfEven n d| = 1 → roundHalfEven n d % 2 = 0) := by
  have hd' : (0 : ℚ) < d := by exact_mod_cast hd
  obtain ⟨hlow, hhigh⟩ := roundHalfEven_error n d hd
  have hlow' : 2 * (n : ℚ) ≤ 2 * (d * roundHalfEven n d) + d := by exact_mod_cast hlow
  have hhigh' : 2 * ((d : ℚ) * roundHalfEven n d) ≤ 2 * n + d := by exact_mod_cast hhigh
  have hdistance : (n / d : ℚ) - roundHalfEven n d = (n - d * roundHalfEven n d) / d := by
    rw [sub_div, mul_div_cancel_left₀ _ (ne_of_gt hd')]
  rw [hdistance, abs_div, abs_of_pos hd', ← mul_div_assoc, div_le_one hd',
    div_eq_one_iff_eq (ne_of_gt hd')]
  rcases abs_cases ((n : ℚ) - d * roundHalfEven n d) with ⟨heq, -⟩ | ⟨heq, -⟩
  · refine ⟨by linarith, fun htie => roundHalfEven_even hd (.inl ?_)⟩
    have : 2 * (n : ℚ) = 2 * (d * roundHalfEven n d) + d := by linarith
    exact_mod_cast this
  · refine ⟨by linarith, fun htie => roundHalfEven_even hd (.inr ?_)⟩
    have : 2 * ((d : ℚ) * roundHalfEven n d) = 2 * n + d := by linarith
    exact_mod_cast this

/-- `roundHalfEven` is exact if and only if nothing remains. -/
theorem roundHalfEven_eq_iff (hd : 0 < d) : (roundHalfEven n d : ℚ) = n / d ↔ n % d = 0 := by
  have hd' : (d : ℚ) ≠ 0 := by exact_mod_cast Nat.ne_of_gt hd
  have hparts : d * (n / d) + n % d = n := Nat.div_add_mod n d
  rw [eq_div_iff hd']
  constructor
  · intro heq
    have heq' : roundHalfEven n d * d = n := by exact_mod_cast heq
    rw [← heq', Nat.mul_mod_left]
  · intro hzero
    obtain ⟨-, hhigh⟩ := roundHalfEven_error n d hd
    have hfloor : roundHalfEven n d = n / d := by
      rcases roundHalfEven_cases n d with h | h
      · exact h
      · rw [h, Nat.mul_succ] at hhigh
        omega
    have hnat : roundHalfEven n d * d = n := by
      rw [hfloor, Nat.mul_comm]
      omega
    exact_mod_cast hnat

end RoundHalfEven

/-! ## Quotients -/

namespace Rounded

open Binary64

variable {num den : Nat}

/-- The exponent of the grid on which `ofQuotient` rounds. -/
def quotientExponent (num den : Nat) : Int := max (floorLog2 num den - 52) (-1074)

/-- `quotientExponent` is that of a `gap` of the format. -/
theorem exists_gap_quotientExponent (num den : Nat) :
    ∃ E : Nat, quotientExponent num den = E - 1074 ∧ gap E = 2 ^ quotientExponent num den ∧
      (E = 0 ∨ quotientExponent num den = floorLog2 num den - 52) := by
  unfold quotientExponent
  refine ⟨(max (floorLog2 num den - 52) (-1074) + 1074).toNat, by omega, ?_, by omega⟩
  unfold gap
  congr 1
  omega

/-- The division that is rounded is the quotient in units of its grid. -/
theorem scaled_quotient (num : Nat) (hden : 0 < den) (e : Int) :
    ((num * 2 ^ (-e).toNat : ℕ) / (den * 2 ^ e.toNat : ℕ) : ℚ) * 2 ^ e = num / den := by
  have hden' : (den : ℚ) ≠ 0 := by exact_mod_cast Nat.ne_of_gt hden
  rw [zpow_eq_div e]
  push_cast
  field_simp

/-- `roundHalfEven` is monotone from below, at natural numbers. -/
theorem le_roundHalfEven {n d k : Nat} (hd : 0 < d) (h : (k : ℚ) ≤ n / d) :
    k ≤ roundHalfEven n d := by
  rw [le_div_iff₀ (by exact_mod_cast hd)] at h
  have hfloor : k ≤ n / d := (Nat.le_div_iff_mul_le hd).mpr (by exact_mod_cast h)
  rcases roundHalfEven_cases n d with hcase | hcase <;> omega

theorem roundHalfEven_le {n d k : Nat} (hd : 0 < d) (h : (n / d : ℚ) < k) :
    roundHalfEven n d ≤ k := by
  rw [div_lt_iff₀ (by exact_mod_cast hd)] at h
  have hfloor : n / d < k := (Nat.div_lt_iff_lt_mul hd).mpr (by exact_mod_cast h)
  rcases roundHalfEven_cases n d with hcase | hcase <;> omega

/-- **A division in units of a `gap` rounds on its grid**, if the quotient fills 53 bits or the `gap` is the
    smallest one. -/
theorem roundsOnGrid_div {n d E : Nat} (hd : 0 < d) (hlow : E = 0 ∨ ((2 ^ 52 : ℕ) : ℚ) ≤ n / d)
    (hhigh : (n / d : ℚ) < (2 ^ 53 : ℕ)) :
    RoundsOnGrid (n / d * gap E) E (roundHalfEven n d) := by
  have hpos := gap_pos E
  have hdistance : |n / d * gap E - roundHalfEven n d * gap E| =
      |(n / d : ℚ) - roundHalfEven n d| * gap E := by
    rw [← sub_mul, abs_mul, abs_of_pos hpos]
  obtain ⟨hhalf, htie⟩ := roundHalfEven_nearest (n := n) hd
  refine ⟨roundHalfEven_le hd hhigh, hlow.imp_right fun h => ⟨le_roundHalfEven hd h, ?_⟩, ?_, ?_⟩
  · exact mul_le_mul_of_nonneg_right h (le_of_lt hpos)
  · rw [hdistance, ← mul_assoc]
    exact mul_le_of_le_one_left (le_of_lt hpos) hhalf
  · intro heq
    rw [hdistance, ← mul_assoc] at heq
    exact htie ((mul_eq_right₀ (ne_of_gt hpos)).mp heq)

/-- A quotient in units of its grid has at most 53 bits, and fills them unless the grid is the finest. -/
theorem scaled_quotient_bounds (hnum : num ≠ 0) (hden : 0 < den) {E : Nat}
    (hE : E = 0 ∨ quotientExponent num den = floorLog2 num den - 52) {x : ℚ}
    (hx : x * 2 ^ quotientExponent num den = num / den) :
    (E = 0 ∨ ((2 ^ 52 : ℕ) : ℚ) ≤ x) ∧ x < (2 ^ 53 : ℕ) := by
  obtain ⟨hlow, hhigh⟩ := floorLog2_spec hnum hden
  have hpos : (0 : ℚ) < 2 ^ quotientExponent num den := zpow_pos (by norm_num) _
  have hcut : floorLog2 num den - 52 ≤ quotientExponent num den := le_max_left _ _
  rw [← hx] at hlow hhigh
  constructor
  · refine hE.imp_right fun hexponent => ?_
    have hpower : (2 : ℚ) ^ floorLog2 num den = (2 ^ 52 : ℕ) * 2 ^ quotientExponent num den := by
      rw [hexponent, Nat.cast_pow, Nat.cast_ofNat, ← zpow_natCast, ← zpow_add₀ (by norm_num)]
      congr 1
      push_cast
      ring
    rw [hpower] at hlow
    exact le_of_mul_le_mul_right hlow hpos
  · have hpower : (2 : ℚ) ^ (floorLog2 num den + 1) ≤ (2 ^ 53 : ℕ) * 2 ^ quotientExponent num den := by
      rw [Nat.cast_pow, Nat.cast_ofNat, ← zpow_natCast, ← zpow_add₀ (by norm_num)]
      exact zpow_le_zpow_right₀ (by norm_num) (by push_cast; omega)
    exact lt_of_mul_lt_mul_right (lt_of_lt_of_le hhigh hpower) (le_of_lt hpos)

/-- **`ofQuotient` rounds to nearest**, and `exact` is true to it. -/
theorem rounds_ofQuotient (num : Nat) (hden : 0 < den) : (ofQuotient num den).Rounds (num / den) := by
  by_cases hnum : num = 0
  · subst hnum
    have hresult : ofQuotient 0 den = ofMantissa 0 false 0 := rfl
    rw [hresult, Nat.cast_zero, zero_div]
    exact rounds_zero
  obtain ⟨E, hexponent, hgap, hE⟩ := exists_gap_quotientExponent num den
  have hx := scaled_quotient num hden (quotientExponent num den)
  have hd : 0 < den * 2 ^ (quotientExponent num den).toNat :=
    Nat.mul_pos hden (Nat.two_pow_pos _)
  obtain ⟨hlow, hhigh⟩ := scaled_quotient_bounds hnum hden hE hx
  have hgrid := roundsOnGrid_div hd hlow hhigh
  have hresult : ofQuotient num den =
      ⟨roundHalfEven (num * 2 ^ (-quotientExponent num den).toNat)
        (den * 2 ^ (quotientExponent num den).toNat), quotientExponent num den,
        num * 2 ^ (-quotientExponent num den).toNat %
          (den * 2 ^ (quotientExponent num den).toNat) == 0⟩ := if_neg hnum
  rw [hgap, hx] at hgrid
  rw [hresult]
  refine rounds_of_grid ?_ hgrid ?_
  · have hplace := placeOf_grid (hgrid.normal.imp_right And.left)
    rw [← hexponent] at hplace
    exact hplace
  · rw [beq_iff_eq, ← roundHalfEven_eq_iff hd, hgap, ← hx]
    exact (mul_left_inj' (ne_of_gt (zpow_pos (by norm_num) _))).symm

end Rounded

end NetKit
