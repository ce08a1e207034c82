import NetKit.Proofs.Number.Nearest

/-!
# Rounding — a binary mantissa with a sticky remark is rounded to the nearest value

A number that is to be rounded is known by its integer part, which has to have enough bits, and by
`sticky`, whether any fraction was left out (`Truncates`). `Rounded.ofMantissa` drops low bits, as many as
leave 53, or as many as bring the last bit up to 2^-1074 if those are more, and looks only at the dropped
bits and at `sticky`. This file shows that it finds the nearest value, and that `Rounded.exact` is true to it.

The number of dropped bits divides the proof. If none is dropped, nothing is lost, and the value only
has to be placed on its grid (`placeOf_eq_grid`). If more are dropped than there are, the number is below
half of the smallest subnormal. Otherwise the grid of the kept bits is the grid of the format, since
either 53 bits are kept or the last one is worth 2^-1074, and the dropped bits are compared with half of
the gap (`Truncates.keptRounded_nearest`).

## Contents
- `bitLength_le_iff`, `placeOf_grid`, `placeOf_eq_grid`: places.
- `Truncates`, `Truncates.remainder`, `Truncates.keptRounded_nearest`: dropping bits.
- `Rounded.Rounds`, `Rounded.rounds_ofMantissa`: the result of rounding.
- `Rounded.Rounds.of_large`, `Rounded.Rounds.of_small`: what cannot be told apart far outside the range.
-/

namespace NetKit

/-! ## Places -/

namespace Binary64

theorem bitLength_le_iff {n k : Nat} : bitLength n ≤ k ↔ n < 2 ^ k := by
  unfold bitLength
  by_cases hn : n = 0
  · rw [if_pos hn, hn]
    exact ⟨fun _ => Nat.two_pow_pos k, fun _ => Nat.zero_le k⟩
  · rw [if_neg hn]
    exact Nat.log2_lt hn

theorem lt_bitLength_iff {n k : Nat} : k < bitLength n ↔ 2 ^ k ≤ n := by
  rw [← Nat.not_le, bitLength_le_iff, Nat.not_lt]

theorem placeOf_zero (exponent : Int) : placeOf 0 exponent = 0 := if_pos rfl

/-- `placeOf` of a significand that is on a grid already. -/
theorem placeOf_grid {E n : Nat} (hnormal : E = 0 ∨ 2 ^ 52 ≤ n) :
    placeOf n (E - 1074) = min (E * 2 ^ 52 + n) infinityPlace := by
  have hroom : min (precision - bitLength n) ((E : Int) - 1074 - minExponent).toNat = 0 := by
    have hminimum : minExponent = -1074 := rfl
    rcases hnormal with rfl | hhigh
    · rw [hminimum]; omega
    · have hbits : 52 < bitLength n := lt_bitLength_iff.mpr hhigh
      have hprecision : precision = 53 := rfl
      omega
  have hexponent : ((E : Int) - 1074 - minExponent - (0 : Nat)).toNat = E := by
    have hminimum : minExponent = -1074 := rfl
    omega
  unfold placeOf
  by_cases hzero : n = 0
  · have hE : E = 0 := by omega
    rw [if_pos hzero, hzero, hE, Nat.zero_mul, Nat.zero_min]
  · simp only [if_neg hzero, hroom, hexponent, minNormalPlace_eq, Nat.pow_zero, Nat.mul_one]

/-- `placeOf` shifts any other significand of at most 53 bits to a grid, as far as there is room. -/
theorem placeOf_eq_grid {significand : Nat} {exponent : Int} (hlt : significand < 2 ^ 53)
    (hexponent : -1074 ≤ exponent) :
    ∃ E n : Nat, placeOf significand exponent = min (E * 2 ^ 52 + n) infinityPlace ∧ n ≤ 2 ^ 53 ∧
      (E = 0 ∨ 2 ^ 52 ≤ n) ∧ (n : ℚ) * gap E = significand * 2 ^ exponent := by
  have hminimum : minExponent = -1074 := rfl
  have hprecision : precision = 53 := rfl
  have hbits : bitLength significand ≤ 53 := bitLength_le_iff.mpr hlt
  by_cases hzero : significand = 0
  · refine ⟨0, 0, ?_, Nat.zero_le _, .inl rfl, ?_⟩
    · rw [hzero, placeOf_zero, Nat.zero_mul, Nat.zero_min]
    · rw [hzero, Nat.cast_zero, zero_mul, zero_mul]
  obtain ⟨room, hroom⟩ : ∃ room,
      room = min (precision - bitLength significand) (exponent - minExponent).toNat := ⟨_, rfl⟩
  refine ⟨(exponent - minExponent - room).toNat, significand * 2 ^ room, ?_, ?_, ?_, ?_⟩
  · unfold placeOf
    simp only [if_neg hzero, ← hroom, minNormalPlace_eq]
  · have hshifted : significand * 2 ^ room < 2 ^ bitLength significand * 2 ^ room :=
      Nat.mul_lt_mul_of_pos_right (bitLength_le_iff.mp (Nat.le_refl _)) (Nat.two_pow_pos room)
    rw [← Nat.pow_add] at hshifted
    exact Nat.le_of_lt (Nat.lt_of_lt_of_le hshifted (Nat.pow_le_pow_right (by decide) (by omega)))
  · -- the room is used up by the precision, or by the smallest exponent
    by_cases hsmall : exponent - minExponent ≤ room
    · exact .inl (by omega)
    · right
      have hsome : 0 < bitLength significand := lt_bitLength_iff.mpr (Nat.pos_of_ne_zero hzero)
      have hlong : 52 - room < bitLength significand := by omega
      have hpower : 2 ^ (52 - room) * 2 ^ room = 2 ^ 52 := by
        rw [← Nat.pow_add]; congr 1; omega
      rw [← hpower]
      exact Nat.mul_le_mul_right _ (lt_bitLength_iff.mp hlong)
  · have hscale : (2 : ℚ) ^ exponent = 2 ^ room * 2 ^ (exponent - room) := by
      rw [← zpow_natCast, ← zpow_add₀ (by norm_num)]; congr 1; ring
    have hgap : gap (exponent - minExponent - room).toNat = 2 ^ (exponent - room) := by
      unfold gap; congr 1; omega
    rw [hscale, hgap, Nat.cast_mul, Nat.cast_pow, Nat.cast_ofNat, mul_assoc]

end Binary64

/-! ## Dropping bits -/

/-- `mantissa` is the integer part of `x`, and `sticky` says whether there is a fraction. -/
structure Truncates (x : ℚ) (mantissa : Nat) (sticky : Bool) : Prop where
  le : (mantissa : ℚ) ≤ x
  lt : x < mantissa + 1
  exact_iff : x = mantissa ↔ sticky = false

namespace Rounded

/-- Whether the kept bits are rounded up, by the `drop` low bits and `sticky`. -/
def roundsUp (mantissa : Nat) (sticky : Bool) (drop : Nat) : Bool :=
  2 ^ (drop - 1) < mantissa % 2 ^ drop ||
    (mantissa % 2 ^ drop == 2 ^ (drop - 1) && (sticky || (mantissa >>> drop) % 2 == 1))

theorem roundsUp_iff {mantissa drop : Nat} {sticky : Bool} :
    roundsUp mantissa sticky drop = true ↔
      2 ^ (drop - 1) < mantissa % 2 ^ drop ∨
        (mantissa % 2 ^ drop = 2 ^ (drop - 1) ∧
          (sticky = true ∨ (mantissa >>> drop) % 2 = 1)) := by
  unfold roundsUp
  simp only [Bool.or_eq_true, Bool.and_eq_true, decide_eq_true_eq, beq_iff_eq]

/-- The kept bits, rounded. -/
def keptRounded (mantissa : Nat) (sticky : Bool) (drop : Nat) : Nat :=
  (mantissa >>> drop) + (roundsUp mantissa sticky drop).toNat

end Rounded

namespace Truncates

open Rounded

variable {x : ℚ} {mantissa : Nat} {sticky : Bool}

/-- **The dropped bits truncate what the kept bits leave.** -/
theorem remainder (h : Truncates x mantissa sticky) (drop : Nat) :
    Truncates (x - (mantissa >>> drop : ℕ) * (2 ^ drop : ℕ)) (mantissa % 2 ^ drop) sticky := by
  have hsplit : (mantissa : ℚ) =
      (mantissa >>> drop : ℕ) * (2 ^ drop : ℕ) + (mantissa % 2 ^ drop : ℕ) := by
    rw [Nat.shiftRight_eq_div_pow, ← Nat.cast_mul, ← Nat.cast_add, Nat.div_add_mod']
  obtain ⟨hle, hlt, hexact⟩ := h
  refine ⟨by linarith, by linarith, ?_⟩
  rw [← hexact]
  constructor <;> intro heq <;> linarith

/-- What the kept bits leave is less than their last bit. -/
theorem remainder_lt (h : Truncates x mantissa sticky) (drop : Nat) :
    x - (mantissa >>> drop : ℕ) * (2 ^ drop : ℕ) < (2 ^ drop : ℕ) := by
  have hlt := (h.remainder drop).lt
  have hmod : (mantissa % 2 ^ drop : ℕ) + 1 ≤ 2 ^ drop := Nat.mod_lt _ (Nat.two_pow_pos drop)
  have hcast : ((mantissa % 2 ^ drop : ℕ) : ℚ) + 1 ≤ (2 ^ drop : ℕ) := by exact_mod_cast hmod
  linarith

/-- With `roundsUp` at least half of the last bit is left. -/
theorem half_le_of_roundsUp (h : Truncates x mantissa sticky) {drop : Nat}
    (hup : roundsUp mantissa sticky drop = true) :
    ((2 ^ (drop - 1) : ℕ) : ℚ) ≤ x - (mantissa >>> drop : ℕ) * (2 ^ drop : ℕ) ∧
      (((2 ^ (drop - 1) : ℕ) : ℚ) = x - (mantissa >>> drop : ℕ) * (2 ^ drop : ℕ) →
        (mantissa >>> drop) % 2 = 1) := by
  obtain ⟨hle, -, hexact⟩ := h.remainder drop
  rcases roundsUp_iff.mp hup with hmore | ⟨hhalf, htie⟩
  · -- more than half is dropped already without the fraction
    have hcast : ((2 ^ (drop - 1) : ℕ) : ℚ) < (mantissa % 2 ^ drop : ℕ) := by exact_mod_cast hmore
    refine ⟨by linarith, ?_⟩
    intro heq
    exact absurd heq (by linarith)
  · rw [hhalf] at hle hexact
    refine ⟨hle, ?_⟩
    intro heq
    rcases htie with hsticky | hodd
    · rw [hexact.mp heq.symm] at hsticky
      cases hsticky
    · exact hodd

/-- Without `roundsUp` at most half of the last bit is left. -/
theorem le_half_of_not_roundsUp (h : Truncates x mantissa sticky) {drop : Nat}
    (hup : roundsUp mantissa sticky drop = false) :
    x - (mantissa >>> drop : ℕ) * (2 ^ drop : ℕ) ≤ (2 ^ (drop - 1) : ℕ) ∧
      (x - (mantissa >>> drop : ℕ) * (2 ^ drop : ℕ) = (2 ^ (drop - 1) : ℕ) →
        (mantissa >>> drop) % 2 = 0) := by
  obtain ⟨-, hlt, hexact⟩ := h.remainder drop
  have hnot : ¬roundsUp mantissa sticky drop = true := by rw [hup]; decide
  rw [roundsUp_iff] at hnot
  rcases Nat.lt_or_ge (mantissa % 2 ^ drop) (2 ^ (drop - 1)) with hless | hge
  · -- a fraction does not make up what is missing to half
    have hcast : ((mantissa % 2 ^ drop : ℕ) : ℚ) + 1 ≤ (2 ^ (drop - 1) : ℕ) := by
      exact_mod_cast hless
    refine ⟨by linarith, ?_⟩
    intro heq
    exact absurd heq (by linarith)
  · -- exactly half is dropped, so that there is no fraction and the kept bits are even
    have hhalf : mantissa % 2 ^ drop = 2 ^ (drop - 1) := by omega
    have hsticky : sticky = false := by
      cases sticky with
      | false => rfl
      | true => exact absurd (.inr ⟨hhalf, .inl rfl⟩) hnot
    have hx := hexact.mpr hsticky
    rw [hhalf] at hx
    refine ⟨le_of_eq hx, ?_⟩
    intro _
    by_contra hodd
    exact hnot (.inr ⟨hhalf, .inr (by omega)⟩)

/-- **`keptRounded` is nearest**, even if two are equally near. -/
theorem keptRounded_nearest (h : Truncates x mantissa sticky) {drop : Nat} (hdrop : 0 < drop) :
    2 * |x - (keptRounded mantissa sticky drop : ℕ) * (2 ^ drop : ℕ)| ≤ (2 ^ drop : ℕ) ∧
      (2 * |x - (keptRounded mantissa sticky drop : ℕ) * (2 ^ drop : ℕ)| = (2 ^ drop : ℕ) →
        keptRounded mantissa sticky drop % 2 = 0) := by
  have hdouble : ((2 ^ drop : ℕ) : ℚ) = 2 * (2 ^ (drop - 1) : ℕ) := by
    have hpower : 2 ^ drop = 2 * 2 ^ (drop - 1) := by
      rw [← Nat.pow_succ', Nat.succ_eq_add_one, Nat.sub_add_cancel hdrop]
    exact_mod_cast hpower
  have hlow := (h.remainder drop).le
  have hmod : (0 : ℚ) ≤ (mantissa % 2 ^ drop : ℕ) := Nat.cast_nonneg _
  have hhigh := h.remainder_lt drop
  unfold keptRounded
  cases hup : roundsUp mantissa sticky drop with
  | true =>
      obtain ⟨hhalf, htie⟩ := h.half_le_of_roundsUp hup
      have hdistance : x - ((mantissa >>> drop) + 1 : ℕ) * (2 ^ drop : ℕ) ≤ 0 := by
        push_cast at hhigh ⊢; linarith
      rw [Bool.toNat_true, abs_of_nonpos hdistance, Nat.cast_add, Nat.cast_one, add_mul, one_mul]
      refine ⟨by linarith, ?_⟩
      intro heq
      have hodd := htie (by linarith)
      omega
  | false =>
      obtain ⟨hhalf, htie⟩ := h.le_half_of_not_roundsUp hup
      rw [Bool.toNat_false, Nat.add_zero, abs_of_nonneg (by linarith)]
      refine ⟨by linarith, ?_⟩
      intro heq
      exact htie (by linarith)

/-- `keptRounded` is exact if and only if nothing was dropped. -/
theorem keptRounded_exact_iff (h : Truncates x mantissa sticky) {drop : Nat} :
    (keptRounded mantissa sticky drop : ℕ) * (2 ^ drop : ℕ) = x ↔
      mantissa % 2 ^ drop = 0 ∧ sticky = false := by
  have hremainder := h.remainder drop
  have hhigh := h.remainder_lt drop
  have hmod : (0 : ℚ) ≤ (mantissa % 2 ^ drop : ℕ) := Nat.cast_nonneg _
  unfold keptRounded
  constructor
  · intro heq
    cases hup : roundsUp mantissa sticky drop with
    | true =>
        rw [hup, Bool.toNat_true, Nat.cast_add, Nat.cast_one, add_mul, one_mul] at heq
        exact absurd heq (by linarith)
    | false =>
        rw [hup, Bool.toNat_false, Nat.add_zero] at heq
        have hzero : ((mantissa % 2 ^ drop : ℕ) : ℚ) = 0 := by linarith [hremainder.le]
        refine ⟨by exact_mod_cast hzero, hremainder.exact_iff.mp (by linarith)⟩
  · rintro ⟨hzero, hsticky⟩
    have hup : roundsUp mantissa sticky drop = false := by
      have hpos : 0 < 2 ^ (drop - 1) := Nat.two_pow_pos _
      cases hup : roundsUp mantissa sticky drop with
      | false => rfl
      | true => rcases roundsUp_iff.mp hup with hmore | ⟨hhalf, -⟩ <;> omega
    have hx := hremainder.exact_iff.mpr hsticky
    rw [hzero, Nat.cast_zero] at hx
    rw [hup, Bool.toNat_false, Nat.add_zero]
    linarith

/-- A mantissa of zero is not `sticky`, and truncates zero only. -/
theorem of_mantissa_zero (h : Truncates x 0 sticky) (hsticky : sticky = true → 2 ^ 53 ≤ 0) :
    sticky = false ∧ x = 0 := by
  have hplain : sticky = false := by
    cases sticky with
    | false => rfl
    | true => exact absurd (hsticky rfl) (by decide)
  exact ⟨hplain, by rw [h.exact_iff.mpr hplain, Nat.cast_zero]⟩

theorem one_le (h : Truncates x mantissa sticky) (hsticky : sticky = true → 2 ^ 53 ≤ mantissa)
    (hx : x ≠ 0) : 1 ≤ x := by
  have hsome : mantissa ≠ 0 := by
    rintro rfl
    exact hx (h.of_mantissa_zero hsticky).2
  have hcast : (1 : ℚ) ≤ mantissa := by exact_mod_cast Nat.one_le_iff_ne_zero.mpr hsome
  exact le_trans hcast h.le

end Truncates

/-! ## The result of rounding -/

namespace Rounded

open Binary64

/-- `r` is the rounding of `q`: its value is nearest, and a finite value is `exact` if and only if it is
    `q`. -/
structure Rounds (r : Rounded) (q : ℚ) : Prop where
  nearest : NearestEven q r.value.place
  exact_iff : r.value.place < infinityPlace → (r.exact = true ↔ magnitude r.value.place = q)

theorem place_value (r : Rounded) : r.value.place = placeOf r.significand r.exponent := rfl

/-- A result that is placed on a grid is right if it is right on the grid. -/
theorem rounds_of_grid {r : Rounded} {q : ℚ} {E n : Nat}
    (hplaced : placeOf r.significand r.exponent = min (E * 2 ^ 52 + n) infinityPlace)
    (h : RoundsOnGrid q E n) (hexact : r.exact = true ↔ n * gap E = q) : r.Rounds q := by
  have hplace : r.value.place = min (E * 2 ^ 52 + n) infinityPlace := by
    rw [r.place_value, hplaced]
  refine ⟨?_, ?_⟩
  · rw [hplace]
    exact nearestEven_of_grid h
  · intro hfinite
    have hle : E * 2 ^ 52 + n ≤ infinityPlace := by omega
    rw [hexact, hplace, Nat.min_eq_left hle, h.magnitude_eq]

variable {mantissa : Nat} {sticky : Bool} {exponent : Int} {x : ℚ}

theorem rounds_zero : (ofMantissa 0 false exponent).Rounds 0 := by
  have hplace : (ofMantissa 0 false exponent).value.place = 0 :=
    placeOf_zero minExponent
  refine ⟨hplace ▸ nearestEven_zero ?_, fun _ => ?_⟩
  · rw [mul_zero]; exact le_of_lt (gap_pos 0)
  · rw [hplace, magnitude_zero]
    exact ⟨fun _ => rfl, fun _ => rfl⟩

/-! ### Dropping none of the bits, or all -/

theorem ofMantissa_of_dropCount_nonpos (hpos : mantissa ≠ 0)
    (hdrop : dropCount mantissa exponent ≤ 0) :
    ofMantissa mantissa sticky exponent = ⟨mantissa, exponent, !sticky⟩ := by
  unfold ofMantissa
  simp only [if_neg hpos, if_pos hdrop]

theorem ofMantissa_of_bitLength_lt (hpos : mantissa ≠ 0)
    (hbits : (bitLength mantissa : Int) < dropCount mantissa exponent) :
    ofMantissa mantissa sticky exponent = ⟨0, exponent + dropCount mantissa exponent, false⟩ := by
  unfold ofMantissa
  simp only [if_neg hpos, if_neg (show ¬dropCount mantissa exponent ≤ 0 by omega), if_pos hbits]

/-- Where nothing is dropped, the mantissa has at most 53 bits and is not `sticky`. -/
theorem lt_of_dropCount_nonpos (hsticky : sticky = true → 2 ^ 53 ≤ mantissa)
    (hdrop : dropCount mantissa exponent ≤ 0) :
    mantissa < 2 ^ 53 ∧ sticky = false ∧ -1074 ≤ exponent := by
  have hcount : max ((bitLength mantissa : Int) - 53) (-1074 - exponent) ≤ 0 := hdrop
  have hlt : mantissa < 2 ^ 53 := bitLength_le_iff.mp (by omega)
  refine ⟨hlt, ?_, by omega⟩
  cases sticky with
  | false => rfl
  | true => exact absurd (hsticky rfl) (Nat.not_le_of_lt hlt)

/-- Where more bits are dropped than there are, the number is at most half of the smallest subnormal. -/
theorem two_mul_le_gap_of_bitLength_lt (hx : Truncates x mantissa sticky)
    (hbits : (bitLength mantissa : Int) < dropCount mantissa exponent) :
    2 * (x * 2 ^ exponent) ≤ gap 0 := by
  have hcount : (bitLength mantissa : Int) <
    max ((bitLength mantissa : Int) - 53) (-1074 - exponent) := hbits
  have hscale : (0 : ℚ) < 2 ^ exponent := zpow_pos (by norm_num) _
  have hxlt : x ≤ (2 ^ bitLength mantissa : ℕ) := by
    have hmantissa : mantissa + 1 ≤ 2 ^ bitLength mantissa :=
      bitLength_le_iff.mp (Nat.le_refl _)
    have hcast : (mantissa : ℚ) + 1 ≤ (2 ^ bitLength mantissa : ℕ) := by exact_mod_cast hmantissa
    exact le_of_lt (lt_of_lt_of_le hx.lt hcast)
  calc 2 * (x * 2 ^ exponent)
      ≤ 2 * ((2 ^ bitLength mantissa : ℕ) * 2 ^ exponent) := by
        exact mul_le_mul_of_nonneg_left
          (mul_le_mul_of_nonneg_right hxlt (le_of_lt hscale)) (by norm_num)
    _ = 2 ^ (1 + bitLength mantissa + exponent : ℤ) := by
        rw [zpow_add₀ (by norm_num), zpow_add₀ (by norm_num), zpow_one, zpow_natCast,
          Nat.cast_pow, Nat.cast_ofNat, mul_assoc]
    _ ≤ gap 0 := zpow_le_zpow_right₀ (by norm_num) (by omega)

theorem mul_zpow_pos (hx : Truncates x mantissa sticky) (hpos : mantissa ≠ 0) (exponent : Int) :
    0 < x * 2 ^ exponent := by
  have hcast : (0 : ℚ) < mantissa := by exact_mod_cast Nat.pos_of_ne_zero hpos
  exact mul_pos (lt_of_lt_of_le hcast hx.le) (zpow_pos (by norm_num) _)

/-- No bit is dropped: the value is exact. -/
theorem rounds_of_dropCount_nonpos (hx : Truncates x mantissa sticky)
    (hsticky : sticky = true → 2 ^ 53 ≤ mantissa) (hpos : mantissa ≠ 0)
    (hdrop : dropCount mantissa exponent ≤ 0) :
    (ofMantissa mantissa sticky exponent).Rounds (x * 2 ^ exponent) := by
  obtain ⟨hlt, hplain, hexponent⟩ := lt_of_dropCount_nonpos hsticky hdrop
  obtain ⟨E, n, hplace, hn, hnormal, hvalue⟩ := placeOf_eq_grid hlt hexponent
  rw [ofMantissa_of_dropCount_nonpos hpos hdrop, hx.exact_iff.mpr hplain, ← hvalue]
  refine rounds_of_grid hplace ⟨hn, hnormal.imp_right fun hhigh => ⟨hhigh, ?_⟩, ?_, ?_⟩ ?_
  · exact mul_le_mul_of_nonneg_right (by exact_mod_cast hhigh) (le_of_lt (gap_pos E))
  · rw [sub_self, abs_zero, mul_zero]; exact le_of_lt (gap_pos E)
  · intro htie
    rw [sub_self, abs_zero, mul_zero] at htie
    exact absurd htie (ne_of_lt (gap_pos E))
  · rw [hplain]
    exact ⟨fun _ => rfl, fun _ => rfl⟩

/-- More bits are dropped than there are: the number is below half of the smallest subnormal. -/
theorem rounds_of_bitLength_lt (hx : Truncates x mantissa sticky) (hpos : mantissa ≠ 0)
    (hbits : (bitLength mantissa : Int) < dropCount mantissa exponent) :
    (ofMantissa mantissa sticky exponent).Rounds (x * 2 ^ exponent) := by
  rw [ofMantissa_of_bitLength_lt hpos hbits]
  have hplace : placeOf 0 (exponent + dropCount mantissa exponent) = 0 := placeOf_zero _
  refine ⟨?_, fun _ => ?_⟩
  · rw [place_value, hplace]
    exact nearestEven_zero (two_mul_le_gap_of_bitLength_lt hx hbits)
  · rw [place_value, hplace, magnitude_zero]
    constructor
    · intro hfalse
      cases hfalse
    · intro hzero
      exact absurd hzero (ne_of_lt (mul_zpow_pos hx hpos exponent))

/-! ### Dropping some of the bits -/

theorem ofMantissa_of_dropCount {drop : Nat} (hpos : mantissa ≠ 0)
    (hdrop : dropCount mantissa exponent = drop) (hsome : 0 < drop)
    (hbits : drop ≤ bitLength mantissa) :
    ofMantissa mantissa sticky exponent =
      ⟨keptRounded mantissa sticky drop, exponent + drop,
        mantissa % 2 ^ drop == 0 && !sticky⟩ := by
  unfold ofMantissa
  simp only [hdrop, if_neg hpos, if_neg (show ¬((drop : Int) ≤ 0) by omega),
    if_neg (show ¬((bitLength mantissa : Int) < drop) by omega), Int.toNat_natCast]
  rfl

/-- `keptRounded` has at most 53 bits, or is 2^53 after a carry. -/
theorem keptRounded_le {drop : Nat} (hdrop : dropCount mantissa exponent = drop) :
    keptRounded mantissa sticky drop ≤ 2 ^ 53 := by
  have hcount : max ((bitLength mantissa : Int) - 53) (-1074 - exponent) = drop := hdrop
  have hkept : mantissa >>> drop < 2 ^ 53 := by
    rw [Nat.shiftRight_eq_div_pow, Nat.div_lt_iff_lt_mul (Nat.two_pow_pos _), ← Nat.pow_add]
    exact bitLength_le_iff.mp (by omega)
  have hone := Bool.toNat_le (roundsUp mantissa sticky drop)
  unfold keptRounded
  omega

/-- The last kept bit is worth a `gap` of the format, the smallest one unless 53 bits are kept. -/
theorem exists_gap_of_dropCount {drop : Nat} (hdrop : dropCount mantissa exponent = drop) :
    ∃ E : Nat, (E : Int) - 1074 = exponent + drop ∧ (E = 0 ∨ 2 ^ 52 ≤ mantissa >>> drop) ∧
      gap E = (2 ^ drop : ℕ) * 2 ^ exponent := by
  have hcount : max ((bitLength mantissa : Int) - 53) (-1074 - exponent) = drop := hdrop
  obtain ⟨E, hE⟩ : ∃ E : Nat, (E : Int) - 1074 = exponent + drop :=
    ⟨(exponent + drop + 1074).toNat, by omega⟩
  refine ⟨E, hE, ?_, ?_⟩
  · by_cases hzero : E = 0
    · exact .inl hzero
    · right
      rw [Nat.shiftRight_eq_div_pow, Nat.le_div_iff_mul_le (Nat.two_pow_pos _), ← Nat.pow_add]
      exact lt_bitLength_iff.mp (by omega)
  · unfold gap
    rw [hE, add_comm, zpow_add₀ (by norm_num), zpow_natCast, Nat.cast_pow, Nat.cast_ofNat]

/-- `keptRounded` is right on the grid of its last bit. -/
theorem roundsOnGrid_keptRounded {drop E : Nat} (hx : Truncates x mantissa sticky)
    (hsome : 0 < drop) (hle : keptRounded mantissa sticky drop ≤ 2 ^ 53)
    (hnormal : E = 0 ∨ 2 ^ 52 ≤ mantissa >>> drop)
    (hgap : gap E = (2 ^ drop : ℕ) * 2 ^ exponent) :
    RoundsOnGrid (x * 2 ^ exponent) E (keptRounded mantissa sticky drop) := by
  have hscale : (0 : ℚ) < 2 ^ exponent := zpow_pos (by norm_num) _
  have hdistance : |x * 2 ^ exponent - (keptRounded mantissa sticky drop : ℕ) * gap E| =
      |x - (keptRounded mantissa sticky drop : ℕ) * (2 ^ drop : ℕ)| * 2 ^ exponent := by
    rw [hgap, ← mul_assoc, ← sub_mul, abs_mul, abs_of_pos hscale]
  obtain ⟨hhalf, htie⟩ := hx.keptRounded_nearest hsome
  refine ⟨hle, hnormal.imp_right fun hhigh => ⟨?_, ?_⟩, ?_, ?_⟩
  · exact Nat.le_trans hhigh (Nat.le_add_right _ _)
  · have hfloor := (hx.remainder drop).le
    have hmod : (0 : ℚ) ≤ (mantissa % 2 ^ drop : ℕ) := Nat.cast_nonneg _
    have hcast : ((2 ^ 52 : ℕ) : ℚ) * (2 ^ drop : ℕ) ≤ (mantissa >>> drop : ℕ) * (2 ^ drop : ℕ) := by
      exact_mod_cast Nat.mul_le_mul_right _ hhigh
    rw [hgap, ← mul_assoc]
    exact mul_le_mul_of_nonneg_right (by linarith) (le_of_lt hscale)
  · rw [hdistance, hgap, ← mul_assoc]
    exact mul_le_mul_of_nonneg_right hhalf (le_of_lt hscale)
  · intro heq
    rw [hdistance, hgap, ← mul_assoc] at heq
    exact htie (mul_right_cancel₀ (ne_of_gt hscale) heq)

/-- Some bits are dropped: the kept ones are rounded on their grid. -/
theorem rounds_of_dropCount {drop : Nat} (hx : Truncates x mantissa sticky) (hpos : mantissa ≠ 0)
    (hdrop : dropCount mantissa exponent = drop) (hsome : 0 < drop)
    (hbits : drop ≤ bitLength mantissa) :
    (ofMantissa mantissa sticky exponent).Rounds (x * 2 ^ exponent) := by
  have hscale : (0 : ℚ) < 2 ^ exponent := zpow_pos (by norm_num) _
  obtain ⟨E, hE, hnormal, hgap⟩ := exists_gap_of_dropCount hdrop
  have hgrid := roundsOnGrid_keptRounded hx hsome (keptRounded_le hdrop) hnormal hgap
  have hplace : placeOf (keptRounded mantissa sticky drop) (exponent + drop) =
      min (E * 2 ^ 52 + keptRounded mantissa sticky drop) infinityPlace := by
    rw [← hE, placeOf_grid (hgrid.normal.imp_right And.left)]
  rw [ofMantissa_of_dropCount hpos hdrop hsome hbits]
  refine rounds_of_grid hplace hgrid ?_
  rw [hgap, ← mul_assoc, mul_left_inj' (ne_of_gt hscale), hx.keptRounded_exact_iff]
  simp

/-! ### Every mantissa -/

/-- **`ofMantissa` rounds to nearest**, provided that a `sticky` mantissa has more than 53 bits. -/
theorem rounds_ofMantissa (hx : Truncates x mantissa sticky)
    (hsticky : sticky = true → 2 ^ 53 ≤ mantissa) (exponent : Int) :
    (ofMantissa mantissa sticky exponent).Rounds (x * 2 ^ exponent) := by
  by_cases hzero : mantissa = 0
  · subst hzero
    obtain ⟨hplain, hx⟩ := hx.of_mantissa_zero hsticky
    rw [hplain, hx, zero_mul]
    exact rounds_zero
  rcases lt_or_ge 0 (dropCount mantissa exponent) with hsome | hnone
  · rcases lt_or_ge (bitLength mantissa : Int) (dropCount mantissa exponent) with hall | hbits
    · exact rounds_of_bitLength_lt hx hzero hall
    · obtain ⟨drop, hdrop⟩ := Int.eq_ofNat_of_zero_le (Int.le_of_lt hsome)
      exact rounds_of_dropCount hx hzero hdrop (by omega) (by omega)
  · exact rounds_of_dropCount_nonpos hx hsticky hzero hnone

/-! ## Far outside the range -/

variable {r : Rounded} {q q' : ℚ}

/-- `Rounds` does not tell the numbers from 2^1024 on apart. -/
theorem Rounds.of_large (h : r.Rounds q) (hq : magnitude infinityPlace ≤ q)
    (hq' : magnitude infinityPlace ≤ q') : r.Rounds q' := by
  have hplace : r.value.place = infinityPlace := h.nearest.unique (nearestEven_infinityPlace hq)
  refine ⟨hplace ▸ nearestEven_infinityPlace hq', ?_⟩
  intro hfinite
  exact absurd hfinite (Nat.not_lt_of_le (Nat.le_of_eq hplace.symm))

/-- `Rounds` does not tell the positive numbers up to half of the smallest subnormal apart. -/
theorem Rounds.of_small (h : r.Rounds q) (hpos : 0 < q) (hpos' : 0 < q') (hq : 2 * q ≤ gap 0)
    (hq' : 2 * q' ≤ gap 0) : r.Rounds q' := by
  have hplace : r.value.place = 0 := h.nearest.unique (nearestEven_zero hq)
  refine ⟨hplace ▸ nearestEven_zero hq', ?_⟩
  intro hfinite
  rw [h.exact_iff hfinite, hplace, magnitude_zero]
  constructor
  · intro hzero
    exact absurd hzero (ne_of_lt hpos)
  · intro hzero
    exact absurd hzero (ne_of_lt hpos')

end Rounded

end NetKit
