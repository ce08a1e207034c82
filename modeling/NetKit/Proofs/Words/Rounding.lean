import NetKit.Number.Mantissa
import NetKit.Proofs.Number.Rounding
import NetKit.Proofs.Words.Checked

/-!
# Rounding in words — the significand and the exponent, and the scaling with both

`Rounded.ofMantissa` drops low bits and gives a significand and an exponent. Here is what these two integers are,
without the format's places: the significand is the multiple of a power of two that is nearest to the number, the
power being the one that leaves 53 bits or 2^-1074 if that is larger (`NearestMultiple`,
`Rounded.Kernel`).

The same is computed in machine words (`Rounded.ofMantissaInWords`), where bits are shifted by checked amounts and
exponents saturate. No check fails for mantissas below 2^60, and the result is the same but for exponents beyond
the largest word, which are all infinite (`ofMantissaInWords_eq_ok`).

## Contents
- `NearestMultiple`, `nearestMultiple_of_half`: rounding to multiples of a power of two.
- `Rounded.Kernel`, `Rounded.kernel_ofMantissa`: what rounding a mantissa computes.
- `Rounded.ofMantissaInWords`, `Rounded.ofMantissaInWords_eq_ok`: the same in words.
- `Rounded.ofMantissaInWords_nearestMultiple`: both together.
-/

namespace NetKit

-- Powers are those of the core library, as in the modules that define rounding.
attribute [local instance (high)] instPowNat

/-! ## Multiples of a power of two -/

/-- `n` times 2^`E` is the rounding of `q` to multiples of 2^`E`: none is nearer, and one that is equally
    near is passed over for an even one only. -/
structure NearestMultiple (q : ℚ) (E n : ℤ) : Prop where
  nearest : ∀ k : ℤ, |q - n * 2 ^ E| ≤ |q - k * 2 ^ E|
  even : ∀ k : ℤ, k ≠ n → |q - k * 2 ^ E| = |q - n * 2 ^ E| → n % 2 = 0

/-- Two multiples are at least 2^`E` apart. -/
theorem gap_le_add_abs {q : ℚ} {E n k : ℤ} (hne : k ≠ n) :
    2 ^ E ≤ |q - n * 2 ^ E| + |q - k * 2 ^ E| := by
  have hgap : (0 : ℚ) < 2 ^ E := zpow_pos (by norm_num) _
  have hone : (1 : ℚ) ≤ |(k : ℚ) - n| := by
    have hint : (1 : ℤ) ≤ |k - n| := Int.one_le_abs (sub_ne_zero.mpr hne)
    exact_mod_cast hint
  calc (2 : ℚ) ^ E ≤ |(k : ℚ) - n| * 2 ^ E := le_mul_of_one_le_left (le_of_lt hgap) hone
    _ = |(q - n * 2 ^ E) - (q - k * 2 ^ E)| := by
        rw [sub_sub_sub_cancel_left, ← sub_mul, abs_mul, abs_of_pos hgap]
    _ ≤ |q - n * 2 ^ E| + |q - k * 2 ^ E| := abs_sub _ _

/-- A multiple within half of 2^`E` is the nearest one. -/
theorem nearestMultiple_of_half {q : ℚ} {E n : ℤ} (hhalf : 2 * |q - n * 2 ^ E| ≤ 2 ^ E)
    (htie : 2 * |q - n * 2 ^ E| = 2 ^ E → n % 2 = 0) : NearestMultiple q E n where
  nearest k := by
    rcases eq_or_ne k n with rfl | hne
    · exact le_refl _
    · have hgap := gap_le_add_abs (q := q) (E := E) hne
      linarith
  even k hne hequal := by
    have hgap := gap_le_add_abs (q := q) (E := E) hne
    exact htie (by linarith)

/-- A multiple is its own rounding. -/
theorem nearestMultiple_self (E n : ℤ) : NearestMultiple (n * 2 ^ E) E n := by
  have hgap : (0 : ℚ) < 2 ^ E := zpow_pos (by norm_num) _
  apply nearestMultiple_of_half
  · rw [sub_self, abs_zero, mul_zero]
    exact le_of_lt hgap
  · intro htie
    rw [sub_self, abs_zero, mul_zero] at htie
    exact absurd htie (ne_of_lt hgap)

/-! ## What rounding a mantissa computes -/

namespace Rounded

open Binary64

/-- The `significand` and the `exponent` are those of the `NearestMultiple` for the power of two that leaves
    53 bits, or 2^-1074. -/
structure Kernel (r : Rounded) (q : ℚ) : Prop where
  nearest : ∃ E n : ℤ, 2 ^ 52 * 2 ^ E ≤ q ∧ q < 2 ^ 53 * 2 ^ E ∧ NearestMultiple q (max E (-1074)) n ∧
    (r.significand : ℚ) * 2 ^ r.exponent = n * 2 ^ max E (-1074)
  exact_iff : r.exact = true ↔ (r.significand : ℚ) * 2 ^ r.exponent = q
  significand_le : r.significand ≤ 2 ^ 53
  exponent_le : 0 < r.significand → -1074 ≤ r.exponent

variable {mantissa : Nat} {sticky : Bool} {exponent : Int} {x : ℚ}

/-- The exponent that leaves 53 bits of `mantissa`. -/
def leadingExponent (mantissa : Nat) (exponent : Int) : Int := exponent + bitLength mantissa - 53

/-- A number has 53 bits before its `leadingExponent`, whatever fraction it has. -/
theorem leadingExponent_bounds (hx : Truncates x mantissa sticky) (hpos : mantissa ≠ 0)
    (exponent : Int) :
    2 ^ 52 * 2 ^ leadingExponent mantissa exponent ≤ x * 2 ^ exponent ∧
      x * 2 ^ exponent < 2 ^ 53 * 2 ^ leadingExponent mantissa exponent := by
  have hscale : (0 : ℚ) < 2 ^ exponent := zpow_pos (by norm_num) _
  obtain ⟨k, hk⟩ : ∃ k, bitLength mantissa = k + 1 :=
    Nat.exists_eq_add_one.mpr (lt_bitLength_iff.mpr (Nat.pos_of_ne_zero hpos))
  have hlow : ((2 ^ k : ℕ) : ℚ) ≤ mantissa := by
    exact_mod_cast lt_bitLength_iff.mp (by omega)
  have hhigh : (mantissa : ℚ) + 1 ≤ (2 ^ (k + 1) : ℕ) := by
    have hlt : mantissa + 1 ≤ 2 ^ (k + 1) := bitLength_le_iff.mp (Nat.le_of_eq hk)
    exact_mod_cast hlt
  have hpower : ∀ j : ℕ, (2 : ℚ) ^ (j + 52) * 2 ^ leadingExponent mantissa exponent =
      (2 ^ (j + k) : ℕ) * 2 ^ exponent := by
    intro j
    unfold leadingExponent
    rw [hk, Nat.cast_pow, Nat.cast_ofNat, ← zpow_natCast, ← zpow_natCast, ← zpow_add₀ (by norm_num),
      ← zpow_add₀ (by norm_num)]
    congr 1
    push_cast
    ring
  have hzero := hpower 0
  have hone := hpower 1
  rw [Nat.zero_add, Nat.zero_add] at hzero
  rw [hzero, show (53 : ℕ) = 1 + 52 from rfl, hone, Nat.add_comm 1 k]
  exact ⟨mul_le_mul_of_nonneg_right (hlow.trans hx.le) (le_of_lt hscale),
    mul_lt_mul_of_pos_right (lt_of_lt_of_le hx.lt hhigh) hscale⟩

/-- `dropCount` leads to the larger of the two exponents that limit it. -/
theorem exponent_add_dropCount (mantissa : Nat) (exponent : Int) :
    exponent + dropCount mantissa exponent = max (leadingExponent mantissa exponent) (-1074) := by
  have hcount : dropCount mantissa exponent =
    max ((bitLength mantissa : Int) - 53) (-1074 - exponent) := rfl
  unfold leadingExponent
  omega

/-- No bit is dropped: the number is a multiple already. -/
theorem kernel_of_dropCount_nonpos (hx : Truncates x mantissa sticky)
    (hsticky : sticky = true → 2 ^ 53 ≤ mantissa) (hpos : mantissa ≠ 0)
    (hdrop : dropCount mantissa exponent ≤ 0) :
    (ofMantissa mantissa sticky exponent).Kernel (x * 2 ^ exponent) := by
  obtain ⟨hlt, hplain, hexponent⟩ := lt_of_dropCount_nonpos hsticky hdrop
  obtain ⟨hlow, hhigh⟩ := leadingExponent_bounds hx hpos exponent
  obtain ⟨room, hroom⟩ : ∃ room : ℕ, exponent = max (leadingExponent mantissa exponent) (-1074) + room := by
    have hadd := exponent_add_dropCount mantissa exponent
    exact ⟨(-dropCount mantissa exponent).toNat, by omega⟩
  have hvalue : x * 2 ^ exponent =
      ((mantissa * 2 ^ room : ℕ) : ℤ) * 2 ^ max (leadingExponent mantissa exponent) (-1074) := by
    rw [hx.exact_iff.mpr hplain]
    nth_rewrite 1 [hroom]
    rw [zpow_add₀ (by norm_num), zpow_natCast]
    push_cast
    ring
  rw [ofMantissa_of_dropCount_nonpos hpos hdrop]
  refine ⟨⟨leadingExponent mantissa exponent, (mantissa * 2 ^ room : ℕ), hlow, hhigh, ?_, ?_⟩, ?_, ?_, ?_⟩
  · rw [hvalue]
    exact nearestMultiple_self _ _
  · rw [← hvalue, hx.exact_iff.mpr hplain]
  · rw [hplain, hx.exact_iff.mpr hplain]
    exact ⟨fun _ => rfl, fun _ => rfl⟩
  · exact Nat.le_of_lt hlt
  · exact fun _ => hexponent

/-- More bits are dropped than there are: zero is the nearest multiple. -/
theorem kernel_of_bitLength_lt (hx : Truncates x mantissa sticky) (hpos : mantissa ≠ 0)
    (hbits : (bitLength mantissa : Int) < dropCount mantissa exponent) :
    (ofMantissa mantissa sticky exponent).Kernel (x * 2 ^ exponent) := by
  obtain ⟨hlow, hhigh⟩ := leadingExponent_bounds hx hpos exponent
  have hsmall := two_mul_le_gap_of_bitLength_lt hx hbits
  have hnumber := mul_zpow_pos hx hpos exponent
  have hgap : gap 0 = 2 ^ max (leadingExponent mantissa exponent) (-1074) := by
    have hcount : dropCount mantissa exponent =
      max ((bitLength mantissa : Int) - 53) (-1074 - exponent) := rfl
    have hmax : max (leadingExponent mantissa exponent) (-1074) = ((0 : ℕ) : ℤ) - 1074 := by
      unfold leadingExponent
      omega
    rw [hmax]
    rfl
  rw [ofMantissa_of_bitLength_lt hpos hbits]
  refine ⟨⟨leadingExponent mantissa exponent, 0, hlow, hhigh, ?_, ?_⟩, ?_, ?_, ?_⟩
  · refine nearestMultiple_of_half ?_ (fun _ => rfl)
    rw [Int.cast_zero, zero_mul, sub_zero, abs_of_pos hnumber, ← hgap]
    exact hsmall
  · rw [Nat.cast_zero, Int.cast_zero, zero_mul, zero_mul]
  · rw [Nat.cast_zero, zero_mul]
    constructor
    · intro hfalse
      cases hfalse
    · intro hzero
      exact absurd hzero (ne_of_lt hnumber)
  · exact Nat.zero_le _
  · exact fun hfalse => absurd hfalse (Nat.lt_irrefl 0)

/-- Some bits are dropped: the kept ones are rounded to the multiples of their last. -/
theorem kernel_of_dropCount {drop : Nat} (hx : Truncates x mantissa sticky) (hpos : mantissa ≠ 0)
    (hdrop : dropCount mantissa exponent = drop) (hsome : 0 < drop)
    (hbits : drop ≤ bitLength mantissa) :
    (ofMantissa mantissa sticky exponent).Kernel (x * 2 ^ exponent) := by
  have hscale : (0 : ℚ) < 2 ^ exponent := zpow_pos (by norm_num) _
  obtain ⟨hlow, hhigh⟩ := leadingExponent_bounds hx hpos exponent
  have hmax : max (leadingExponent mantissa exponent) (-1074) = exponent + drop := by
    rw [← exponent_add_dropCount, hdrop]
  have hgap : (2 : ℚ) ^ (exponent + drop) = (2 ^ drop : ℕ) * 2 ^ exponent := by
    rw [add_comm, zpow_add₀ (by norm_num), zpow_natCast, Nat.cast_pow, Nat.cast_ofNat]
  have hdistance : |x * 2 ^ exponent - (keptRounded mantissa sticky drop : ℤ) * 2 ^ (exponent + drop)| =
      |x - (keptRounded mantissa sticky drop : ℕ) * (2 ^ drop : ℕ)| * 2 ^ exponent := by
    rw [hgap, ← mul_assoc, ← sub_mul, abs_mul, abs_of_pos hscale, Int.cast_natCast]
  obtain ⟨hhalf, htie⟩ := hx.keptRounded_nearest hsome
  rw [ofMantissa_of_dropCount hpos hdrop hsome hbits]
  refine ⟨⟨leadingExponent mantissa exponent, keptRounded mantissa sticky drop, hlow, hhigh, ?_, ?_⟩,
    ?_, keptRounded_le hdrop, ?_⟩
  · rw [hmax]
    apply nearestMultiple_of_half
    · rw [hdistance, hgap, ← mul_assoc]
      exact mul_le_mul_of_nonneg_right hhalf (le_of_lt hscale)
    · intro heq
      rw [hdistance, hgap, ← mul_assoc] at heq
      have heven := htie (mul_right_cancel₀ (ne_of_gt hscale) heq)
      omega
  · rw [hmax, Int.cast_natCast]
  · rw [hgap, ← mul_assoc, mul_left_inj' (ne_of_gt hscale), hx.keptRounded_exact_iff]
    simp
  · intro _
    have hle := le_max_right (leadingExponent mantissa exponent) (-1074)
    rw [hmax] at hle
    exact hle

/-- **`ofMantissa` computes the nearest multiple**, at every exponent. -/
theorem kernel_ofMantissa (hx : Truncates x mantissa sticky)
    (hsticky : sticky = true → 2 ^ 53 ≤ mantissa) (hpos : mantissa ≠ 0) (exponent : Int) :
    (ofMantissa mantissa sticky exponent).Kernel (x * 2 ^ exponent) := by
  rcases lt_or_ge 0 (dropCount mantissa exponent) with hsome | hnone
  · rcases lt_or_ge (bitLength mantissa : Int) (dropCount mantissa exponent) with hall | hbits
    · exact kernel_of_bitLength_lt hx hpos hall
    · obtain ⟨drop, hdrop⟩ := Int.eq_ofNat_of_zero_le (Int.le_of_lt hsome)
      exact kernel_of_dropCount hx hpos hdrop (by omega) (by omega)
  · exact kernel_of_dropCount_nonpos hx hsticky hpos hnone

/-! ## The same in words -/

/-- `keptRounded` in words, and whether nothing is lost; bits are shifted in words of 128. -/
def dropInWords (mantissa : Nat) (sticky : Bool) (drop : Int) : Checked (Nat × Bool) := do
  let kept := mantissa >>> (← shiftAmount drop)
  let unit ← natWord 128 (1 <<< (← shiftAmount drop))
  let remainder := mantissa &&& (← natOfInt (unit - 1))
  let half ← natWord 128 (1 <<< (← shiftAmount (← intWord (drop - 1))))
  let up := half < remainder || (remainder == half && (sticky || kept &&& 1 == 1))
  let rounded ← natWord 64 ((← natWord 64 kept) + up.toNat)
  return (rounded, remainder == 0 && !sticky)

/-- `ofMantissa` in words, for a mantissa of 64 bits. A significand of zero has no exponent of its own. -/
def ofMantissaInWords (mantissa : Nat) (sticky : Bool) (exponent : Int) : Checked Rounded :=
  if mantissa = 0 then return ⟨0, minExponent, true⟩
  else do
    let bits : Int := bitLength mantissa
    let drop := max (← intWord (bits - precision)) (clampExponent (minExponent - exponent))
    let (kept, exact) ←
      if drop ≤ 0 then pure (mantissa, !sticky)
      else if bits < drop then pure (0, false)
      else dropInWords mantissa sticky drop
    if kept = 0 then return ⟨0, minExponent, false⟩
    else return ⟨kept, clampExponent (exponent + max drop 0), exact⟩

theorem dropInWords_eq_ok {drop : Nat} (hlt : mantissa < 2 ^ 60) (hsome : 0 < drop) (hdrop : drop ≤ 60) :
    dropInWords mantissa sticky drop =
      .ok (keptRounded mantissa sticky drop, mantissa % 2 ^ drop == 0 && !sticky) := by
  have hpower : 2 ^ drop ≤ 2 ^ 60 := Nat.pow_le_pow_right (by decide) hdrop
  have hhalf : 2 ^ (drop - 1) ≤ 2 ^ 60 := Nat.pow_le_pow_right (by decide) (by omega)
  have hkept : mantissa >>> drop < 2 ^ 60 := Nat.lt_of_le_of_lt (Nat.shiftRight_le mantissa drop) hlt
  have hunit : ((2 ^ drop : Nat) : Int) - 1 = ((2 ^ drop - 1 : Nat) : Int) := by
    have hpos := Nat.two_pow_pos drop
    omega
  have hless : (drop : Int) - 1 = ((drop - 1 : Nat) : Int) := by omega
  have hup := Bool.toNat_le (roundsUp mantissa sticky drop)
  have hsum : natWord 64 (mantissa >>> drop + (roundsUp mantissa sticky drop).toNat) =
      .ok (mantissa >>> drop + (roundsUp mantissa sticky drop).toNat) := natWord_of_lt (by omega)
  unfold dropInWords
  simp only [shiftAmount_natCast hdrop, Checked.ok_bind, Nat.one_shiftLeft,
    natWord_of_lt (show 2 ^ drop < 2 ^ 128 by omega), hunit, natOfInt_natCast,
    Nat.and_two_pow_sub_one_eq_mod, hless, intWord_of_mem (i := ((drop - 1 : Nat) : Int)) (by omega) (by omega),
    shiftAmount_natCast (show drop - 1 ≤ 60 by omega),
    natWord_of_lt (show 2 ^ (drop - 1) < 2 ^ 128 by omega), Nat.and_one_is_mod,
    natWord_of_lt (show mantissa >>> drop < 2 ^ 64 by omega)]
  exact congrArg (· >>= _) hsum

/-- `keptRounded` is zero only if nothing is kept. -/
theorem lt_of_keptRounded_eq_zero {drop : Nat} (hzero : keptRounded mantissa sticky drop = 0) :
    mantissa < 2 ^ drop := by
  have hkept : mantissa >>> drop = 0 := (Nat.add_eq_zero_iff.mp hzero).1
  rw [Nat.shiftRight_eq_div_pow] at hkept
  exact (Nat.div_eq_zero_iff_lt (Nat.two_pow_pos drop)).mp hkept

/-- The saturated distance to `minExponent` decides as the distance does. -/
theorem max_clampExponent (mantissa : Nat) (hhigh : -2 ^ 63 ≤ exponent) :
    max ((bitLength mantissa : Int) - precision) (clampExponent (minExponent - exponent)) =
      dropCount mantissa exponent := by
  have hlimit : exponentLimit = 9223372036854775807 := by decide
  have hminimum : minExponent = -1074 := rfl
  have hprecision : precision = 53 := rfl
  unfold dropCount clampExponent
  omega

/-- **`ofMantissaInWords` passes all checks**, and is `ofMantissa` but for exponents that are too large for
    a word. -/
theorem ofMantissaInWords_eq_ok (hlt : mantissa < 2 ^ 60) (hlow : -2 ^ 63 ≤ exponent)
    (hhigh : exponent < 2 ^ 63) :
    ofMantissaInWords mantissa sticky exponent =
      .ok { ofMantissa mantissa sticky exponent with
        exponent := min (ofMantissa mantissa sticky exponent).exponent exponentLimit } := by
  have hlimit : exponentLimit = 9223372036854775807 := by decide
  have hprecision : precision = 53 := rfl
  have hbits : bitLength mantissa ≤ 60 := bitLength_le_iff.mpr hlt
  have hcount : dropCount mantissa exponent =
    max ((bitLength mantissa : Int) - 53) (-1074 - exponent) := rfl
  by_cases hpos : mantissa = 0
  · subst hpos
    rfl
  have hword : intWord ((bitLength mantissa : Int) - precision) = .ok ((bitLength mantissa : Int) - precision) :=
    intWord_of_mem (by omega) (by omega)
  have hclamp : ∀ i : Int, -2 ^ 63 ≤ i → clampExponent i = min i exponentLimit := by
    intro i hi
    unfold clampExponent
    omega
  unfold ofMantissaInWords
  simp only [if_neg hpos, hword, Checked.ok_bind, max_clampExponent mantissa hlow]
  rcases lt_or_ge 0 (dropCount mantissa exponent) with hsome | hnone
  · rw [if_neg (by omega), hclamp _ (by omega), Int.max_eq_left (Int.le_of_lt hsome)]
    rcases lt_or_ge (bitLength mantissa : Int) (dropCount mantissa exponent) with hall | hdrop
    · have hsmallest : exponent + dropCount mantissa exponent = minExponent := by
        have hminimum : minExponent = -1074 := rfl
        omega
      rw [if_pos hall, ofMantissa_of_bitLength_lt hpos hall, hsmallest]
      rfl
    · obtain ⟨drop, hnat⟩ := Int.eq_ofNat_of_zero_le (Int.le_of_lt hsome)
      rw [hnat] at hsome hdrop ⊢
      rw [if_neg (by omega), dropInWords_eq_ok hlt (by omega) (by omega),
        ofMantissa_of_dropCount hpos hnat (by omega) (by omega)]
      simp only [Checked.ok_bind]
      by_cases hzero : keptRounded mantissa sticky drop = 0
      · -- nothing is kept of the mantissa, so that all of its bits are dropped
        have hless := lt_of_keptRounded_eq_zero hzero
        have hall : bitLength mantissa ≤ drop := bitLength_le_iff.mpr hless
        have hsmallest : min (exponent + (drop : Int)) exponentLimit = minExponent := by
          have hminimum : minExponent = -1074 := rfl
          omega
        rw [if_pos hzero, hzero, hsmallest, Nat.mod_eq_of_lt hless, beq_eq_false_iff_ne.mpr hpos]
        rfl
      · rw [if_neg hzero]
        rfl
  · rw [if_pos hnone, ofMantissa_of_dropCount_nonpos hpos hnone]
    simp only [Checked.pure_eq_ok, Checked.ok_bind, if_neg hpos]
    rw [Int.max_eq_right hnone, Int.add_zero, hclamp _ hlow]

/-- The exponent of `ofMantissa` is as large as the dropped bits make it. -/
theorem exponent_ofMantissa_le (mantissa : Nat) (sticky : Bool) (exponent : Int) :
    (ofMantissa mantissa sticky exponent).exponent ≤
      max minExponent (max exponent (exponent + dropCount mantissa exponent)) := by
  unfold ofMantissa
  dsimp only
  split
  · exact Int.le_max_left _ _
  · split
    · dsimp only; omega
    · split
      · dsimp only; omega
      · dsimp only; omega

/-- **`ofMantissaInWords` computes the nearest multiple.** As long as adding the dropped bits to the
    exponent cannot exceed a word, the `significand` and the `exponent` that are computed in words are those
    of `ofMantissa`, and their product is the multiple that is nearest to the number. -/
theorem ofMantissaInWords_nearestMultiple (hpos : 1 ≤ mantissa) (hlt : mantissa < 2 ^ 60)
    (hlow : -2 ^ 63 ≤ exponent) (hhigh : exponent ≤ 2 ^ 63 - 8)
    (hbits : sticky = true → 53 < bitLength mantissa) (hplain : sticky = false → x = mantissa)
    (hfraction : sticky = true → (mantissa : ℚ) < x ∧ x < mantissa + 1) :
    ofMantissaInWords mantissa sticky exponent = .ok (ofMantissa mantissa sticky exponent) ∧
      (ofMantissa mantissa sticky exponent).Kernel (x * 2 ^ exponent) := by
  have hx : Truncates x mantissa sticky := by
    cases sticky with
    | false =>
        rw [hplain rfl]
        exact ⟨le_refl _, lt_add_one _, iff_of_true rfl rfl⟩
    | true =>
        obtain ⟨hmore, hless⟩ := hfraction rfl
        exact ⟨le_of_lt hmore, hless, iff_of_false (ne_of_gt hmore) (by decide)⟩
  refine ⟨?_, kernel_ofMantissa hx (fun h => lt_bitLength_iff.mp (hbits h)) (by omega) exponent⟩
  have hfits : (ofMantissa mantissa sticky exponent).exponent ≤ exponentLimit := by
    have hlimit : exponentLimit = 9223372036854775807 := by decide
    have hminimum : minExponent = -1074 := rfl
    have hlength : bitLength mantissa ≤ 60 := bitLength_le_iff.mpr hlt
    have hcount : dropCount mantissa exponent =
      max ((bitLength mantissa : Int) - 53) (-1074 - exponent) := rfl
    have hle := exponent_ofMantissa_le mantissa sticky exponent
    omega
  rw [ofMantissaInWords_eq_ok hlt hlow (by omega), Int.min_eq_left hfits]

/-- All 54 bits are ones and a fraction follows, at the exponent where either limit drops one bit: the 53 bits that
    are kept are carried to 2^53. -/
theorem ofMantissaInWords_nearestMultiple_carried :
    1 ≤ 18014398509481983 ∧ 18014398509481983 < 2 ^ 60 ∧ (-2 ^ 63 : Int) ≤ -1075 ∧
      (-1075 : Int) ≤ 2 ^ 63 - 8 ∧ 53 < bitLength 18014398509481983 ∧
      ((18014398509481983 : ℕ) : ℚ) < 36028797018963967 / 2 ∧
      (36028797018963967 / 2 : ℚ) < (18014398509481983 : ℕ) + 1 ∧
      ofMantissaInWords 18014398509481983 true (-1075) = .ok ⟨2 ^ 53, -1074, false⟩ ∧
      Kernel ⟨2 ^ 53, -1074, false⟩ (36028797018963967 / 2 * 2 ^ (-1075 : Int)) := by
  have hrounded : ofMantissa 18014398509481983 true (-1075) = ⟨2 ^ 53, -1074, false⟩ := by decide
  have hmore : ((18014398509481983 : ℕ) : ℚ) < 36028797018963967 / 2 := by norm_num
  have hless : (36028797018963967 / 2 : ℚ) < (18014398509481983 : ℕ) + 1 := by norm_num
  have hresult : ofMantissaInWords 18014398509481983 true (-1075) =
      .ok (ofMantissa 18014398509481983 true (-1075)) ∧
      (ofMantissa 18014398509481983 true (-1075)).Kernel (36028797018963967 / 2 * 2 ^ (-1075 : Int)) :=
    ofMantissaInWords_nearestMultiple (by decide) (by decide) (by decide) (by decide)
      (fun _ => by decide) (fun h => absurd h (by decide)) (fun _ => ⟨hmore, hless⟩)
  rw [hrounded] at hresult
  exact ⟨by decide, by decide, by decide, by decide, by decide, hmore, hless, hresult⟩

end Rounded

end NetKit
