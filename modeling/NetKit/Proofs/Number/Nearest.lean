import Mathlib.Algebra.Order.Field.Power
import Mathlib.Data.Rat.Cast.Order
import Mathlib.Tactic.Linarith
import Mathlib.Tactic.NormNum
import Mathlib.Tactic.Positivity
import Mathlib.Tactic.Ring
import NetKit.Number.Binary64

/-!
# Nearest — what it means that a binary64 value is the rounding of a rational number

The format numbers its magnitudes in ascending order. `Binary64.magnitude` is the rational number at a
place, read off the exponent field and the fraction field; infinity stands where the next power of two
would. With that, rounding to nearest needs no arithmetic to be stated: no place is nearer, and of two
places equally near the even one is taken (`Binary64.NearestEven`). This also is the rule by which
numbers overflow to infinity.

To find the nearest place it is enough to look at its neighbours, and the neighbours of a place that is
written as a significand on a grid are the neighbours on the grid, but for one corner: below a power of
two the grid is twice as fine. `nearestEven_of_grid` deals with that corner once, and with the places
above infinity.

## Contents
- `magnitude`, `gap`, `magnitude_grid`, `magnitude_strictMono`: the rational number at a place.
- `NearestEven`, `NearestEven.unique`: the nearest place.
- `nearestEven_of_neighbours`, `nearestEven_of_grid`: finding it.
- `nearestEven_infinityPlace`, `nearestEven_zero`: numbers far outside the range.
-/

namespace NetKit.Binary64

/-! ## Magnitudes -/

/-- The rational number at `place`, from its exponent field and its fraction field; 2^1024 at
    `infinityPlace`. -/
def magnitude (place : Nat) : ℚ :=
  if place / 2 ^ 52 = 0 then (place % 2 ^ 52 : ℕ) * 2 ^ (-1074 : ℤ)
  else (2 ^ 52 + place % 2 ^ 52 : ℕ) * 2 ^ ((place / 2 ^ 52 : ℕ) - 1075 : ℤ)

/-- The distance of two neighbours on the grid whose multiples are the places from `E` · 2^52 on. -/
def gap (E : Nat) : ℚ := 2 ^ ((E : ℤ) - 1074)

theorem gap_pos (E : Nat) : 0 < gap E := zpow_pos (by norm_num) _

theorem gap_succ (E : Nat) : gap (E + 1) = 2 * gap E := by
  unfold gap
  rw [← zpow_one_add₀ (by norm_num)]
  congr 1
  push_cast
  ring

/-- `magnitude` of a significand on a grid, which may have been carried to 2^53. -/
theorem magnitude_grid {E n : Nat} (hn : n ≤ 2 ^ 53) (hnormal : E = 0 ∨ 2 ^ 52 ≤ n) :
    magnitude (E * 2 ^ 52 + n) = n * gap E := by
  unfold magnitude gap
  rcases Nat.lt_or_ge n (2 ^ 52) with hlow | hhigh
  · -- subnormal: the exponent field is zero
    have hE : E = 0 := by omega
    subst hE
    rw [if_pos (by omega)]
    congr 2
    omega
  · rcases Nat.lt_or_ge n (2 ^ 53) with hlt | hge
    · have hfield : (E * 2 ^ 52 + n) / 2 ^ 52 = E + 1 := by omega
      have hfraction : 2 ^ 52 + (E * 2 ^ 52 + n) % 2 ^ 52 = n := by omega
      rw [if_neg (by omega), hfield, hfraction]
      congr 2
      push_cast
      ring
    · -- the carry: the fraction is zero, and the exponent field is one more than otherwise
      have hn : n = 2 * 2 ^ 52 := by omega
      have hfield : (E * 2 ^ 52 + n) / 2 ^ 52 = E + 2 := by omega
      have hfraction : 2 ^ 52 + (E * 2 ^ 52 + n) % 2 ^ 52 = 2 ^ 52 := by omega
      have hpower : (2 : ℚ) ^ (((E + 2 : ℕ) : ℤ) - 1075) = 2 * 2 ^ ((E : ℤ) - 1074) := by
        rw [← zpow_one_add₀ (by norm_num)]
        congr 1
        push_cast
        ring
      rw [if_neg (by omega), hfield, hfraction, hpower, hn]
      push_cast
      ring

/-- Every place is a significand on a grid. -/
theorem exists_grid (place : Nat) :
    ∃ E n, place = E * 2 ^ 52 + n ∧ n < 2 ^ 53 ∧ (E = 0 ∨ 2 ^ 52 ≤ n) :=
  ⟨place / 2 ^ 52 - 1, place - (place / 2 ^ 52 - 1) * 2 ^ 52, by omega, by omega, by omega⟩

/-- Neighbours differ by a `gap`. -/
theorem magnitude_succ {E n : Nat} (hn : n < 2 ^ 53) (hnormal : E = 0 ∨ 2 ^ 52 ≤ n) :
    magnitude (E * 2 ^ 52 + n + 1) = magnitude (E * 2 ^ 52 + n) + gap E := by
  rw [Nat.add_assoc, magnitude_grid hn (by omega), magnitude_grid (Nat.le_of_lt hn) hnormal]
  push_cast
  ring

/-- **`magnitude` is strictly monotone.** -/
theorem magnitude_strictMono : StrictMono magnitude := by
  apply strictMono_nat_of_lt_succ
  intro place
  obtain ⟨E, n, rfl, hn, hnormal⟩ := exists_grid place
  rw [magnitude_succ hn hnormal]
  exact lt_add_of_pos_right _ (gap_pos E)

@[simp] theorem magnitude_zero : magnitude 0 = 0 := by
  have h := magnitude_grid (E := 0) (n := 0) (by decide) (.inl rfl)
  simpa using h

theorem two_pow_mul_gap (E : Nat) : (2 ^ 52 : ℕ) * gap E = 2 ^ ((E : ℤ) - 1022) := by
  unfold gap
  rw [Nat.cast_pow, Nat.cast_ofNat, ← zpow_natCast, ← zpow_add₀ (by norm_num)]
  congr 1
  push_cast
  ring

theorem minNormalPlace_eq : minNormalPlace = 2 ^ 52 := by decide

theorem magnitude_infinityPlace : magnitude infinityPlace = 2 ^ (1024 : ℤ) := by
  have hplace : infinityPlace = 2046 * 2 ^ 52 + 2 ^ 52 := by decide
  rw [hplace, magnitude_grid (by decide) (.inr (Nat.le_refl _)), two_pow_mul_gap]
  rfl

theorem magnitude_minNormalPlace : magnitude minNormalPlace = 2 ^ (-1022 : ℤ) := by
  have hplace : minNormalPlace = 0 * 2 ^ 52 + 2 ^ 52 := by decide
  rw [hplace, magnitude_grid (by decide) (.inl rfl), two_pow_mul_gap]
  rfl

/-! ## The nearest place -/

/-- `place` is the rounding of `q`: no place up to `infinityPlace` is nearer, and one that is equally near
    is passed over for an even one only. -/
structure NearestEven (q : ℚ) (place : Nat) : Prop where
  le : place ≤ infinityPlace
  nearest : ∀ other ≤ infinityPlace, |q - magnitude place| ≤ |q - magnitude other|
  even : ∀ other ≤ infinityPlace, other ≠ place →
    |q - magnitude other| = |q - magnitude place| → place % 2 = 0

/-- Of two places that are equally near, one is below `q` and one above. -/
theorem magnitude_add_of_equidistant {q : ℚ} {p p' : Nat} (hlt : p < p')
    (hequal : |q - magnitude p| = |q - magnitude p'|) : magnitude p + magnitude p' = 2 * q := by
  have hmono := magnitude_strictMono hlt
  rcases abs_eq_abs.mp hequal with h | h
  · exact absurd h (by linarith)
  · linarith

/-- **`NearestEven` determines the place.** Between two even places lies an odd one, and that would be
    nearer than both. -/
theorem NearestEven.unique {q : ℚ} {p p' : Nat} (h : NearestEven q p) (h' : NearestEven q p') :
    p = p' := by
  wlog hlt : p < p' generalizing p p' with hsymm
  · by_contra hne
    exact hne (hsymm h' h (by omega)).symm
  exfalso
  have hequal := le_antisymm (h.nearest p' h'.le) (h'.nearest p h.le)
  have heven := h.even p' h'.le (by omega) hequal.symm
  have heven' := h'.even p h.le (by omega) hequal
  have hsum := magnitude_add_of_equidistant hlt hequal
  -- the two are even and different, so that `p + 1` is strictly between them
  have hbelow : magnitude p < magnitude (p + 1) := magnitude_strictMono (by omega)
  have habove : magnitude (p + 1) < magnitude p' := magnitude_strictMono (by omega)
  have hnearest := h.nearest (p + 1) (by have := h'.le; omega)
  rw [abs_of_nonneg (by linarith : 0 ≤ q - magnitude p)] at hnearest
  rcases abs_cases (q - magnitude (p + 1)) with ⟨heq, -⟩ | ⟨heq, -⟩ <;> linarith

/-- `q` is not nearer to the place before than to `place`. -/
def AboveMiddle (q : ℚ) (place : Nat) : Prop :=
  ∀ before, before + 1 = place → magnitude before + magnitude place ≤ 2 * q ∧
    (magnitude before + magnitude place = 2 * q → place % 2 = 0)

/-- `q` is not nearer to the place after than to `place`. -/
def BelowMiddle (q : ℚ) (place : Nat) : Prop :=
  2 * q ≤ magnitude place + magnitude (place + 1) ∧
    (2 * q = magnitude place + magnitude (place + 1) → place % 2 = 0)

theorem AboveMiddle.le_before {q : ℚ} {place other : Nat} (h : AboveMiddle q place)
    (hlt : other < place) :
    magnitude other + magnitude place ≤ 2 * q ∧
      (magnitude other + magnitude place = 2 * q → place % 2 = 0) := by
  obtain ⟨hle, heven⟩ := h (place - 1) (by omega)
  have hmono : magnitude other ≤ magnitude (place - 1) :=
    magnitude_strictMono.monotone (by omega)
  refine ⟨by linarith, ?_⟩
  intro heq
  exact heven (by linarith)

theorem BelowMiddle.le_after {q : ℚ} {place other : Nat} (h : BelowMiddle q place)
    (hlt : place < other) :
    2 * q ≤ magnitude place + magnitude other ∧
      (2 * q = magnitude place + magnitude other → place % 2 = 0) := by
  obtain ⟨hle, heven⟩ := h
  have hmono : magnitude (place + 1) ≤ magnitude other :=
    magnitude_strictMono.monotone (by omega)
  refine ⟨by linarith, ?_⟩
  intro heq
  exact heven (by linarith)

/-- `NearestEven` follows from the comparison with the two neighbours. -/
theorem nearestEven_of_neighbours {q : ℚ} {place : Nat} (hle : place ≤ infinityPlace)
    (habove : AboveMiddle q place) (hbelow : place < infinityPlace → BelowMiddle q place) :
    NearestEven q place where
  le := hle
  nearest other hother := by
    rcases Nat.lt_trichotomy other place with hlt | rfl | hgt
    · have hmono := magnitude_strictMono hlt
      have hmiddle := (habove.le_before hlt).1
      rw [abs_of_nonneg (by linarith : 0 ≤ q - magnitude other)]
      exact abs_le.mpr ⟨by linarith, by linarith⟩
    · exact le_refl _
    · have hmono := magnitude_strictMono hgt
      have hmiddle := ((hbelow (by omega)).le_after hgt).1
      rw [abs_of_nonpos (by linarith : q - magnitude other ≤ 0)]
      exact abs_le.mpr ⟨by linarith, by linarith⟩
  even other hother hne hequal := by
    rcases Nat.lt_or_gt_of_ne hne with hlt | hgt
    · exact (habove.le_before hlt).2 (magnitude_add_of_equidistant hlt hequal)
    · exact ((hbelow (by omega)).le_after hgt).2
        (magnitude_add_of_equidistant hgt hequal.symm).symm

/-! ## Finding the nearest place -/

theorem magnitude_maxFinite : magnitude (infinityPlace - 1) + gap 2045 = magnitude infinityPlace :=
  (magnitude_succ (E := 2045) (n := 2 ^ 53 - 1) (by decide) (.inr (by decide))).symm

/-- `magnitude place` is rounded to `place`. -/
theorem nearestEven_magnitude {place : Nat} (hle : place ≤ infinityPlace) :
    NearestEven (magnitude place) place where
  le := hle
  nearest other _ := by rw [sub_self, abs_zero]; exact abs_nonneg _
  even other _ hne hequal := by
    rw [sub_self, abs_zero, abs_eq_zero, sub_eq_zero] at hequal
    exact absurd (magnitude_strictMono.injective hequal).symm hne

/-- **The rounding is infinite from the middle on** between the largest finite number and 2^1024. -/
theorem nearestEven_infinityPlace_iff {q : ℚ} :
    NearestEven q infinityPlace ↔ 2 ^ (1024 : ℤ) - 2 ^ (970 : ℤ) ≤ q := by
  have hfinite := magnitude_maxFinite
  have hgap : gap 2045 = 2 * 2 ^ (970 : ℤ) := gap_succ 2044
  have hpos : (0 : ℚ) < 2 ^ (970 : ℤ) := zpow_pos (by norm_num) _
  rw [hgap] at hfinite
  rw [← magnitude_infinityPlace]
  generalize (2 : ℚ) ^ (970 : ℤ) = half at hfinite hpos ⊢
  constructor
  · intro h
    by_contra hlt
    have hnearest := h.nearest (infinityPlace - 1) (Nat.sub_le _ _)
    rw [abs_of_neg (by linarith)] at hnearest
    rcases abs_cases (q - magnitude (infinityPlace - 1)) with ⟨heq, -⟩ | ⟨heq, -⟩ <;> linarith
  · intro hq
    refine nearestEven_of_neighbours (Nat.le_refl _) ?_ (fun h => absurd h (Nat.lt_irrefl _))
    intro before hbefore
    have hplace : before = infinityPlace - 1 := by omega
    rw [hplace]
    exact ⟨by linarith, fun _ => by decide⟩

theorem nearestEven_infinityPlace {q : ℚ} (hq : magnitude infinityPlace ≤ q) :
    NearestEven q infinityPlace := by
  have hpos : (0 : ℚ) < 2 ^ (970 : ℤ) := zpow_pos (by norm_num) _
  rw [nearestEven_infinityPlace_iff, ← magnitude_infinityPlace]
  generalize (2 : ℚ) ^ (970 : ℤ) = half at hpos ⊢
  linarith

/-- Up to half of `gap 0` the rounding is zero. -/
theorem nearestEven_zero {q : ℚ} (hq : 2 * q ≤ gap 0) : NearestEven q 0 := by
  have hsucc : magnitude (0 + 1) = magnitude 0 + gap 0 :=
    magnitude_succ (E := 0) (n := 0) (by decide) (.inl rfl)
  refine nearestEven_of_neighbours (Nat.zero_le _) ?_ (fun _ => ?_)
  · intro before hbefore
    exact absurd hbefore (Nat.succ_ne_zero _)
  · refine ⟨?_, fun _ => rfl⟩
    rw [hsucc, magnitude_zero]
    linarith

/-- `n` is the rounding of `q` to the multiples of `gap E`, ties going to even. If the grid has finer
    neighbours below, `q` is not below the grid. -/
structure RoundsOnGrid (q : ℚ) (E n : Nat) : Prop where
  le : n ≤ 2 ^ 53
  normal : E = 0 ∨ 2 ^ 52 ≤ n ∧ (2 ^ 52 : ℕ) * gap E ≤ q
  half : 2 * |q - n * gap E| ≤ gap E
  tie : 2 * |q - n * gap E| = gap E → n % 2 = 0

namespace RoundsOnGrid

variable {q : ℚ} {E n : Nat}

theorem magnitude_eq (h : RoundsOnGrid q E n) : magnitude (E * 2 ^ 52 + n) = n * gap E :=
  magnitude_grid h.le (h.normal.imp_right And.left)

/-- The next place is a `gap` away, or two if the significand was carried to 2^53. -/
theorem add_gap_le (h : RoundsOnGrid q E n) :
    magnitude (E * 2 ^ 52 + n) + gap E ≤ magnitude (E * 2 ^ 52 + n + 1) := by
  rcases Nat.lt_or_ge n (2 ^ 53) with hlt | hge
  · exact le_of_eq (magnitude_succ hlt (h.normal.imp_right And.left)).symm
  · have hcarry : E * 2 ^ 52 + n = (E + 1) * 2 ^ 52 + 2 ^ 52 := by have := h.le; omega
    have hpos := gap_pos E
    rw [hcarry, magnitude_succ (by decide) (.inr (Nat.le_refl _)), gap_succ]
    linarith

theorem belowMiddle (h : RoundsOnGrid q E n) : BelowMiddle q (E * 2 ^ 52 + n) := by
  have hafter := h.add_gap_le
  have hhalf := h.half
  have hself := le_abs_self (q - n * gap E)
  rw [h.magnitude_eq] at hafter
  refine ⟨by rw [h.magnitude_eq]; linarith, ?_⟩
  intro hmiddle
  rw [h.magnitude_eq] at hmiddle
  have hn := h.tie (by linarith)
  omega

theorem aboveMiddle (h : RoundsOnGrid q E n) : AboveMiddle q (E * 2 ^ 52 + n) := by
  intro before hbefore
  have hnormal := h.normal
  by_cases hcorner : E ≠ 0 ∧ n = 2 ^ 52
  · -- below the power of two the neighbour is half a gap away, but the number is not below it
    obtain ⟨hE, rfl⟩ := hcorner
    have hplace : before = (E - 1) * 2 ^ 52 + (2 ^ 53 - 1) := by omega
    have hsucc := magnitude_succ (E := E - 1) (n := 2 ^ 53 - 1) (by decide) (.inr (by decide))
    have hpos := gap_pos (E - 1)
    rw [← hplace, hbefore, h.magnitude_eq] at hsucc
    have hq := (hnormal.resolve_left hE).2
    rw [h.magnitude_eq]
    refine ⟨by linarith, ?_⟩
    intro hmiddle
    exact absurd hmiddle (by linarith)
  · have hle := h.le
    have hplace : before = E * 2 ^ 52 + (n - 1) := by omega
    have hsucc := magnitude_succ (E := E) (n := n - 1) (by omega) (by omega)
    have hhalf := h.half
    have hself := neg_abs_le (q - n * gap E)
    rw [← hplace, hbefore, h.magnitude_eq] at hsucc
    rw [h.magnitude_eq]
    refine ⟨by linarith, ?_⟩
    intro hmiddle
    have hn := h.tie (by linarith)
    omega

end RoundsOnGrid

/-- **`RoundsOnGrid` is rounding in the format**, with `infinityPlace` for all above it. -/
theorem nearestEven_of_grid {q : ℚ} {E n : Nat} (h : RoundsOnGrid q E n) :
    NearestEven q (min (E * 2 ^ 52 + n) infinityPlace) := by
  rcases Nat.lt_or_ge infinityPlace (E * 2 ^ 52 + n) with hgt | hle
  · -- the place is above infinity's, and the number is above the middle before the place
    rw [Nat.min_eq_right (Nat.le_of_lt hgt)]
    have hmiddle := (h.aboveMiddle (E * 2 ^ 52 + n - 1) (by omega)).1
    have hbefore : magnitude infinityPlace ≤ magnitude (E * 2 ^ 52 + n - 1) :=
      magnitude_strictMono.monotone (by omega)
    have hplace : magnitude infinityPlace ≤ magnitude (E * 2 ^ 52 + n) :=
      magnitude_strictMono.monotone (by omega)
    exact nearestEven_infinityPlace (by linarith)
  · rw [Nat.min_eq_left hle]
    exact nearestEven_of_neighbours hle h.aboveMiddle (fun _ => h.belowMiddle)

end NetKit.Binary64
