/-!
# Binary64 — the numbers of the format, and rounding to the nearest of them

A `Binary64` has a sign and a `place`, 63 bits that number the non-negative values in ascending order:
zero is 0, the smallest subnormal is 1, the smallest normal number is 2^52 (`minNormalPlace`), and
infinity is 2047 · 2^52 (`infinityPlace`). By `placeOf`, a value significand · 2^exponent whose
significand fills 53 bits, or whose exponent is `minExponent`, has the place
(exponent + 1074) · 2^52 + significand, also when rounding has carried the significand to 2^53.

Rounding works on the multiples of 2^exponent, where the exponent leaves `precision` bits but is never
below `minExponent`. `Rounded.ofMantissa` rounds a binary mantissa with a remark that some nonzero
fraction follows it, and `Rounded.ofQuotient` a quotient of natural numbers.

## Contents
- **The format.** `Binary64`, its bits, its classes, and its negation.
- **Placing a value.** `Binary64.placeOf`, the number of significand · 2^exponent in the format.
- **Rounding.** `roundHalfEven`, `Rounded.ofMantissa` and `Rounded.ofQuotient`.
-/

namespace NetKit

-- Powers are those of the core library, also where a theory of powers is imported.
attribute [local instance (high)] instPowNat

/-! ## The format -/

/-- A sign, and the `place` of the magnitude in the ascending numbering of the format; above `infinityPlace`
    are the values that are not numbers. -/
structure Binary64 where
  negative : Bool
  place : Nat
  place_lt : place < 0x8000000000000000 := by decide
  deriving DecidableEq, Repr

namespace Binary64

/-- The exponent of the smallest subnormal number. -/
def minExponent : Int := -1074

/-- The significant bits of a normal number. -/
def precision : Nat := 53

/-- The place of `2 ^ (-1022)`, the smallest normal number. -/
def minNormalPlace : Nat := 0x10000000000000

/-- The place above all finite ones. -/
def infinityPlace : Nat := 0x7ff0000000000000

/-- Positive infinity. -/
def infinity : Binary64 := ⟨false, infinityPlace, by decide⟩

/-- The quiet value that is no number. -/
def nan : Binary64 := ⟨false, infinityPlace + 0x8000000000000, by decide⟩

/-- `x` is above `infinityPlace`. -/
def isNaN (x : Binary64) : Bool := infinityPlace < x.place

/-- `x` with its sign reversed. -/
def neg (x : Binary64) : Binary64 := { x with negative := !x.negative }

/-- `x.neg` if `negative`, else `x`. -/
def withSign (negative : Bool) (x : Binary64) : Binary64 := if negative then x.neg else x

/-- The encoding in 64 bits, the sign first. -/
def bits (x : Binary64) : UInt64 :=
  UInt64.ofNat ((if x.negative then 0x8000000000000000 else 0) + x.place)

/-! ## Placing a value in the format -/

/-- The length of `n` in binary; `0` has none. -/
def bitLength (n : Nat) : Nat := if n = 0 then 0 else n.log2 + 1

/-- The place of `significand` · 2^`exponent`, for at most 53 significant bits (or 2^53 itself) and an
    exponent of at least `minExponent`; `infinityPlace` for what is too large. -/
def placeOf (significand : Nat) (exponent : Int) : Nat :=
  if significand = 0 then 0
  else
    let room := min (precision - bitLength significand) (exponent - minExponent).toNat
    min ((exponent - minExponent - room).toNat * minNormalPlace + significand * 2 ^ room) infinityPlace

theorem placeOf_le (significand : Nat) (exponent : Int) :
    placeOf significand exponent ≤ infinityPlace := by
  unfold placeOf
  split
  · exact Nat.zero_le _
  · exact Nat.min_le_right _ _

/-- The value at `placeOf significand exponent`. -/
def ofScaled (significand : Nat) (exponent : Int) : Binary64 :=
  ⟨false, placeOf significand exponent,
    Nat.lt_of_le_of_lt (placeOf_le significand exponent) (by decide)⟩

end Binary64

/-! ## Rounding -/

/-- The natural number nearest to `n / d`, the even one of two equally near. -/
def roundHalfEven (n d : Nat) : Nat :=
  let q := n / d
  let twice := 2 * (n % d)
  if d < twice ∨ (twice = d ∧ q % 2 = 1) then q + 1 else q

/-- `roundHalfEven` is the floor or the number after it. -/
theorem roundHalfEven_cases (n d : Nat) :
    roundHalfEven n d = n / d ∨ roundHalfEven n d = n / d + 1 := by
  unfold roundHalfEven
  dsimp only
  split
  · exact Or.inr rfl
  · exact Or.inl rfl

/-- `roundHalfEven` is off by at most half a unit. -/
theorem roundHalfEven_error (n d : Nat) (h : 0 < d) :
    2 * n ≤ 2 * (d * roundHalfEven n d) + d ∧ 2 * (d * roundHalfEven n d) ≤ 2 * n + d := by
  have parts : d * (n / d) + n % d = n := Nat.div_add_mod n d
  have small : n % d < d := Nat.mod_lt n h
  unfold roundHalfEven
  dsimp only
  split
  · next up =>
    rw [Nat.mul_succ]
    omega
  · next down =>
    omega

/-- Ties go to even numbers. -/
theorem roundHalfEven_tie (n d : Nat) (tie : 2 * (n % d) = d) : roundHalfEven n d % 2 = 0 := by
  unfold roundHalfEven
  dsimp only
  split
  · next up => omega
  · next down => omega

/-- The outcome of a rounding: `significand` · 2^`exponent`, and whether it is exact. -/
structure Rounded where
  significand : Nat
  exponent : Int
  exact : Bool
  deriving DecidableEq, Repr

namespace Rounded

open Binary64

/-- How many low bits of `mantissa` are lost: enough to leave `precision`, and enough that the lowest kept
    bit is worth at least 2^`minExponent`. None if zero or less. -/
def dropCount (mantissa : Nat) (exponent : Int) : Int :=
  max ((bitLength mantissa : Int) - precision) (minExponent - exponent)

/-- Rounds (`mantissa` + ε) · 2^`exponent`, where ε is zero, or some fraction strictly between zero and one
    if `sticky`; a sticky mantissa has more than 53 bits. -/
def ofMantissa (mantissa : Nat) (sticky : Bool) (exponent : Int) : Rounded :=
  let drop := dropCount mantissa exponent
  if mantissa = 0 then ⟨0, minExponent, true⟩
  else if drop ≤ 0 then ⟨mantissa, exponent, !sticky⟩
  else if (bitLength mantissa : Int) < drop then ⟨0, exponent + drop, false⟩
  else
    let kept := mantissa >>> drop.toNat
    let remainder := mantissa % 2 ^ drop.toNat
    let half := 2 ^ (drop.toNat - 1)
    let up := half < remainder || (remainder == half && (sticky || kept % 2 == 1))
    ⟨kept + up.toNat, exponent + drop, remainder == 0 && !sticky⟩

/-- The floor of the binary logarithm of `num / den`, both positive. -/
def floorLog2 (num den : Nat) : Int :=
  let k : Int := (num.log2 : Int) - den.log2
  if den * 2 ^ k.toNat ≤ num * 2 ^ (-k).toNat then k else k - 1

/-- Rounds the quotient `num / den`, with `den` positive. -/
def ofQuotient (num den : Nat) : Rounded :=
  if num = 0 then ⟨0, minExponent, true⟩
  else
    let exponent := max (floorLog2 num den - (precision - 1)) minExponent
    let n := num * 2 ^ (-exponent).toNat
    let d := den * 2 ^ exponent.toNat
    ⟨roundHalfEven n d, exponent, n % d == 0⟩

/-- 2^1024, which has `infinityPlace`. -/
def tooLarge : Rounded := ⟨1, 1024, true⟩

/-- The value of `r` in the format. -/
def value (r : Rounded) : Binary64 := ofScaled r.significand r.exponent

/-- `r.value` is infinite. -/
def overflows (r : Rounded) : Bool := r.value.place == infinityPlace

/-- `r.value` is zero or subnormal. -/
def isBelowNormal (r : Rounded) : Bool := r.value.place < minNormalPlace

end Rounded

end NetKit
