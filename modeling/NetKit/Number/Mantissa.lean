import NetKit.Number.Basic
import NetKit.Number.Binary64

/-!
# Mantissas in text — whole and fraction digits, and what they are worth

A `Mantissa` is a run of digits with at most one point among or around them and at least one digit.
`Mantissa.accumulate` reads a hexadecimal one digit by digit into 60 bits: it keeps the first fifteen
significant digits and remembers as `sticky` whether a later one was nonzero. A decimal one is read
exactly.

## Contents
- `Mantissa`, `Mantissa.read?`: the digits before and after the point.
- `HexAccumulator`, `HexAccumulator.push`, `Mantissa.accumulate`: the digit loop of a hexadecimal
  mantissa. At every moment the digits read so far denote at least mantissa · 2^exponent and less
  than (mantissa + 1) · 2^exponent, and exactly the former unless `sticky`.
- `Mantissa.roundHex`, `Mantissa.roundDecimal`: the mantissa times a power of two or of ten,
  rounded.
-/

namespace NetKit

-- Powers are those of the core library, also where a theory of powers is imported.
attribute [local instance (high)] instPowNat

/-- The digits before the point and those after it. -/
structure Mantissa where
  whole : Text
  fraction : Text
  deriving DecidableEq, Repr

namespace Mantissa

/-- The longest mantissa at the start of `t`, and the text behind it. A point belongs to it if a digit is on
    either side. -/
def read? (radix : Nat) (t : Text) : Option (Mantissa × Text) :=
  match spanDigits radix t with
  | (whole, '.' :: tail) =>
    match spanDigits radix tail with
    | (fraction, rest) =>
      if whole.isEmpty && fraction.isEmpty then none else some (⟨whole, fraction⟩, rest)
  | (whole, rest) => if whole.isEmpty then none else some (⟨whole, []⟩, rest)

/-- All digits in order, without the point. -/
def digits (m : Mantissa) : Text := m.whole ++ m.fraction

end Mantissa

/-! ## Exponents -/

/-- The bound of `saturatedValue` and `clampExponent`, far beyond the exponents of the format. -/
def exponentLimit : Nat := 0x7fffffffffffffff

/-- `digitsValue 10`, saturated at `exponentLimit`. -/
def saturatedValue (ds : Text) : Nat :=
  ds.foldl (fun value c => min (value * 10 + digitValue c) exponentLimit) 0

/-- `e` confined to 64 bits. -/
def clampExponent (e : Int) : Int := max (-(exponentLimit : Int) - 1) (min e exponentLimit)

/-- The exponent behind `marker` in either case, and the text behind it. Without a digit nothing is taken,
    and the exponent is `0`. -/
def readExponent (marker : Char) (t : Text) : Int × Text :=
  match t with
  | [] => (0, [])
  | c :: tail =>
    if c.toLower = marker then
      let (negative, body) := takeSign tail
      match spanDigits 10 body with
      | ([], _) => (0, t)
      | (ds, rest) =>
        let magnitude : Int := saturatedValue ds
        (if negative then -magnitude else magnitude, rest)
    else (0, t)

/-! ## Hexadecimal mantissas -/

/-- How many significant hexadecimal digits fit into 60 bits. -/
def maxKeptDigits : Nat := 15

/-- The state of the digit loop: the kept digits as a number, their count, the exponent of the last kept
    bit, and whether a nonzero digit was dropped. -/
structure HexAccumulator where
  mantissa : Nat
  kept : Nat
  exponent : Int
  sticky : Bool
  deriving DecidableEq, Repr

namespace HexAccumulator

/-- The state before any digit. -/
def empty : HexAccumulator := ⟨0, 0, 0, false⟩

/-- One more digit, behind the point if `afterPoint`. Leading zeros are not significant and not counted. -/
def push (afterPoint : Bool) (a : HexAccumulator) (c : Char) : HexAccumulator :=
  let digit := digitValue c
  if a.kept < maxKeptDigits then
    { mantissa := a.mantissa * 16 + digit
      kept := if a.mantissa ≠ 0 ∨ digit ≠ 0 then a.kept + 1 else a.kept
      exponent := if afterPoint then a.exponent - 4 else a.exponent
      sticky := a.sticky }
  else
    { a with
      sticky := a.sticky || digit != 0
      exponent := if afterPoint then a.exponent else a.exponent + 4 }

end HexAccumulator

namespace Mantissa

/-- The state after all digits of `m`. -/
def accumulate (m : Mantissa) : HexAccumulator :=
  m.fraction.foldl (HexAccumulator.push true)
    (m.whole.foldl (HexAccumulator.push false) HexAccumulator.empty)

/-- `m` times `2 ^ exponent`, rounded. -/
def roundHex (m : Mantissa) (exponent : Int) : Rounded :=
  let a := m.accumulate
  Rounded.ofMantissa a.mantissa a.sticky (clampExponent (a.exponent + exponent))

/-! ## Decimal mantissas -/

/-- Some digit of `m` is not zero. -/
def isNonzero (m : Mantissa) : Bool := m.digits.any (· ≠ '0')

/-- The decimal exponent above which all numbers are infinite, and below whose negative all round to zero. -/
def decimalReach : Int := 400

/-- `m` times `10 ^ exponent`, rounded. With `n` significant digits, `f` of all digits behind the point, the
    number is below `10 ^ (n + exponent - f)` and not below a tenth of that, which decides far outside the
    range of the format. -/
def roundDecimal (m : Mantissa) (exponent : Int) : Rounded :=
  let digits := m.digits
  let scale : Int := exponent - m.fraction.length
  let reach : Int := (digits.dropWhile (· = '0')).length + scale
  if m.isNonzero = false then ⟨0, Binary64.minExponent, true⟩
  else if decimalReach < reach then Rounded.tooLarge
  else if reach < -decimalReach then ⟨0, Binary64.minExponent, false⟩
  else
    Rounded.ofQuotient (digitsValue 10 digits * 10 ^ scale.toNat) (10 ^ (-scale).toNat)

end Mantissa

end NetKit
