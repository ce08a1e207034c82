import NetKit.Text

/-!
# Digits — characters that stand for a number, and the number a run of them denotes

`digitValue?` serves every radix up to sixteen. Numbers are written with `Nat.toDigits`, whose digits
above nine are the lower-case letters.

## Contents
- `digitValue?`, `isDigit`: the value of a digit, and the digits of a radix.
- `digitsValue`: the number that a run of digits denotes, most significant digit first.
- `spanDigits`: the longest run of digits that a text starts with, and what follows it.
-/

namespace NetKit

/-- The value of a digit, with `a` and `A` as ten. -/
def digitValue? (c : Char) : Option Nat :=
  if '0' ≤ c ∧ c ≤ '9' then some (c.toNat - '0'.toNat)
  else if 'a' ≤ c ∧ c ≤ 'f' then some (c.toNat - 'a'.toNat + 10)
  else if 'A' ≤ c ∧ c ≤ 'F' then some (c.toNat - 'A'.toNat + 10)
  else none

/-- `c` is a digit below `radix`. -/
def isDigit (radix : Nat) (c : Char) : Bool := (digitValue? c).any (· < radix)

/-- `digitValue?` with default `0`. -/
def digitValue (c : Char) : Nat := (digitValue? c).getD 0

/-- The number that `ds` denotes, most significant digit first. -/
def digitsValue (radix : Nat) (ds : Text) : Nat :=
  ds.foldl (fun value c => value * radix + digitValue c) 0

/-- The longest leading run of `isDigit radix`, and the rest of `t`. -/
def spanDigits (radix : Nat) (t : Text) : Text × Text :=
  (t.takeWhile (isDigit radix), t.dropWhile (isDigit radix))

theorem digitValue_lt {radix : Nat} {c : Char} (h : isDigit radix c = true) :
    digitValue c < radix := by
  unfold isDigit at h
  unfold digitValue
  cases hv : digitValue? c with
  | none => simp [hv] at h
  | some v => simpa [hv] using h

@[simp] theorem digitsValue_nil (radix : Nat) : digitsValue radix [] = 0 := rfl

/-- One more digit multiplies by `radix` and adds its `digitValue`. -/
theorem digitsValue_append_one (radix : Nat) (ds : Text) (c : Char) :
    digitsValue radix (ds ++ [c]) = digitsValue radix ds * radix + digitValue c := by
  simp [digitsValue]

/-- `spanDigits` loses no character. -/
theorem spanDigits_append (radix : Nat) (t : Text) :
    (spanDigits radix t).1 ++ (spanDigits radix t).2 = t :=
  List.takeWhile_append_dropWhile

/-- `spanDigits` takes nothing but digits. -/
theorem isDigit_of_mem_spanDigits {radix : Nat} {t : Text} {c : Char}
    (h : c ∈ (spanDigits radix t).1) : isDigit radix c = true :=
  List.all_eq_true.1 List.all_takeWhile c h

end NetKit
