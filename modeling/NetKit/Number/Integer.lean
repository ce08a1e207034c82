import NetKit.Number.Basic

/-!
# Integers in text — sign, radix by prefix, and two word types

`IntegerLiteral.read?` reads an optional sign and digits whose prefix chooses the radix: `0x` or `0X`
before a hexadecimal digit means sixteen, any other leading zero eight, and all else ten. So `0x`
without a digit is an octal zero with an `x` left over, and `08` a zero with an `8` left over.

The magnitude is read without a bound, and each word type says what fits. `parseUInt64` negates modulo
`2 ^ 64`, so that `-1` is its largest number; `parseInt64` takes exactly `-2 ^ 63` to `2 ^ 63 - 1`. What
does not fit is out of range whatever follows it.

## Contents
- `radixOf`, `IntegerLiteral.read?`: the literal at the start of a text.
- `parseUInt64`, `parseInt64`: the strict readers.
-/

namespace NetKit

/-- An integer at the start of a text: its sign, its unbounded magnitude, and the text behind it. -/
structure IntegerLiteral where
  negative : Bool
  magnitude : Nat
  rest : Text
  deriving DecidableEq, Repr

/-- `t` starts with a digit of `radix`. -/
def startsWithDigit (radix : Nat) (t : Text) : Bool := t.head?.any (isDigit radix)

/-- The radix that the literal announces, and the text from its first digit on. -/
def radixOf : Text → Nat × Text
  | '0' :: x :: t =>
    if (x = 'x' || x = 'X') && startsWithDigit 16 t then (16, t) else (8, '0' :: x :: t)
  | ['0'] => (8, ['0'])
  | t => (10, t)

/-- The longest literal at the start of `t`, behind blanks and a sign. -/
def IntegerLiteral.read? (t : Text) : Option IntegerLiteral :=
  let (negative, unsigned) := takeSign (skipBlanks t)
  let (radix, body) := radixOf unsigned
  match spanDigits radix body with
  | ([], _) => none
  | (ds, rest) => some ⟨negative, digitsValue radix ds, rest⟩

/-- The magnitude with its sign. -/
def IntegerLiteral.value (l : IntegerLiteral) : Int :=
  if l.negative then -(l.magnitude : Int) else l.magnitude

/-- Reads a `UInt64`; a minus sign negates modulo `2 ^ 64`. -/
def parseUInt64 (t : Text) : Except NumberError UInt64 :=
  strictly t (IntegerLiteral.read? t) (fun l => UInt64.size ≤ l.magnitude) IntegerLiteral.rest
    fun l => UInt64.ofInt l.value

/-- Reads an `Int64`. -/
def parseInt64 (t : Text) : Except NumberError Int64 :=
  strictly t (IntegerLiteral.read? t)
    (fun l => l.value < Int64.minValue.toInt ∨ Int64.maxValue.toInt < l.value) IntegerLiteral.rest
    fun l => Int64.ofInt l.value

end NetKit
