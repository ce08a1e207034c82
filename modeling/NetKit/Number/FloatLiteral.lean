import NetKit.Number.Mantissa

/-!
# Floating-point numbers in text — words, hexadecimal and decimal forms

`FloatForm.read?` takes the longest leading part that is of one of three forms: a word (`infinity`,
`inf`, or `nan` with an optional parenthesised tag, in any case), a hexadecimal mantissa after `0x`
with an optional exponent of two after `p`, or a decimal mantissa with an optional exponent of ten
after `e`. What does not continue a form properly is left over: an exponent without digits, an
unclosed tag, an `x` without a digit.

Rounding is to nearest, half to even. By `FloatForm.isOutOfRange` a number is out of range if its
rounding is infinite, or if it is too close to zero: a decimal one when it is not zero and its rounding
is below every normal number, a hexadecimal one when its rounding is below every normal number and not
exact. Words are exempt.

## Contents
- `FloatForm`, `FloatLiteral`, `FloatLiteral.read?`: the literal at the start of a text.
- `FloatForm.value`, `FloatForm.isOutOfRange`: what it denotes, and whether that fits.
- `parseBinary64`: the strict reader.
-/

namespace NetKit

/-- What a literal can be, apart from its sign. -/
inductive FloatForm where
  /-- The word `infinity` or `inf`. -/
  | infinity
  /-- The word `nan`, whatever its tag. -/
  | nan
  /-- `mantissa` times `2 ^ exponent`, in hexadecimal digits. -/
  | hex (mantissa : Mantissa) (exponent : Int)
  /-- `mantissa` times `10 ^ exponent`, in decimal digits. -/
  | decimal (mantissa : Mantissa) (exponent : Int)
  deriving DecidableEq, Repr

/-- A floating-point number at the start of a text: its sign, its form, and the text behind it. -/
structure FloatLiteral where
  negative : Bool
  form : FloatForm
  rest : Text
  deriving DecidableEq, Repr

/-! ## Reading the forms -/

/-- The text behind `word`, which is lower-case and matches either case of ASCII. -/
def stripWord? : Text → Text → Option Text
  | [], t => some t
  | _ :: _, [] => none
  | w :: word, c :: t => if c.toLower = w then stripWord? word t else none

/-- `c` may stand in the tag of a `nan`. -/
def isTagChar (c : Char) : Bool := c.isAlphanum || c = '_'

/-- The text behind a parenthesised tag, or `t` itself if it starts with none. -/
def skipTag (t : Text) : Text :=
  match t with
  | '(' :: tail =>
    match tail.dropWhile isTagChar with
    | ')' :: rest => rest
    | _ => t
  | _ => t

/-- The longest word at the start of `t`, and the text behind it. -/
def readWord? (t : Text) : Option (FloatForm × Text) :=
  match stripWord? "infinity".toList t, stripWord? "inf".toList t, stripWord? "nan".toList t with
  | some rest, _, _ => some (.infinity, rest)
  | none, some rest, _ => some (.infinity, rest)
  | none, none, some rest => some (.nan, skipTag rest)
  | none, none, none => none

/-- The hexadecimal form at the start of a text, and the text behind it. -/
def readHex? : Text → Option (FloatForm × Text)
  | '0' :: x :: t =>
    if x = 'x' || x = 'X' then
      (Mantissa.read? 16 t).map fun (mantissa, tail) =>
        let (exponent, rest) := readExponent 'p' tail
        (.hex mantissa exponent, rest)
    else none
  | _ => none

/-- The decimal form at the start of `t`, and the text behind it. -/
def readDecimal? (t : Text) : Option (FloatForm × Text) :=
  (Mantissa.read? 10 t).map fun (mantissa, tail) =>
    let (exponent, rest) := readExponent 'e' tail
    (.decimal mantissa exponent, rest)

/-- `readWord?`, then `readHex?`, then `readDecimal?`. -/
def FloatForm.read? (t : Text) : Option (FloatForm × Text) :=
  (readWord? t).or ((readHex? t).or (readDecimal? t))

/-- The longest literal at the start of `t`, behind blanks and a sign. -/
def FloatLiteral.read? (t : Text) : Option FloatLiteral :=
  let (negative, unsigned) := takeSign (skipBlanks t)
  (FloatForm.read? unsigned).map fun (form, rest) => ⟨negative, form, rest⟩

/-! ## Values and range -/

namespace FloatForm

/-- The rounded value, without the sign. -/
def value : FloatForm → Binary64
  | .infinity => Binary64.infinity
  | .nan => Binary64.nan
  | .hex mantissa exponent => (mantissa.roundHex exponent).value
  | .decimal mantissa exponent => (mantissa.roundDecimal exponent).value

/-- The value does not fit: the rounding is infinite, or below `minNormalPlace` and not exact (`hex`) or not
    of zero (`decimal`). -/
def isOutOfRange : FloatForm → Bool
  | .infinity => false
  | .nan => false
  | .hex mantissa exponent =>
    let r := mantissa.roundHex exponent
    r.overflows || (!r.exact && r.isBelowNormal)
  | .decimal mantissa exponent =>
    let r := mantissa.roundDecimal exponent
    r.overflows || (mantissa.isNonzero && r.isBelowNormal)

end FloatForm

/-- `form.value` with the sign. -/
def FloatLiteral.value (l : FloatLiteral) : Binary64 := l.form.value.withSign l.negative

/-- Reads a `Binary64`. -/
def parseBinary64 (t : Text) : Except NumberError Binary64 :=
  strictly t (FloatLiteral.read? t) (fun l => l.form.isOutOfRange) FloatLiteral.rest FloatLiteral.value

end NetKit
