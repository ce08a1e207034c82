import NetKit.Bytes
import NetKit.Text

/-!
# Escaped text — untrusted text inside a message, on one line of printable ASCII

A message quotes a `Text` byte by byte. `escapeByte` has a letter after a backslash for seven control
characters, the backslash and the two quotes, leaves printable ASCII alone, and writes all else as
`\xNN` with two lower-case hexadecimal digits. `unescape?` knows that table only, and finds the closing
quote by itself.

## Contents
- `escapeByte`, `escape`: the table, and its application to the bytes of a text.
- `quoted`: an escaped text between double quotes.
- `unescapeLetter?`, `unescape?`: reading one escaped letter, and a quoted text up to its closing quote.
-/

namespace NetKit

/-- The letter behind the backslash, for the bytes that have one. -/
def escapeLetter? (b : UInt8) : Option Char :=
  match b with
  | 0x07 => some 'a'
  | 0x08 => some 'b'
  | 0x0c => some 'f'
  | 0x0a => some 'n'
  | 0x0d => some 'r'
  | 0x09 => some 't'
  | 0x0b => some 'v'
  | 0x5c => some '\\'
  | 0x27 => some '\''
  | 0x22 => some '"'
  | _ => none

/-- Printable ASCII, with the space. -/
def isPrintable (b : UInt8) : Bool := 0x20 ≤ b && b ≤ 0x7e

/-- The escape of one byte: by `escapeLetter?`, as itself, or as `\xNN`. -/
def escapeByte (b : UInt8) : Text :=
  match escapeLetter? b with
  | some letter => ['\\', letter]
  | none => if isPrintable b then [Char.ofNat b.toNat] else '\\' :: 'x' :: hexPair b

/-- `escapeByte` on every byte. -/
def escapeBytes (bs : List UInt8) : Text := bs.flatMap escapeByte

/-- `escapeBytes` on the UTF-8 of `t`. -/
def escape (t : Text) : Text := escapeBytes t.utf8

/-- `escape t` between double quotes. -/
def quoted (t : Text) : Text := '"' :: escape t ++ ['"']

@[simp] theorem escapeBytes_append (bs cs : List UInt8) :
    escapeBytes (bs ++ cs) = escapeBytes bs ++ escapeBytes cs := by
  simp [escapeBytes]

/-- `escape` is a homomorphism for `++`. -/
@[simp] theorem escape_append (t u : Text) : escape (t ++ u) = escape t ++ escape u := by
  simp [escape]

/-! ## Reading escaped text -/

/-- The value of a lower-case hexadecimal digit; upper case is refused. -/
def hexDigit? (c : Char) : Option Nat :=
  if '0' ≤ c ∧ c ≤ '9' then some (c.toNat - '0'.toNat)
  else if 'a' ≤ c ∧ c ≤ 'f' then some (c.toNat - 'a'.toNat + 10)
  else none

/-- The inverse of `escapeLetter?`. -/
def unescapeLetter? (c : Char) : Option UInt8 :=
  match c with
  | 'a' => some 0x07
  | 'b' => some 0x08
  | 'f' => some 0x0c
  | 'n' => some 0x0a
  | 'r' => some 0x0d
  | 't' => some 0x09
  | 'v' => some 0x0b
  | '\\' => some 0x5c
  | '\'' => some 0x27
  | '"' => some 0x22
  | _ => none

/-- Decodes up to the closing double quote, and returns the bytes with what is behind it. -/
def unescape? : Text → Option (List UInt8 × Text)
  | [] => none
  | '"' :: rest => some ([], rest)
  | '\\' :: 'x' :: h :: l :: rest =>
    match hexDigit? h, hexDigit? l with
    | some high, some low =>
      (unescape? rest).map fun (bs, after) => (UInt8.ofNat (high * 16 + low) :: bs, after)
    | _, _ => none
  | '\\' :: c :: rest =>
    match unescapeLetter? c with
    | some b => (unescape? rest).map fun (bs, after) => (b :: bs, after)
    | none => none
  | c :: rest =>
    if c.toNat < 256 then
      (unescape? rest).map fun (bs, after) => (UInt8.ofNat c.toNat :: bs, after)
    else none

end NetKit
