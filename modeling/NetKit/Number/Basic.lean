import NetKit.ErrorKind
import NetKit.Text.Digits
import NetKit.Text.Escape

/-!
# Numbers in text — blanks, signs, and the three ways in which reading fails

`parseUInt64`, `parseInt64` and `parseBinary64` share the lexical frame defined here, the order of
their checks (`strictly`) and the error type `NumberError`, which keeps the complete text. Blanks
around a number are skipped, and anything else behind it is an error.

## Contents
- `isBlank`, `skipBlanks`, `takeSign`: the frame around a number.
- `NumberFault`, `NumberError`, `NumberError.message`: what can be wrong, and how it is reported.
- `endingAfter`: the last check of every reader, that only blanks follow.
- `strictly`: the checks of every reader, in their order.
-/

namespace NetKit

/-! ## The frame of a number -/

/-- Space, tab, line feed, vertical tab, form feed and carriage return; nothing outside ASCII is blank. -/
def isBlank (c : Char) : Bool :=
  c = ' ' || c = '\t' || c = '\n' || c = '\x0b' || c = '\x0c' || c = '\r'

/-- `t` without leading blanks. -/
def skipBlanks (t : Text) : Text := t.dropWhile isBlank

/-- Whether `t` starts with `-`, and `t` without a leading sign. -/
def takeSign : Text → Bool × Text
  | '-' :: t => (true, t)
  | '+' :: t => (false, t)
  | t => (false, t)

/-! ## Failures -/

/-- Why a text is no number of its type. -/
inductive NumberFault where
  /-- No literal at the start. -/
  | noNumber
  /-- A literal that the type cannot hold. -/
  | outOfRange
  /-- Something other than blanks behind the literal. -/
  | trailing
  deriving DecidableEq, Repr

/-- A `NumberFault` with the complete text. -/
structure NumberError where
  fault : NumberFault
  input : Text
  deriving DecidableEq, Repr

/-- The wording of each fault. -/
def NumberFault.summary : NumberFault → Text
  | .noNumber => "invalid input".toList
  | .outOfRange => "out of range".toList
  | .trailing => "extraneous characters after number".toList

/-- `summary`, and the `quoted` text. -/
def NumberError.message (e : NumberError) : Text :=
  e.fault.summary ++ ": ".toList ++ quoted e.input

/-- Always `invalidInput`. -/
def NumberError.kind (_ : NumberError) : ErrorKind := .invalidInput

/-- Accepts `value` if `rest` is blank. -/
def endingAfter {α : Type} (input rest : Text) (value : α) : Except NumberError α :=
  if rest.all isBlank then .ok value else .error ⟨.trailing, input⟩

/-- The checks of every reader in their order: is there a `literal`, is it `outside` the type, and last
    `endingAfter`. -/
def strictly {ω α : Type} (input : Text) (literal : Option ω) (outside : ω → Prop) [DecidablePred outside]
    (rest : ω → Text) (value : ω → α) : Except NumberError α :=
  match literal with
  | none => .error ⟨.noNumber, input⟩
  | some l =>
    if outside l then .error ⟨.outOfRange, input⟩ else endingAfter input (rest l) (value l)

end NetKit
