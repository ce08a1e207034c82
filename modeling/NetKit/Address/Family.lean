import NetKit.ErrorKind
import NetKit.Text

/-!
# Address families — and the failures of operations that depend on them

## Contents
- `Family`, with its display name, its variant name, its operating-system number, and the number of
  its socket domain.
- `OperationError`: an operation that does not exist for a family.
- `Family.ofNumber`: the family with a number.
-/

namespace NetKit

/-- The address families of the library. -/
inductive Family where
  | unspecified
  | ipv4
  | ipv6
  deriving DecidableEq, Repr

namespace Family

/-- The name in messages. -/
def name : Family → Text
  | unspecified => "unspecified".toList
  | ipv4 => "IPv4".toList
  | ipv6 => "IPv6".toList

/-- The name in diagnostic output. -/
def variantName : Family → Text
  | unspecified => "Unspecified".toList
  | ipv4 => "Ipv4".toList
  | ipv6 => "Ipv6".toList

/-- The `AF_*` number. -/
def number : Family → Int
  | unspecified => 0
  | ipv4 => 2
  | ipv6 => 10

/-- The socket domain; `unspecified` has none. -/
def domain? : Family → Option Int
  | unspecified => none
  | ipv4 => some 2
  | ipv6 => some 10

end Family

/-- Why an operation is refused for an address. -/
inductive OperationError where
  /-- `number` is no family of the library. -/
  | unsupportedFamily (number : Int)
  /-- `setPort` on an unspecified address. -/
  | familyNotSet
  /-- An operation that is not defined for `family`. -/
  | undefinedFor (family : Family)
  deriving DecidableEq, Repr

namespace OperationError

/-- The wording of the refusal. -/
def message : OperationError → Text
  | unsupportedFamily number =>
    "unsupported address family ".toList ++ (toString number).toList
  | familyNotSet => "address family must be set before the port".toList
  | undefinedFor family =>
    "operation is not defined for ".toList ++ family.name ++ " addresses".toList

/-- `unsupported` or `invalidInput`. -/
def kind : OperationError → ErrorKind
  | unsupportedFamily _ => .unsupported
  | familyNotSet => .invalidInput
  | undefinedFor _ => .invalidInput

end OperationError

/-- The `Family` with an `AF_*` number. -/
def Family.ofNumber (number : Int) : Except OperationError Family :=
  if number = 0 then .ok .unspecified
  else if number = 2 then .ok .ipv4
  else if number = 10 then .ok .ipv6
  else .error (.unsupportedFamily number)

/-- `ofNumber` inverts `number`, and accepts nothing else. -/
theorem Family.ofNumber_eq_ok_iff {number : Int} {family : Family} :
    Family.ofNumber number = .ok family ↔ number = family.number := by
  unfold Family.ofNumber
  cases family <;> simp only [Family.number] <;> grind

end NetKit
