import NetKit.Address.Family
import NetKit.Number.Basic

/-!
# Address errors — what can be wrong with the text of an address

An `AddressError` is an `AddressFault` with the complete text. Two faults have a cause of their own:
`invalidPort` that of a malformed number, and `invalidScope` that of a malformed number or of a failed
lookup among the `Interfaces`.

## Contents
- `LookupError`, `Interfaces`: looking up the name of a network interface.
- `ScopeFault`, `AddressFault`, `AddressError`: what is wrong.
- `AddressError.message`: the wording.
-/

namespace NetKit

/-! ## Interface lookup -/

/-- Why a name has no interface index. -/
inductive LookupError where
  /-- No interface of this name. -/
  | noSuchDevice
  /-- A name with NUL, which cannot be passed to the system. -/
  | invalidName
  deriving DecidableEq, Repr

/-- The system's wording. -/
def LookupError.message : LookupError → Text
  | noSuchDevice => "No such device (os error 19)".toList
  | invalidName => "Invalid argument (os error 22)".toList

/-- The interface table of a machine: the index of each name, or why it has none. -/
abbrev Interfaces := Text → Except LookupError UInt32

/-- A machine whose only interface is `lo`, with index `1`. -/
def Interfaces.loopbackOnly : Interfaces := fun name =>
  if '\x00' ∈ name then .error .invalidName
  else if name = ['l', 'o'] then .ok 1
  else .error .noSuchDevice

/-! ## Faults -/

/-- Why a scope is refused. -/
inductive ScopeFault where
  /-- The digits are no 32-bit number. -/
  | number (error : NumberError)
  /-- The name has no interface. -/
  | lookup (error : LookupError)
  deriving DecidableEq, Repr

/-- The message of the cause. -/
def ScopeFault.message : ScopeFault → Text
  | number e => e.message
  | lookup e => e.message

/-- Why a text is no address. -/
inductive AddressFault where
  /-- A bracket lacks its partner, or `]` stands before `[`. -/
  | mismatchedBrackets
  /-- A host longer than any literal of `family`. -/
  | tooLong (family : Family)
  /-- A host that is no IP literal of its family. -/
  | notAnIpAddress
  /-- Text before `[`, text behind `]` that is neither scope nor port, or a second scope. -/
  | unexpectedText
  /-- `scope` is neither a 32-bit number nor the name of an interface. -/
  | invalidScope (scope : Text) (fault : ScopeFault)
  /-- The port is not a number from `0` to `65535`. -/
  | invalidPort (error : NumberError)
  deriving DecidableEq, Repr

/-- An `AddressFault` with the complete text. -/
structure AddressError where
  fault : AddressFault
  input : Text
  deriving DecidableEq, Repr

/-- The heading of the fault, and the `quoted` text; `invalidScope` and `invalidPort` quote more. -/
def AddressError.message (e : AddressError) : Text :=
  match e.fault with
  | .mismatchedBrackets => "IPv6 address with mismatched brackets: ".toList ++ quoted e.input
  | .tooLong family => family.name ++ " address too long: ".toList ++ quoted e.input
  | .notAnIpAddress => "not a valid IP address: ".toList ++ quoted e.input
  | .unexpectedText =>
    "unexpected text around bracketed IPv6 address: ".toList ++ quoted e.input
  | .invalidScope scope fault =>
    "invalid IPv6 scope ".toList ++ quoted scope ++ " in ".toList ++ quoted e.input ++
      ": ".toList ++ fault.message
  | .invalidPort error =>
    "invalid port number in ".toList ++ quoted e.input ++ ": ".toList ++ error.message

/-- The message of the cause, for the two faults that have one. -/
def AddressFault.cause? : AddressFault → Option Text
  | invalidScope _ fault => some fault.message
  | invalidPort error => some error.message
  | mismatchedBrackets => none
  | tooLong _ => none
  | notAnIpAddress => none
  | unexpectedText => none

/-- Always `invalidInput`. -/
def AddressError.kind (_ : AddressError) : ErrorKind := .invalidInput

end NetKit
