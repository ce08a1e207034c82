/-!
# Error kinds — how a caller may classify a failure without knowing its cause

Every error type has a `message` of its own and maps to an `ErrorKind`.
-/

namespace NetKit

/-- What a caller can match on. -/
inductive ErrorKind where
  /-- Malformed input, or an operation on a value that does not admit it. -/
  | invalidInput
  /-- An address family that the operation does not know. -/
  | unsupported
  /-- A sink that takes no more bytes. -/
  | brokenPipe
  /-- A sink that took `0` bytes of a nonempty write. -/
  | writeZero
  deriving DecidableEq, Repr

end NetKit
