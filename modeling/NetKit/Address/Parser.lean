import NetKit.Address.Basic
import NetKit.Address.Error
import NetKit.Event
import NetKit.Number.Integer

/-!
# Reading addresses — layout, spelling, resolution

`Address.parse` goes through two forms. The `Layout` says which parts a text has, judged by its brackets
and colons alone: without brackets, at most one colon makes it IPv4 and more make it a bare IPv6
literal; with brackets it is IPv6, and what follows the closing bracket is a scope after `%`, a port
after `:`, or both in this order. The `Spelling` is the layout with its IP address and port read. Last,
`resolveScope` may look a scope up among the `Interfaces`, so that no lookup is made for a text that is
wrong anyway.

A port or a numeric scope is read by `parseUInt64`, with any radix prefix. A scope of ASCII digits is
numeric, and any other one, the empty one included, is the name of an interface.

## Contents
- `Layout.ofText`: the parts of a text.
- `Spelling.ofLayout`: the parts read.
- `resolveScope`, `Spelling.resolve`: the address that a spelling denotes on a machine.
- `Address.parse`: all of it.
-/

namespace NetKit

/-! ## Layout -/

/-- The parts of an address text. -/
inductive Layout where
  /-- An IPv4 host, and the port behind a colon. -/
  | v4 (host : Text) (port : Option Text)
  /-- An IPv6 literal, perhaps with `%` and a scope in it, the scope behind the bracket, and the port. -/
  | v6 (literal : Text) (outerScope : Option Text) (port : Option Text)
  deriving DecidableEq, Repr

/-- `cutFirst?`, with `t` itself and `none` where there is no `mark`. -/
def splitAtFirst (mark : Char) (t : Text) : Text × Option Text :=
  match t.cutFirst? mark with
  | some (before, after) => (before, some after)
  | none => (t, none)

namespace Layout

/-- The parts of a text without brackets. -/
def ofUnbracketed (t : Text) : Layout :=
  match t.cutFirst? ':' with
  | none => v4 t none
  | some (host, port) => if ':' ∈ port then v6 t none none else v4 host (some port)

/-- The parts of `[literal]after`, the brackets left out. -/
def ofBracketed (literal after : Text) : Except AddressFault Layout :=
  match splitAtFirst ':' after with
  | ('%' :: scope, port) => .ok (v6 literal (some scope) port)
  | ([], port) => .ok (v6 literal none port)
  | (_ :: _, _) => .error .unexpectedText

/-- The parts of any text, with the first `[` and the last `]` as its brackets. -/
def ofText (t : Text) : Except AddressFault Layout :=
  match t.cutFirst? '[' with
  | none => if ']' ∈ t then .error .mismatchedBrackets else .ok (ofUnbracketed t)
  | some (before, inside) =>
    match inside.cutLast? ']' with
    | none => .error .mismatchedBrackets
    | some (literal, after) =>
      if before.isEmpty then ofBracketed literal after else .error .unexpectedText

end Layout

/-! ## Spelling -/

/-- An address with its scope still in text. -/
inductive Spelling where
  | v4 (ip : Ipv4) (port : Option UInt16)
  | v6 (ip : Ipv6) (scope : Option Text) (port : Option UInt16)
  deriving DecidableEq, Repr

/-- The most bytes of an IPv4 literal. -/
def maxIpv4Length : Nat := 15

/-- The most bytes of an IPv6 literal. -/
def maxIpv6Length : Nat := 45

/-- `parseUInt64`, confined to 16 bits. -/
def readPort (t : Text) : Except AddressFault UInt16 :=
  match parseUInt64 t with
  | .error e => .error (.invalidPort e)
  | .ok n =>
    if n.toNat < UInt16.size then .ok (UInt16.ofNat n.toNat)
    else .error (.invalidPort ⟨.outOfRange, t⟩)

/-- `readPort` on a port that is there. -/
def readPort? : Option Text → Except AddressFault (Option UInt16)
  | none => .ok none
  | some t => (readPort t).map some

namespace Spelling

/-- Reads `v4`: the length of the host, the host, the port. -/
def ofIpv4Parts (host : Text) (port : Option Text) : Except AddressFault Spelling :=
  if maxIpv4Length < host.byteLength then .error (.tooLong .ipv4)
  else
    match Ipv4.ofText? host with
    | none => .error .notAnIpAddress
    | some ip => (readPort? port).map (v4 ip)

/-- Reads `v6`: the length of the host, the host, a scope in one place at most, the port. -/
def ofIpv6Parts (literal : Text) (outerScope port : Option Text) : Except AddressFault Spelling :=
  let (host, innerScope) := splitAtFirst '%' literal
  if maxIpv6Length < host.byteLength then .error (.tooLong .ipv6)
  else if innerScope.isSome && outerScope.isSome then .error .unexpectedText
  else
    match Ipv6.ofText? host with
    | none => .error .notAnIpAddress
    | some ip => (readPort? port).map (v6 ip (innerScope.or outerScope))

/-- Reads the parts of either variant. -/
def ofLayout : Layout → Except AddressFault Spelling
  | .v4 host port => ofIpv4Parts host port
  | .v6 literal outerScope port => ofIpv6Parts literal outerScope port

/-- `Layout.ofText`, then `ofLayout`. -/
def ofText (t : Text) : Except AddressFault Spelling :=
  match Layout.ofText t with
  | .error fault => .error fault
  | .ok layout => ofLayout layout

end Spelling

/-! ## Resolution -/

/-- At least one decimal digit, and nothing else. -/
def isNumericScope (scope : Text) : Bool := !scope.isEmpty && scope.all (isDigit 10)

/-- `parseUInt64`, confined to 32 bits. -/
def readScope (scope : Text) : Except ScopeFault UInt32 :=
  match parseUInt64 scope with
  | .error e => .error (.number e)
  | .ok n =>
    if n.toNat < UInt32.size then .ok (UInt32.ofNat n.toNat)
    else .error (.number ⟨.outOfRange, scope⟩)

/-- A numeric scope by `readScope`, any other by `interfaces`; a successful lookup is logged. -/
def resolveScope (interfaces : Interfaces) (scope : Text) : Logged (Except ScopeFault UInt32) :=
  if isNumericScope scope then .quiet (readScope scope)
  else
    match interfaces scope with
    | .error e => .quiet (.error (.lookup e))
    | .ok index => ⟨.ok index, [.scopeResolved scope index]⟩

/-- The address of a spelling, with `defaultPort` where it has no port. -/
def Spelling.resolve (interfaces : Interfaces) (defaultPort : UInt16) :
    Spelling → Logged (Except AddressFault Address)
  | v4 ip port => .quiet (.ok (.specified (.v4 ip (port.getD defaultPort))))
  | v6 ip none port => .quiet (.ok (.specified (.v6 ip (port.getD defaultPort) 0 0)))
  | v6 ip (some scope) port =>
    (resolveScope interfaces scope).map fun
      | .error fault => .error (.invalidScope scope fault)
      | .ok index => .ok (.specified (.v6 ip (port.getD defaultPort) 0 index))

/-- **The parser.** `Spelling.ofText`, then `Spelling.resolve`; an error keeps all of `t`. -/
def Address.parse (interfaces : Interfaces) (t : Text) (defaultPort : UInt16) :
    Logged (Except AddressError Address) :=
  match Spelling.ofText t with
  | .error fault => .quiet (.error ⟨fault, t⟩)
  | .ok spelling =>
    (spelling.resolve interfaces defaultPort).map fun
      | .error fault => .error ⟨fault, t⟩
      | .ok a => .ok a

/-- `Address.parse` with the default port zero. -/
def Address.ofText (interfaces : Interfaces) (t : Text) : Logged (Except AddressError Address) :=
  Address.parse interfaces t 0

/-- `parse` in place: an accepted text is stored, and `a` stays after an error. -/
def Address.setAddress (interfaces : Interfaces) (t : Text) (defaultPort : UInt16) (a : Address) :
    Logged (Except AddressError Unit × Address) :=
  (Address.parse interfaces t defaultPort).map fun
    | .error e => (.error e, a)
    | .ok b => (.ok (), b)

end NetKit
