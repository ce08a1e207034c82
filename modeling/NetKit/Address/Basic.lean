import NetKit.Address.Family
import NetKit.Ip.Basic

/-!
# Addresses — an IP endpoint, or not yet specified

An `Endpoint` is what a socket is bound or connected to: an IP address and a port, for IPv6 also the
flow information and the scope. An `Address` is an `Endpoint`, or `unspecified`.

## Contents
- `Endpoint`, `Address`: the types, with their fields as total functions.
- `Address.ofFamily`, `Address.wildcard`, `Address.loopback`: addresses of a given family.
- `Address.withPort`, `Address.setPort`, `Address.toIpv6`: the operations that not every address allows.
- `Address.isWildcard`, `Address.isLoopback`, `Address.isMulticast`: classification.
-/

namespace NetKit

/-- A socket endpoint. -/
inductive Endpoint where
  | v4 (ip : Ipv4) (port : UInt16)
  | v6 (ip : Ipv6) (port : UInt16) (flow : UInt32) (scope : UInt32)
  deriving DecidableEq, Repr

namespace Endpoint

/-- The IP address of either variant. -/
def ip : Endpoint → Ip
  | v4 ip _ => .v4 ip
  | v6 ip _ _ _ => .v6 ip

/-- The port of either variant. -/
def port : Endpoint → UInt16
  | v4 _ port => port
  | v6 _ port _ _ => port

/-- The flow information; `0` for `v4`. -/
def flow : Endpoint → UInt32
  | v4 _ _ => 0
  | v6 _ _ flow _ => flow

/-- The scope; `0` for `v4`. -/
def scope : Endpoint → UInt32
  | v4 _ _ => 0
  | v6 _ _ _ scope => scope

/-- `ipv4` or `ipv6`. -/
def family : Endpoint → Family
  | v4 .. => .ipv4
  | v6 .. => .ipv6

/-- The same endpoint with another `port`. -/
def withPort (port : UInt16) : Endpoint → Endpoint
  | v4 ip _ => v4 ip port
  | v6 ip _ flow scope => v6 ip port flow scope

/-- `ip` with port, flow and scope `0`. -/
def ofIp : Ip → Endpoint
  | .v4 ip => v4 ip 0
  | .v6 ip => v6 ip 0 0 0

end Endpoint

/-- An `Endpoint`, or none yet. -/
inductive Address where
  | unspecified
  | specified (endpoint : Endpoint)
  deriving DecidableEq, Repr

namespace Address

/-! ## Fields -/

/-- The `Endpoint`, if specified. -/
def endpoint? : Address → Option Endpoint
  | unspecified => none
  | specified e => some e

/-- `Endpoint.family`, or `unspecified`. -/
def family : Address → Family
  | unspecified => .unspecified
  | specified e => e.family

/-- `Endpoint.ip`, if specified. -/
def ip? (a : Address) : Option Ip := a.endpoint?.map Endpoint.ip

/-- `Endpoint.port`, or `0`. -/
def port (a : Address) : UInt16 := (a.endpoint?.map Endpoint.port).getD 0

/-- `Endpoint.flow`, or `0`. -/
def flow (a : Address) : UInt32 := (a.endpoint?.map Endpoint.flow).getD 0

/-- `Endpoint.scope`, or `0`. -/
def scope (a : Address) : UInt32 := (a.endpoint?.map Endpoint.scope).getD 0

/-! ## Addresses of a family -/

/-- The address of a family with all other fields zero. -/
def ofFamily : Family → Address
  | .unspecified => unspecified
  | .ipv4 => specified (.v4 Ipv4.zero 0)
  | .ipv6 => specified (.v6 Ipv6.zero 0 0 0)

/-- `ofFamily` of `Family.ofNumber`. -/
def ofFamilyNumber (number : Int) : Except OperationError Address :=
  (Family.ofNumber number).map ofFamily

/-- The wildcard IP of `family` with `port`; an unspecified family has none. -/
def wildcard (family : Family) (port : UInt16) : Except OperationError Address :=
  match family with
  | .unspecified => .error (.unsupportedFamily Family.unspecified.number)
  | .ipv4 => .ok (specified (.v4 Ipv4.zero port))
  | .ipv6 => .ok (specified (.v6 Ipv6.zero port 0 0))

/-- The loopback IP of `family` with `port`; an unspecified family has none. -/
def loopback (family : Family) (port : UInt16) : Except OperationError Address :=
  match family with
  | .unspecified => .error (.unsupportedFamily Family.unspecified.number)
  | .ipv4 => .ok (specified (.v4 Ipv4.loopback port))
  | .ipv6 => .ok (specified (.v6 Ipv6.loopback port 0 0))

/-! ## Operations that not every address allows -/

/-- `Endpoint.withPort`, refused on `unspecified`. -/
def withPort (port : UInt16) : Address → Except OperationError Address
  | unspecified => .error .familyNotSet
  | specified e => .ok (specified (e.withPort port))

/-- Sets the port in place: the result, and the address after the call. -/
def setPort (port : UInt16) : Address → Except OperationError Unit × Address
  | unspecified => (.error .familyNotSet, unspecified)
  | specified (.v4 ip _) => (.ok (), specified (.v4 ip port))
  | specified (.v6 ip _ flow scope) => (.ok (), specified (.v6 ip port flow scope))

/-- `setPort` stores what `withPort` computes, and nothing if that is refused. -/
theorem setPort_eq (a : Address) (port : UInt16) : a.setPort port =
    match a.withPort port with
    | .ok b => (.ok (), b)
    | .error e => (.error e, a) := by
  cases a with
  | unspecified => rfl
  | specified e => cases e <;> rfl

/-- IPv4 as IPv4-mapped IPv6 with the same port; IPv6 as it is. -/
def toIpv6 : Address → Except OperationError Address
  | unspecified => .error (.undefinedFor .unspecified)
  | specified (.v4 ip port) => .ok (specified (.v6 (Ipv6.ofIpv4 ip) port 0 0))
  | specified (.v6 ip port flow scope) => .ok (specified (.v6 ip port flow scope))

/-- The `Endpoint`, refused on `unspecified`. -/
def toEndpoint : Address → Except OperationError Endpoint
  | unspecified => .error (.undefinedFor .unspecified)
  | specified e => .ok e

/-! ## Classification -/

/-- `Ip.isWildcard`; an unspecified address is not one. -/
def isWildcard (a : Address) : Bool := a.ip?.any Ip.isWildcard

/-- `Ip.isLoopback`: exactly `127.0.0.1` or `::1`. -/
def isLoopback (a : Address) : Bool := a.ip?.any Ip.isLoopback

/-- `Ip.isMulticast`; an unspecified address is not one. -/
def isMulticast (a : Address) : Bool := a.ip?.any Ip.isMulticast

end Address

end NetKit
