import NetKit.Ip.V6

/-!
# IP addresses — of either version
-/

namespace NetKit

/-- An IP address of either version. -/
inductive Ip where
  | v4 (ip : Ipv4)
  | v6 (ip : Ipv6)
  deriving DecidableEq, Repr

namespace Ip

/-- `Ipv4.text` or `Ipv6.text`. -/
def text : Ip → Text
  | v4 ip => ip.text
  | v6 ip => ip.text

/-- `Ipv4.value` or `Ipv6.value`. -/
def value : Ip → Nat
  | v4 ip => ip.value
  | v6 ip => ip.value

/-- `ip` is `Ipv4.zero` or `Ipv6.zero`. -/
def isWildcard : Ip → Bool
  | v4 ip => ip = Ipv4.zero
  | v6 ip => ip = Ipv6.zero

/-- `ip` is exactly `127.0.0.1` or `::1`. -/
def isLoopback : Ip → Bool
  | v4 ip => ip = Ipv4.loopback
  | v6 ip => ip = Ipv6.loopback

/-- `Ipv4.isMulticast` or `Ipv6.isMulticast`. -/
def isMulticast : Ip → Bool
  | v4 ip => ip.isMulticast
  | v6 ip => ip.isMulticast

end Ip

end NetKit
