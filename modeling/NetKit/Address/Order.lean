import NetKit.Address.Basic

/-!
# Order of addresses — by family, IP address, port, flow information and scope

`Address.compare` compares the `Address.key`s, lists of numbers, place by place. `key` is injective, so
the order is total.

## Contents
- `Address.key`, `Address.compare`: the key and the order.
- `Address.sorted`: a list in ascending order.
- `countRepeats`: how many items of a list equal their predecessor.
-/

namespace NetKit

namespace Address

/-- The place of a family in the order. -/
def familyRank : Family → Nat
  | .unspecified => 0
  | .ipv4 => 1
  | .ipv6 => 2

/-- The numbers that `compare` looks at, the most significant first. -/
def key (a : Address) : List Nat :=
  [familyRank a.family, (a.ip?.map Ip.value).getD 0, a.port.toNat, a.flow.toNat, a.scope.toNat]

/-- `Ord.compare` on the keys. -/
def compare (a b : Address) : Ordering := Ord.compare a.key b.key

/-- `a` is before `b` or equal to it. -/
def isAtMost (a b : Address) : Bool := (compare a b).isLE

/-- `as` in ascending order, by a stable sort. -/
def sorted (as : List Address) : List Address := as.mergeSort isAtMost

end Address

/-- How many items equal the item right before them. -/
def countRepeats {α : Type} [DecidableEq α] : List α → Nat
  | [] => 0
  | [_] => 0
  | a :: b :: rest => (if a = b then 1 else 0) + countRepeats (b :: rest)

end NetKit
