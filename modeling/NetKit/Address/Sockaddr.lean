import NetKit.Address.Basic

/-!
# Socket-address blocks — the operating system's form of an address

`Endpoint.sockaddr` starts with the number of the family in two bytes, lowest first. For IPv4 the port
follows, highest byte first, then the four octets and eight bytes of zero: 16 bytes. For IPv6 the port
follows in the same way, then the flow information in four bytes, lowest first, the sixteen octets,
and the scope in four bytes, lowest first: 28 bytes. `Address.ofSockaddr` reads a shorter block as if
zeros followed, and ignores what follows a complete one.

## Contents
- `Endpoint.sockaddr`, `Address.sockaddr?`, `Address.sockaddrSize`: writing a block.
- `Address.ofSockaddr`: reading one.
- `unixSockaddr`: the block of a Unix-domain path, whose family no address has.
-/

namespace NetKit

/-- The block of an endpoint: `sockaddr_in` or `sockaddr_in6`. -/
def Endpoint.sockaddr : Endpoint → List UInt8
  | .v4 ip port =>
    littleEndian 2 2 ++ bigEndian 2 port.toNat ++ ip.octets ++ List.replicate 8 0
  | .v6 ip port flow scope =>
    littleEndian 2 10 ++ bigEndian 2 port.toNat ++ littleEndian 4 flow.toNat ++ ip.octets ++
      littleEndian 4 scope.toNat

namespace Address

/-- The block of a specified address. -/
def sockaddr? (a : Address) : Option (List UInt8) := a.endpoint?.map Endpoint.sockaddr

/-- The length of the block; of the largest block for `unspecified`. -/
def sockaddrSize (a : Address) : Nat :=
  match a.family with
  | .ipv4 => 16
  | .ipv6 => 28
  | .unspecified => 28

/-- The byte at `i`, `0` behind the end. -/
def blockByte (block : List UInt8) (i : Nat) : UInt8 := block.getD i 0

/-- The bytes of a block from `start` on. -/
def blockField (block : List UInt8) (start count : Nat) : List UInt8 :=
  (List.range count).map fun i => blockByte block (start + i)

/-- The `AF_*` number in bytes `0` and `1`. -/
def blockFamily (block : List UInt8) : Nat := ofLittleEndian (blockField block 0 2)

/-- The port in bytes `2` and `3`. -/
def blockPort (block : List UInt8) : UInt16 := UInt16.ofNat (ofBigEndian (blockField block 2 2))

/-- The 32-bit word at `start`, lowest byte first. -/
def blockWord (block : List UInt8) (start : Nat) : UInt32 :=
  UInt32.ofNat (ofLittleEndian (blockField block start 4))

/-- The fields of a block of this family. -/
def ofBlock (block : List UInt8) : Family → Address
  | .unspecified => unspecified
  | .ipv4 => specified (.v4 (Ipv4.ofBytes fun i => blockByte block (4 + i)) (blockPort block))
  | .ipv6 =>
    specified (.v6 (Ipv6.ofBytes fun i => blockByte block (8 + i)) (blockPort block)
      (blockWord block 4) (blockWord block 24))

/-- The address of a block, by its `blockFamily`; `unspecified` for no block. -/
def ofSockaddr : Option (List UInt8) → Except OperationError Address
  | none => .ok unspecified
  | some block => (Family.ofNumber (blockFamily block)).map (ofBlock block)

end Address

/-- The block of a Unix-domain `path`. -/
def unixSockaddr (path : Text) : List UInt8 := littleEndian 2 1 ++ path.utf8

end NetKit
