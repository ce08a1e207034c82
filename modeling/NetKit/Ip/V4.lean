import NetKit.Bytes
import NetKit.Text.Digits

/-!
# IPv4 addresses — four octets, and their dotted decimal text

`Ipv4.text` has four decimal numbers up to 255 with points between them. `Ipv4.read?` accepts at most
three digits for a number and no leading zero, so that every address has exactly one text.

## Contents
- `Ipv4`, `Ipv4.octets`, `Ipv4.groups`, `Ipv4.value`: the address as a tuple, as bytes, as 16-bit
  groups and as a number.
- `Ipv4.text`, `Ipv4.read?`, `Ipv4.ofText?`: printing, reading a prefix, reading a whole text.
-/

namespace NetKit

/-- Four octets in network order. -/
structure Ipv4 where
  a : UInt8
  b : UInt8
  c : UInt8
  d : UInt8
  deriving DecidableEq, Repr

namespace Ipv4

/-- The four octets as a list. -/
def octets (ip : Ipv4) : List UInt8 := [ip.a, ip.b, ip.c, ip.d]

/-- The inverse of `octets`, on `f 0` to `f 3`. -/
def ofBytes (f : Nat → UInt8) : Ipv4 := ⟨f 0, f 1, f 2, f 3⟩

/-- The octets in pairs, as 16-bit groups. -/
def groups (ip : Ipv4) : List UInt16 :=
  [UInt16.ofNat (ip.a.toNat * 256 + ip.b.toNat), UInt16.ofNat (ip.c.toNat * 256 + ip.d.toNat)]

/-- The inverse of `groups`. -/
def ofGroups (g h : UInt16) : Ipv4 :=
  ⟨UInt8.ofNat (g.toNat / 256), UInt8.ofNat g.toNat, UInt8.ofNat (h.toNat / 256),
    UInt8.ofNat h.toNat⟩

/-- A group gives its two octets back. -/
theorem octets_of_group (a b : UInt8) :
    UInt8.ofNat ((UInt16.ofNat (a.toNat * 256 + b.toNat)).toNat / 256) = a ∧
      UInt8.ofNat (UInt16.ofNat (a.toNat * 256 + b.toNat)).toNat = b := by
  have ha := a.toNat_lt
  have hb := b.toNat_lt
  have whole : (UInt16.ofNat (a.toNat * 256 + b.toNat)).toNat = a.toNat * 256 + b.toNat := by
    rw [UInt16.toNat_ofNat']
    omega
  rw [whole]
  constructor
  · apply UInt8.toNat_inj.1
    rw [UInt8.toNat_ofNat']
    omega
  · apply UInt8.toNat_inj.1
    rw [UInt8.toNat_ofNat']
    omega

/-- `ofGroups` inverts `groups`. -/
theorem ofGroups_groups (ip : Ipv4) :
    ∃ g h, ip.groups = [g, h] ∧ ofGroups g h = ip := by
  obtain ⟨ha, hb⟩ := octets_of_group ip.a ip.b
  obtain ⟨hc, hd⟩ := octets_of_group ip.c ip.d
  refine ⟨_, _, rfl, ?_⟩
  unfold ofGroups
  rw [ha, hb, hc, hd]

/-- The octets as a 32-bit number. -/
def value (ip : Ipv4) : Nat := ofBigEndian ip.octets

/-- `0.0.0.0`. -/
def zero : Ipv4 := ⟨0, 0, 0, 0⟩

/-- `127.0.0.1`. -/
def loopback : Ipv4 := ⟨127, 0, 0, 1⟩

/-- `ip` is in `224.0.0.0/4`. -/
def isMulticast (ip : Ipv4) : Bool := 224 ≤ ip.a && ip.a ≤ 239

/-! ## Text -/

/-- Dotted decimal. -/
def text (ip : Ipv4) : Text :=
  Nat.toDigits 10 ip.a.toNat ++ '.' :: Nat.toDigits 10 ip.b.toNat ++
    '.' :: Nat.toDigits 10 ip.c.toNat ++ '.' :: Nat.toDigits 10 ip.d.toNat

/-- A number up to `255` at the start of `t`, of at most three digits and without superfluous zeros. -/
def readOctet? (t : Text) : Option (UInt8 × Text) :=
  match spanDigits 10 t with
  | (ds, rest) =>
    if ds.isEmpty || 3 < ds.length || (1 < ds.length && ds.head? == some '0') then none
    else if 255 < digitsValue 10 ds then none
    else some (UInt8.ofNat (digitsValue 10 ds), rest)

/-- `readOctet?` behind a point. -/
def readDotOctet? : Text → Option (UInt8 × Text)
  | '.' :: t => readOctet? t
  | _ => none

/-- The address at the start of `t`, and the text behind it. -/
def read? (t : Text) : Option (Ipv4 × Text) := do
  let (a, t) ← readOctet? t
  let (b, t) ← readDotOctet? t
  let (c, t) ← readDotOctet? t
  let (d, t) ← readDotOctet? t
  return (⟨a, b, c, d⟩, t)

/-- `read?` with nothing left over. -/
def ofText? (t : Text) : Option Ipv4 :=
  match read? t with
  | some (ip, []) => some ip
  | _ => none

end Ipv4

end NetKit
