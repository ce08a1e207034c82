import NetKit.Ip.V4

/-!
# IPv6 addresses — eight groups, and their text

`Ipv6.ofText?` accepts groups of one to four hexadecimal digits with colons between them. One `::` may
stand for one or more groups of zero, and the last two groups may be written as an IPv4 address.
`Ipv6.text` uses lower-case digits without leading zeros and puts `::` in place of
`Ipv6.longestZeroRun`, if that has two groups or more; an IPv4-mapped address `::ffff:0:0/96` is printed
with its IPv4 part in dotted decimal.

## Contents
- `Ipv6`, `Ipv6.value`, `Ipv6.octets`: the address as groups, a number and bytes.
- `Ipv6.ofIpv4`, `Ipv6.embedded?`: the IPv4-mapped addresses.
- `Ipv6.longestZeroRun`, `Ipv6.text`: printing.
- `Ipv6.readGroups`, `Ipv6.readAllGroups?`, `Ipv6.ofText?`: reading.
-/

namespace NetKit

/-- Eight 16-bit groups in network order. -/
structure Ipv6 where
  groups : List UInt16
  length_groups : groups.length = 8 := by decide
  deriving DecidableEq, Repr

namespace Ipv6

/-- The groups as a 128-bit number. -/
def value (ip : Ipv6) : Nat := ip.groups.foldl (fun n g => n * 65536 + g.toNat) 0

/-- The sixteen bytes in network order. -/
def octets (ip : Ipv6) : List UInt8 := ip.groups.flatMap fun g => bigEndian 2 g.toNat

/-- `::`. -/
def zero : Ipv6 := ⟨[0, 0, 0, 0, 0, 0, 0, 0], rfl⟩

/-- `::1`. -/
def loopback : Ipv6 := ⟨[0, 0, 0, 0, 0, 0, 0, 1], rfl⟩

/-- `ip` is in `ff00::/8`. -/
def isMulticast (ip : Ipv6) : Bool := ip.groups.head?.any fun g => 0xff00 ≤ g

/-- The group of the bytes `f (2 * i)` and `f (2 * i + 1)`. -/
def groupAt (f : Nat → UInt8) (i : Nat) : UInt16 :=
  UInt16.ofNat ((f (2 * i)).toNat * 256 + (f (2 * i + 1)).toNat)

/-- The inverse of `octets`, on `f 0` to `f 15`. -/
def ofBytes (f : Nat → UInt8) : Ipv6 :=
  ⟨[groupAt f 0, groupAt f 1, groupAt f 2, groupAt f 3, groupAt f 4, groupAt f 5, groupAt f 6,
    groupAt f 7], rfl⟩

/-! ## IPv4-mapped addresses -/

/-- The first six groups of `::ffff:0:0/96`. -/
def mappedHead : List UInt16 := [0, 0, 0, 0, 0, 0xffff]

/-- `::ffff:a.b.c.d`. -/
def ofIpv4 (ip : Ipv4) : Ipv6 := ⟨mappedHead ++ ip.groups, rfl⟩

/-- The inverse of `ofIpv4`. -/
def embedded? (ip : Ipv6) : Option Ipv4 :=
  if ip.groups.take 6 = mappedHead then
    match ip.groups.drop 6 with
    | [g, h] => some (Ipv4.ofGroups g h)
    | _ => none
  else none

/-- `embedded?` recovers the IPv4 address. -/
theorem embedded_ofIpv4 (ip : Ipv4) : (ofIpv4 ip).embedded? = some ip := by
  obtain ⟨g, h, groups, same⟩ := ip.ofGroups_groups
  have parts : (ofIpv4 ip).groups = mappedHead ++ [g, h] := by
    rw [← groups]
    rfl
  unfold embedded?
  rw [parts]
  exact congrArg some same

/-! ## Printing -/

/-- The start and the length of the longest run of zero groups, the first of several. -/
def longestZeroRun : List UInt16 → Nat × Nat
  | [] => (0, 0)
  | g :: gs =>
    let here := ((g :: gs).takeWhile (· = 0)).length
    match longestZeroRun gs with
    | (start, length) => if length ≤ here then (0, here) else (start + 1, length)

/-- Groups in hexadecimal, with colons between them. -/
def groupsText : List UInt16 → Text
  | [] => []
  | [g] => Nat.toDigits 16 g.toNat
  | g :: gs => Nat.toDigits 16 g.toNat ++ ':' :: groupsText gs

/-- `groupsText`, with `::` for `longestZeroRun` if it has two groups or more. -/
def compressedText (gs : List UInt16) : Text :=
  match longestZeroRun gs with
  | (start, length) =>
    if 2 ≤ length then
      groupsText (gs.take start) ++ ':' :: ':' :: groupsText (gs.drop (start + length))
    else groupsText gs

/-- The canonical text. -/
def text (ip : Ipv6) : Text :=
  match ip.embedded? with
  | some v4 => "::ffff:".toList ++ v4.text
  | none => compressedText ip.groups

/-! ## Reading -/

/-- A group of one to four hexadecimal digits at the start of `t`. -/
def readGroup? (t : Text) : Option (UInt16 × Text) :=
  match spanDigits 16 t with
  | (ds, rest) =>
    if ds.isEmpty || 4 < ds.length then none
    else some (UInt16.ofNat (digitsValue 16 ds), rest)

/-- The groups of one pass of `readGroups`, whether an IPv4 address made up the last two, and the text
    behind them. -/
structure GroupRun where
  groups : List UInt16
  endsInIpv4 : Bool
  rest : Text
  deriving DecidableEq, Repr

/-- `t` behind a colon; the first group needs none. -/
def stripSeparator? (isFirst : Bool) (t : Text) : Option Text :=
  if isFirst then some t
  else
    match t with
    | ':' :: rest => some rest
    | _ => none

/-- Groups at the start of the text, at most `room`. An IPv4 address takes the room of two and ends the
    pass; a colon that no group follows is left over. -/
def readGroups : (room : Nat) → (isFirst : Bool) → Text → GroupRun
  | 0, _, t => ⟨[], false, t⟩
  | room + 1, isFirst, t =>
    match stripSeparator? isFirst t with
    | none => ⟨[], false, t⟩
    | some body =>
      match if 1 ≤ room then Ipv4.read? body else none with
      | some (v4, rest) => ⟨v4.groups, true, rest⟩
      | none =>
        match readGroup? body with
        | none => ⟨[], false, t⟩
        | some (g, rest) =>
          let run := readGroups room false rest
          { run with groups := g :: run.groups }

/-- The eight groups at the start of `t`, with zeros for `::`. An IPv4 address may not stand before `::`. -/
def readAllGroups? (t : Text) : Option (List UInt16 × Text) :=
  let head := readGroups 8 true t
  if head.groups.length = 8 then some (head.groups, head.rest)
  else if head.endsInIpv4 then none
  else
    match head.rest with
    | ':' :: ':' :: body =>
      let tail := readGroups (8 - (head.groups.length + 1)) true body
      let missing := 8 - head.groups.length - tail.groups.length
      some (head.groups ++ List.replicate missing 0 ++ tail.groups, tail.rest)
    | _ => none

/-- `readAllGroups?` with nothing left over. -/
def ofText? (t : Text) : Option Ipv6 :=
  match readAllGroups? t with
  | some (groups, []) => if h : groups.length = 8 then some ⟨groups, h⟩ else none
  | _ => none

end Ipv6

end NetKit
