import NetKit.Address.Sockaddr

/-!
# Blocks — an address and its socket-address block are read off each other

`Endpoint.sockaddr` loses nothing: `Address.ofSockaddr` gives the address again, with its port, flow
information and scope. The other way round, a block can hold more than an address does. What is
written for the address that was read is the block itself in the case of IPv6, whose fields fill all 28
bytes, but only its first eight bytes in the case of IPv4, and nothing for a block of no family
(`BlockReads`).

A field is a slice of the block with zeros after it (`blockField_append`, `blockField_zero`), and two
slices that meet are one (`blockField_add`). Every field takes all values of its width, so that reading it
undoes writing it and writing it undoes reading it, whichever byte order it has.

## Contents
- `ofBigEndian_word`, `bigEndian_word`, `ofLittleEndian_word`, `littleEndian_word`: fields with a number.
- `Ipv4.ofBytes_of_octets`, `Ipv6.ofBytes_of_octets`, `Ipv6.octets_ofBytes`: fields with an IP address.
- `Address.zeroPadded`, `Address.blockField_append`, `Address.blockField_add`: slices of a block.
- `Address.ofBlock_sockaddr`: reading what was written.
- `Address.sockaddr_ofBlock_ipv4`, `Address.sockaddr_ofBlock_ipv6`: writing what was read.
- `Address.BlockReads`, `Address.sockaddr_roundTrip`: all addresses and all blocks.
-/

namespace NetKit

-- Powers are those of the core library, also where a theory of powers is imported.
attribute [local instance (high)] instPowNat

/-! ## Numbers -/

/-- `ofLittleEndian` is in the range of its bytes. -/
theorem ofLittleEndian_lt (bs : List UInt8) : ofLittleEndian bs < 256 ^ bs.length := by
  induction bs with
  | nil => exact Nat.one_pos
  | cons b bs ih =>
      have hb := b.toNat_lt
      rw [List.length_cons, Nat.pow_succ, ofLittleEndian]
      omega

theorem ofBigEndian_lt (bs : List UInt8) : ofBigEndian bs < 256 ^ bs.length := by
  have h := ofLittleEndian_lt bs.reverse
  rwa [List.length_reverse] at h

theorem ofBigEndian_bigEndian (count n : Nat) :
    ofBigEndian (bigEndian count n) = n % 256 ^ count := by
  rw [ofBigEndian, bigEndian, List.reverse_reverse, ofLittleEndian_littleEndian]

theorem bigEndian_ofBigEndian (bs : List UInt8) : bigEndian bs.length (ofBigEndian bs) = bs := by
  have h := littleEndian_ofLittleEndian bs.reverse
  rw [List.length_reverse] at h
  rw [bigEndian, ofBigEndian, h, List.reverse_reverse]

/-- A `UInt16` is read back from its bytes, the highest first. -/
theorem ofBigEndian_word (n : UInt16) : UInt16.ofNat (ofBigEndian (bigEndian 2 n.toNat)) = n := by
  rw [ofBigEndian_bigEndian, Nat.mod_eq_of_lt n.toNat_lt, UInt16.ofNat_toNat]

/-- A `UInt32` is read back from its bytes, the lowest first. -/
theorem ofLittleEndian_word (n : UInt32) :
    UInt32.ofNat (ofLittleEndian (littleEndian 4 n.toNat)) = n := by
  rw [ofLittleEndian_littleEndian, Nat.mod_eq_of_lt n.toNat_lt, UInt32.ofNat_toNat]

/-- Any two bytes are those of a `UInt16`. -/
theorem bigEndian_word {bs : List UInt8} (h : bs.length = 2) :
    bigEndian 2 (UInt16.ofNat (ofBigEndian bs)).toNat = bs := by
  have hlt := ofBigEndian_lt bs
  rw [h] at hlt
  rw [UInt16.toNat_ofNat_of_lt' hlt, ← h, bigEndian_ofBigEndian]

/-- Any four bytes are those of a `UInt32`. -/
theorem littleEndian_word {bs : List UInt8} (h : bs.length = 4) :
    littleEndian 4 (UInt32.ofNat (ofLittleEndian bs)).toNat = bs := by
  have hlt := ofLittleEndian_lt bs
  rw [h] at hlt
  rw [UInt32.toNat_ofNat_of_lt' hlt, ← h, littleEndian_ofLittleEndian]

/-! ## IP addresses -/

theorem Ipv4.octets_ofBytes (f : Nat → UInt8) : (ofBytes f).octets = (List.range 4).map f := rfl

theorem Ipv4.octets_injective {ip ip' : Ipv4} (h : ip.octets = ip'.octets) : ip = ip' := by
  obtain ⟨a, b, c, d⟩ := ip
  obtain ⟨a', b', c', d'⟩ := ip'
  cases h
  rfl

/-- `Ipv4.ofBytes` inverts `octets`. -/
theorem Ipv4.ofBytes_of_octets {f : Nat → UInt8} {ip : Ipv4} (h : (List.range 4).map f = ip.octets) :
    ofBytes f = ip :=
  octets_injective ((octets_ofBytes f).trans h)

theorem Ipv6.octets_ofBytes (f : Nat → UInt8) : (ofBytes f).octets = (List.range 16).map f := by
  have hpair : ∀ i, bigEndian 2 (groupAt f i).toNat = [f (2 * i), f (2 * i + 1)] := by
    intro i
    obtain ⟨hhigh, hlow⟩ := Ipv4.octets_of_group (f (2 * i)) (f (2 * i + 1))
    show [UInt8.ofNat ((groupAt f i).toNat / 256), UInt8.ofNat (groupAt f i).toNat] = _
    unfold groupAt
    rw [hhigh, hlow]
  unfold octets ofBytes
  simp only [List.flatMap_cons, List.flatMap_nil, hpair]
  rfl

/-- Groups are determined by their bytes. -/
theorem Ipv6.groups_eq_of_bytes {gs hs : List UInt16}
    (h : (gs.flatMap fun g => bigEndian 2 g.toNat) = hs.flatMap fun g => bigEndian 2 g.toNat) :
    gs = hs := by
  induction gs generalizing hs with
  | nil =>
      cases hs with
      | nil => rfl
      | cons g hs => cases h
  | cons g gs ih =>
      cases hs with
      | nil => cases h
      | cons g' hs =>
          rw [List.flatMap_cons, List.flatMap_cons] at h
          obtain ⟨hfirst, hrest⟩ :=
            List.append_inj h ((length_bigEndian _ _).trans (length_bigEndian _ _).symm)
          have hg : g = g' := by rw [← ofBigEndian_word g, hfirst, ofBigEndian_word]
          rw [hg, ih hrest]

theorem Ipv6.octets_injective {ip ip' : Ipv6} (h : ip.octets = ip'.octets) : ip = ip' := by
  obtain ⟨gs, hgs⟩ := ip
  obtain ⟨gs', hgs'⟩ := ip'
  obtain rfl : gs = gs' := groups_eq_of_bytes h
  rfl

/-- `Ipv6.ofBytes` inverts `octets`. -/
theorem Ipv6.ofBytes_of_octets {f : Nat → UInt8} {ip : Ipv6}
    (h : (List.range 16).map f = ip.octets) : ofBytes f = ip :=
  octets_injective ((octets_ofBytes f).trans h)

theorem Ipv4.length_octets (ip : Ipv4) : ip.octets.length = 4 := rfl

theorem Ipv6.length_octets (ip : Ipv6) : ip.octets.length = 16 := by
  have hconst : ip.groups.map (fun g => (bigEndian 2 g.toNat).length) = List.replicate 8 2 := by
    simp only [length_bigEndian, List.map_const', ip.length_groups]
  unfold octets
  rw [List.length_flatMap, hconst]
  rfl

namespace Address

/-! ## Slices of a block -/

/-- The block with zeros behind it, so that it is long enough for every family. -/
def zeroPadded (block : List UInt8) : List UInt8 := block ++ List.replicate (28 - block.length) 0

@[simp] theorem length_blockField (block : List UInt8) (start count : Nat) :
    (blockField block start count).length = count := by
  rw [blockField, List.length_map, List.length_range]

/-- `blockField` is what stands in the block at its place. -/
theorem blockField_append {before field rest : List UInt8} {start count : Nat}
    (hstart : before.length = start) (hcount : field.length = count) :
    blockField (before ++ (field ++ rest)) start count = field := by
  subst hstart hcount
  apply List.ext_getElem (length_blockField _ _ _)
  intro i _ hfield
  simp only [blockField, blockByte, List.getElem_map, List.getElem_range,
    List.getD_eq_getElem?_getD]
  rw [List.getElem?_append_right (Nat.le_add_right _ _), Nat.add_sub_cancel_left,
    List.getElem?_append_left hfield, List.getElem?_eq_getElem hfield, Option.getD_some]

/-- Two `blockField`s that meet are one. -/
theorem blockField_add (block : List UInt8) (start count more : Nat) :
    blockField block start (count + more) =
      blockField block start count ++ blockField block (start + count) more := by
  unfold blockField
  rw [List.range_add, List.map_append, List.map_map]
  congr 1
  apply List.map_congr_left
  intro i _
  rw [Function.comp_apply, Nat.add_assoc]

/-- `blockField` reads from `zeroPadded`. -/
theorem blockField_zero (block : List UInt8) {count : Nat} (h : count ≤ 28) :
    blockField block 0 count = (zeroPadded block).take count := by
  apply List.ext_getElem
  · simp [zeroPadded]; omega
  intro i hi _
  rw [length_blockField] at hi
  simp only [blockField, blockByte, zeroPadded, List.getElem_map, List.getElem_range,
    List.getElem_take, List.getD_eq_getElem?_getD, Nat.zero_add]
  rw [List.getElem_append]
  split
  · next hinside => rw [List.getElem?_eq_getElem hinside, Option.getD_some]
  · next houtside =>
      rw [List.getElem?_eq_none (Nat.le_of_not_lt houtside), Option.getD_none,
        List.getElem_replicate]

/-! ## Reading what was written -/

theorem length_sockaddr (e : Endpoint) : e.sockaddr.length = (specified e).sockaddrSize := by
  cases e with
  | v4 ip port => simp [Endpoint.sockaddr, Ipv4.length_octets, sockaddrSize, family, Endpoint.family]
  | v6 ip port flow scope =>
      simp [Endpoint.sockaddr, Ipv6.length_octets, sockaddrSize, family, Endpoint.family]

/-- `sockaddr` starts with the number of the family. -/
theorem take_sockaddr (e : Endpoint) :
    (ofLittleEndian (e.sockaddr.take 2) : Int) = e.family.number := by
  cases e <;> rfl

theorem blockFamily_sockaddr (e : Endpoint) : (blockFamily e.sockaddr : Int) = e.family.number := by
  cases e <;> rfl

/-- **`ofBlock` inverts `Endpoint.sockaddr`.** -/
theorem ofBlock_sockaddr (e : Endpoint) : ofBlock e.sockaddr e.family = specified e := by
  cases e with
  | v4 ip port =>
      have hblock : (Endpoint.v4 ip port).sockaddr = littleEndian 2 2 ++
          (bigEndian 2 port.toNat ++ (ip.octets ++ List.replicate 8 0)) := by
        simp only [Endpoint.sockaddr, List.append_assoc]
      have hport : blockPort (Endpoint.v4 ip port).sockaddr = port := by
        rw [blockPort, hblock, blockField_append (by simp) (by simp), ofBigEndian_word]
      have hip : blockField (Endpoint.v4 ip port).sockaddr 4 4 = ip.octets := by
        rw [hblock, ← List.append_assoc, blockField_append (by simp) (Ipv4.length_octets ip)]
      show specified (.v4 (Ipv4.ofBytes fun i => blockByte _ (4 + i)) (blockPort _)) = _
      rw [hport, Ipv4.ofBytes_of_octets hip]
  | v6 ip port flow scope =>
      have hblock : (Endpoint.v6 ip port flow scope).sockaddr = littleEndian 2 10 ++
          (bigEndian 2 port.toNat ++ (littleEndian 4 flow.toNat ++ (ip.octets ++
            (littleEndian 4 scope.toNat ++ [])))) := by
        simp only [Endpoint.sockaddr, List.append_assoc, List.append_nil]
      have hport : blockPort (Endpoint.v6 ip port flow scope).sockaddr = port := by
        rw [blockPort, hblock, blockField_append (by simp) (by simp), ofBigEndian_word]
      have hflow : blockWord (Endpoint.v6 ip port flow scope).sockaddr 4 = flow := by
        rw [blockWord, hblock, ← List.append_assoc, blockField_append (by simp) (by simp),
          ofLittleEndian_word]
      have hip : blockField (Endpoint.v6 ip port flow scope).sockaddr 8 16 = ip.octets := by
        rw [hblock, ← List.append_assoc, ← List.append_assoc,
          blockField_append (by simp) (Ipv6.length_octets ip)]
      have hscope : blockWord (Endpoint.v6 ip port flow scope).sockaddr 24 = scope := by
        rw [blockWord, hblock, ← List.append_assoc, ← List.append_assoc, ← List.append_assoc,
          blockField_append (by simp [Ipv6.length_octets]) (by simp), ofLittleEndian_word]
      show specified (.v6 (Ipv6.ofBytes fun i => blockByte _ (8 + i)) (blockPort _) (blockWord _ 4)
        (blockWord _ 24)) = _
      rw [hport, hflow, hscope, Ipv6.ofBytes_of_octets hip]

/-- `ofSockaddr` inverts `sockaddr?`. -/
theorem ofSockaddr_sockaddr (a : Address) : ofSockaddr a.sockaddr? = .ok a := by
  cases a with
  | unspecified => rfl
  | specified e =>
      have hfamily := Family.ofNumber_eq_ok_iff.mpr (blockFamily_sockaddr e)
      show (Family.ofNumber (blockFamily e.sockaddr)).map (ofBlock e.sockaddr) = _
      rw [hfamily, Except.map, ofBlock_sockaddr]

/-! ## Writing what was read -/

variable {block : List UInt8}

/-- The family number is written back as the first two bytes. -/
theorem littleEndian_blockFamily (block : List UInt8) :
    littleEndian 2 (blockFamily block) = blockField block 0 2 := by
  have h := littleEndian_ofLittleEndian (blockField block 0 2)
  rwa [length_blockField] at h

/-- `sockaddr?` after `ofBlock` keeps eight bytes of an IPv4 block, with zeros behind them. -/
theorem sockaddr_ofBlock_ipv4 (hfamily : blockFamily block = 2) :
    (ofBlock block .ipv4).sockaddr? = some (blockField block 0 8 ++ List.replicate 8 0) := by
  have hnumber : littleEndian 2 2 = blockField block 0 2 := by
    rw [← littleEndian_blockFamily, hfamily]
  have hport : bigEndian 2 (blockPort block).toNat = blockField block 2 2 :=
    bigEndian_word (length_blockField _ _ _)
  have hip : (Ipv4.ofBytes fun i => blockByte block (4 + i)).octets = blockField block 4 4 :=
    Ipv4.octets_ofBytes _
  have hslices : blockField block 0 8 =
      blockField block 0 2 ++ blockField block 2 2 ++ blockField block 4 4 := by
    rw [← blockField_add block 0 2 2, ← blockField_add block 0 4 4]
  show some (littleEndian 2 2 ++ bigEndian 2 (blockPort block).toNat ++ _ ++ _) = _
  rw [hnumber, hport, hip, hslices]

/-- `sockaddr?` after `ofBlock` keeps 28 bytes of an IPv6 block. -/
theorem sockaddr_ofBlock_ipv6 (hfamily : blockFamily block = 10) :
    (ofBlock block .ipv6).sockaddr? = some (blockField block 0 28) := by
  have hnumber : littleEndian 2 10 = blockField block 0 2 := by
    rw [← littleEndian_blockFamily, hfamily]
  have hport : bigEndian 2 (blockPort block).toNat = blockField block 2 2 :=
    bigEndian_word (length_blockField _ _ _)
  have hflow : littleEndian 4 (blockWord block 4).toNat = blockField block 4 4 :=
    littleEndian_word (length_blockField _ _ _)
  have hip : (Ipv6.ofBytes fun i => blockByte block (8 + i)).octets = blockField block 8 16 :=
    Ipv6.octets_ofBytes _
  have hscope : littleEndian 4 (blockWord block 24).toNat = blockField block 24 4 :=
    littleEndian_word (length_blockField _ _ _)
  have hslices : blockField block 0 28 = blockField block 0 2 ++ blockField block 2 2 ++
      blockField block 4 4 ++ blockField block 8 16 ++ blockField block 24 4 := by
    rw [← blockField_add block 0 2 2, ← blockField_add block 0 4 4, ← blockField_add block 0 8 16,
      ← blockField_add block 0 24 4]
  show some (littleEndian 2 10 ++ bigEndian 2 (blockPort block).toNat ++
    littleEndian 4 (blockWord block 4).toNat ++ _ ++ littleEndian 4 (blockWord block 24).toNat) = _
  rw [hnumber, hport, hflow, hip, hscope, hslices]

/-- What `ofSockaddr` makes of a block with family `number`, and what `sockaddr?` then writes. -/
structure BlockReads (block : List UInt8) (number : Nat) : Prop where
  accepted : (∃ a, ofSockaddr (some block) = .ok a) ↔ number = 0 ∨ number = 2 ∨ number = 10
  refused : ∀ e, ofSockaddr (some block) = .error e → e = .unsupportedFamily number
  unspecified : number = 0 → ofSockaddr (some block) = .ok .unspecified
  ipv4 : number = 2 → ∃ a, ofSockaddr (some block) = .ok a ∧
    a.sockaddr? = some ((zeroPadded block).take 8 ++ List.replicate 8 0)
  ipv6 : number = 10 → ∃ a, ofSockaddr (some block) = .ok a ∧
    a.sockaddr? = some ((zeroPadded block).take 28)

theorem ofSockaddr_some (family : Family) (h : (blockFamily block : Int) = family.number) :
    ofSockaddr (some block) = .ok (ofBlock block family) := by
  show (Family.ofNumber (blockFamily block)).map (ofBlock block) = _
  rw [Family.ofNumber_eq_ok_iff.mpr h]
  rfl

/-- `ofSockaddr` refuses any other family, with its number. -/
theorem ofSockaddr_refused (h : ¬(blockFamily block = 0 ∨ blockFamily block = 2 ∨
    blockFamily block = 10)) :
    ofSockaddr (some block) = .error (.unsupportedFamily (blockFamily block)) := by
  have hnumber : Family.ofNumber (blockFamily block) =
      .error (.unsupportedFamily (blockFamily block)) := by
    unfold Family.ofNumber
    rw [if_neg (by omega), if_neg (by omega), if_neg (by omega)]
  show (Family.ofNumber (blockFamily block)).map (ofBlock block) = _
  rw [hnumber]
  rfl

/-- `ofSockaddr` accepts the three families. -/
theorem exists_ofSockaddr (h : blockFamily block = 0 ∨ blockFamily block = 2 ∨
    blockFamily block = 10) : ∃ a, ofSockaddr (some block) = .ok a := by
  rcases h with h | h | h
  · exact ⟨_, ofSockaddr_some .unspecified (by rw [h]; rfl)⟩
  · exact ⟨_, ofSockaddr_some .ipv4 (by rw [h]; rfl)⟩
  · exact ⟨_, ofSockaddr_some .ipv6 (by rw [h]; rfl)⟩

/-- **`ofSockaddr` goes by the family number, and keeps the fields of the family.** -/
theorem blockReads (block : List UInt8) : BlockReads block (blockFamily block) where
  accepted := by
    refine ⟨fun ⟨a, ha⟩ => Decidable.byContradiction fun hother => ?_, exists_ofSockaddr⟩
    rw [ofSockaddr_refused hother] at ha
    cases ha
  refused e he := by
    by_cases hknown : blockFamily block = 0 ∨ blockFamily block = 2 ∨ blockFamily block = 10
    · obtain ⟨a, ha⟩ := exists_ofSockaddr hknown
      rw [ha] at he
      cases he
    · rw [ofSockaddr_refused hknown] at he
      cases he
      rfl
  unspecified h := ofSockaddr_some .unspecified (by rw [h]; rfl)
  ipv4 h := by
    refine ⟨_, ofSockaddr_some .ipv4 (by rw [h]; rfl), ?_⟩
    rw [sockaddr_ofBlock_ipv4 h, blockField_zero block (by decide)]
  ipv6 h := by
    refine ⟨_, ofSockaddr_some .ipv6 (by rw [h]; rfl), ?_⟩
    rw [sockaddr_ofBlock_ipv6 h, blockField_zero block (by decide)]

/-! ## All addresses and all blocks -/

/-- **Nothing is lost between an address, its block and its endpoint.** `ofSockaddr` inverts `sockaddr?`,
    which has a block unless the address is `unspecified`; the block has `sockaddrSize` bytes and starts
    with the number of the family. A block is read if its family is one of the three, whatever its other
    bytes, and is written again as far as its family has fields (`BlockReads`). An address has an endpoint
    unless it is `unspecified`, and is the address of that endpoint. -/
theorem sockaddr_roundTrip (a : Address) (block : List UInt8) (e : Endpoint) :
    (ofSockaddr a.sockaddr? = .ok a ∧ (a.sockaddr? = none ↔ a = .unspecified)) ∧
    (∀ written, a.sockaddr? = some written → written.length = a.sockaddrSize ∧
      (ofLittleEndian (written.take 2) : Int) = a.family.number) ∧
    BlockReads block (ofLittleEndian ((zeroPadded block).take 2)) ∧
    (toEndpoint (specified e) = .ok e ∧ (∀ e', a.toEndpoint = .ok e' → specified e' = a) ∧
      ∀ error, a.toEndpoint = .error error ↔
        a = .unspecified ∧ error = .undefinedFor .unspecified) := by
  refine ⟨⟨ofSockaddr_sockaddr a, ?_⟩, ?_, ?_, rfl, ?_, ?_⟩
  · cases a with
    | unspecified => exact ⟨fun _ => rfl, fun _ => rfl⟩
    | specified e => constructor <;> (intro h; cases h)
  · intro written hwritten
    cases a with
    | unspecified => cases hwritten
    | specified e =>
        cases hwritten
        exact ⟨length_sockaddr e, take_sockaddr e⟩
  · have hnumber := blockField_zero block (show 2 ≤ 28 by decide)
    rw [← hnumber]
    exact blockReads block
  · intro e' he'
    cases a with
    | unspecified => cases he'
    | specified e => cases he'; rfl
  · intro error
    cases a with
    | unspecified =>
        constructor
        · intro h
          cases h
          exact ⟨rfl, rfl⟩
        · rintro ⟨-, rfl⟩
          rfl
    | specified e =>
        constructor
        · intro h
          cases h
        · rintro ⟨h, -⟩
          cases h

/-- All fields in use, and a block of IPv4 with seventeen bytes, of which eight are kept. -/
theorem sockaddr_roundTrip_scoped :
    let a := specified (.v6 (Ipv6.ofIpv4 ⟨192, 0, 2, 7⟩) 443 0x01020304 3)
    let written : List UInt8 := [10, 0, 1, 187, 4, 3, 2, 1, 0, 0, 0, 0, 0, 0, 0, 0, 0, 0, 255, 255, 192, 0,
      2, 7, 3, 0, 0, 0]
    a.sockaddr? = some written ∧ ofSockaddr (some written) = .ok a ∧ written.length = 28 ∧
    ∃ b, ofSockaddr (some [2, 0, 0, 80, 127, 0, 0, 1, 9, 9, 9, 9, 9, 9, 9, 9, 9]) = .ok b ∧
      b.sockaddr? = some [2, 0, 0, 80, 127, 0, 0, 1, 0, 0, 0, 0, 0, 0, 0, 0] := by
  intro a written
  obtain ⟨⟨hread, -⟩, hwritten, hblock, -⟩ := sockaddr_roundTrip a
    [2, 0, 0, 80, 127, 0, 0, 1, 9, 9, 9, 9, 9, 9, 9, 9, 9] (.v4 Ipv4.zero 0)
  have hbytes : a.sockaddr? = some written := by decide
  rw [hbytes] at hread
  exact ⟨hbytes, hread, (hwritten written hbytes).1, hblock.ipv4 (by decide)⟩

end Address

end NetKit
