import NetKit.Address.Order
import NetKit.Proofs.Address.Faults
import NetKit.Proofs.Address.RoundTrip

/-!
# IPv4-mapped addresses — IPv4 within IPv6, in numbers, in order and in text

`Ipv6.ofIpv4` keeps everything that an IPv4 address has. As a number it is the IPv4 address above a fixed
offset, so that mapped addresses are ordered as the addresses they come from. As a text it is the dotted quad
in a fixed frame, so that whatever can be written behind the one as a port can be written behind the other.

The second half is about what `Address.parse` accepts, not only about what is printed. A dotted quad and a colon
are the start of no IPv6 address (`Ipv6.ofText?_ipv4_colon`), hence a text that starts like this and is
accepted has a port behind the colon and nothing else.

## Contents
- `Ipv6.value_ofIpv4`, `Ipv6.text_ofIpv4`, `Ipv6.ofText?_mapped`: the mapped form of an IP address.
- `Address.compare_mapped`: the order of mapped addresses.
- `mappedLiteral`, `Spelled.of_ipv4_colon`: how mapped addresses are written.
- `Address.MappedForm`, `Address.toIpv6_faithful`: IPv4 addresses as IPv6 addresses.
-/

namespace NetKit

/-! ## Mapped IP addresses -/

namespace Ipv6

/-- `ofIpv4` adds a fixed offset to the value. -/
theorem value_ofIpv4 (ip : Ipv4) : (ofIpv4 ip).value = 0xffff * 2 ^ 32 + ip.value := by
  have ha := ip.a.toNat_lt
  have hb := ip.b.toNat_lt
  have hc := ip.c.toNat_lt
  have hd := ip.d.toNat_lt
  have hhead : mappedHead.foldl (fun n g => n * 65536 + g.toNat) 0 = 0xffff := by decide
  have hhigh : (UInt16.ofNat (ip.a.toNat * 256 + ip.b.toNat)).toNat = ip.a.toNat * 256 + ip.b.toNat := by
    rw [UInt16.toNat_ofNat']
    omega
  have hlow : (UInt16.ofNat (ip.c.toNat * 256 + ip.d.toNat)).toNat = ip.c.toNat * 256 + ip.d.toNat := by
    rw [UInt16.toNat_ofNat']
    omega
  have hvalue : ip.value = ip.d.toNat + 256 * (ip.c.toNat + 256 * (ip.b.toNat + 256 * (ip.a.toNat +
      256 * 0))) := rfl
  unfold value ofIpv4
  rw [List.foldl_append, hhead, hvalue]
  simp only [Ipv4.groups, List.foldl_cons, List.foldl_nil, hhigh, hlow]
  omega

theorem ofIpv4_injective {ip ip' : Ipv4} (h : ofIpv4 ip = ofIpv4 ip') : ip = ip' := by
  have hembedded := congrArg embedded? h
  rw [embedded_ofIpv4, embedded_ofIpv4] at hembedded
  exact Option.some.inj hembedded

theorem text_ofIpv4 (ip : Ipv4) : (ofIpv4 ip).text = "::ffff:".toList ++ ip.text := by
  unfold text
  rw [embedded_ofIpv4]

/-- `Ipv6.ofText?` reads a dotted quad behind `::ffff:` as `ofIpv4`. -/
theorem ofText?_mapped {quad : Text} {ip : Ipv4} (h : Ipv4.ofText? quad = some ip) :
    ofText? ("::ffff:".toList ++ quad) = some (ofIpv4 ip) := by
  rw [Ipv4.ofText?_eq_some_iff.mp h, ← text_ofIpv4]
  exact ofText?_text (ofIpv4 ip)

/-- A dotted quad with a colon behind it is no start of an IPv6 address. -/
theorem ofText?_ipv4_colon (ip : Ipv4) (t : Text) : ofText? (ip.text ++ ':' :: t) = none := by
  -- it is two groups of eight, and an IPv4 address cannot stand before `::`
  have hread : Ipv4.read? (ip.text ++ ':' :: t) = some (ip, ':' :: t) := ip.read?_text rfl
  have hrun : readGroups 8 true (ip.text ++ ':' :: t) = ⟨ip.groups, true, ':' :: t⟩ :=
    readGroups_ipv4 rfl (by rw [if_pos (by decide), hread])
  have hlength : ip.groups.length ≠ 8 := by
    show (2 : Nat) ≠ 8
    decide
  unfold ofText? readAllGroups?
  simp only [hrun]
  rw [if_neg hlength, if_pos trivial]

end Ipv6

/-! ## The order of mapped addresses -/

/-- A common offset does not count in the order. -/
theorem compare_add_left (n i j : Nat) : Ord.compare (n + i) (n + j) = Ord.compare i j := by
  simp only [Nat.compare_eq_ite_lt, Nat.add_lt_add_iff_left]

/-- `compare` of mapped addresses is that of the addresses they come from. -/
theorem Address.compare_mapped (ip ip' : Ipv4) (port port' : UInt16) :
    compare (.specified (.v6 (Ipv6.ofIpv4 ip) port 0 0)) (.specified (.v6 (Ipv6.ofIpv4 ip') port' 0 0)) =
      compare (.specified (.v4 ip port)) (.specified (.v4 ip' port')) := by
  have hkey : ∀ ip port, (specified (.v4 ip port)).key = [1, ip.value, port.toNat, 0, 0] :=
    fun _ _ => rfl
  have hmapped : ∀ ip port, (specified (.v6 ip port 0 0)).key = [2, ip.value, port.toNat, 0, 0] :=
    fun _ _ => rfl
  unfold compare
  simp only [hkey, hmapped, Ipv6.value_ofIpv4, List.compare_cons_cons, compare_add_left]
  rfl

/-! ## Mapped addresses in texts -/

/-- `[::ffff:quad]`. -/
def mappedLiteral (quad : Text) : Text := "[::ffff:".toList ++ quad ++ [']']

theorem mappedLiteral_append (quad suffix : Text) :
    mappedLiteral quad ++ suffix = '[' :: ("::ffff:".toList ++ quad ++ ']' :: suffix) := by
  unfold mappedLiteral
  rw [List.append_assoc]
  rfl

/-- What may follow an IPv4 literal may follow its `mappedLiteral`. -/
theorem spelled_mappedLiteral {quad suffix : Text} {ip : Ipv4} {port : Option UInt16}
    (h : Ipv4.ofText? quad = some ip) (hport : PortSuffix suffix port) :
    Spelled (mappedLiteral quad ++ suffix) (.v6 (Ipv6.ofIpv4 ip) none port) := by
  rw [mappedLiteral_append]
  exact .bracketed (Ipv6.ofText?_mapped h) hport

/-- An IPv4 literal with a colon behind it does not start with an IPv6 literal and `%`. -/
theorem ipv6_not_before_colon {quad host t rest : Text} {ip : Ipv4} {ip' : Ipv6}
    (h : Ipv4.ofText? quad = some ip) (hhost : Ipv6.ofText? host = some ip')
    (htext : host ++ '%' :: rest = quad ++ ':' :: t) : False := by
  have hpercent : '%' ∉ quad := not_mem_ipv4 h (by decide) (by decide)
  rcases List.append_eq_append_iff.mp htext with ⟨more, hmore, hrest⟩ | ⟨more, hmore, hrest⟩
  · -- the literal ends within the quad, and what follows it in the quad starts with `%`
    cases more with
    | nil => exact absurd (List.cons.inj hrest).1 (by decide)
    | cons c more =>
        rw [hmore, ← (List.cons.inj hrest).1] at hpercent
        exact hpercent (by simp)
  · cases more with
    | nil => exact absurd (List.cons.inj hrest).1 (by decide)
    | cons c more =>
        rw [hmore, ← (List.cons.inj hrest).1, Ipv4.ofText?_eq_some_iff.mp h,
          Ipv6.ofText?_ipv4_colon] at hhost
        cases hhost

/-- An IPv4 literal does not start with a bracket. -/
theorem bracket_not_before_colon {quad t rest : Text} {ip : Ipv4} (h : Ipv4.ofText? quad = some ip)
    (htext : '[' :: rest = quad ++ ':' :: t) : False := by
  have hbracket : '[' ∉ quad := not_mem_ipv4 h (by decide) (by decide)
  cases quad with
  | nil => exact absurd (List.cons.inj htext).1 (by decide)
  | cons c quad =>
      rw [← (List.cons.inj htext).1] at hbracket
      exact hbracket (List.mem_cons_self ..)

/-- **Behind an IPv4 literal and a colon only a port is accepted.** -/
theorem Spelled.of_ipv4_colon {quad p : Text} {ip : Ipv4} {s : Spelling}
    (h : Ipv4.ofText? quad = some ip) (hs : Spelled (quad ++ ':' :: p) s) :
    ∃ port, s = .v4 ip (some port) ∧ PortSuffix (':' :: p) (some port) := by
  have hcolon : ∀ {host : Text} {ip : Ipv4}, Ipv4.ofText? host = some ip → ':' ∉ host := fun hip =>
    not_mem_ipv4 hip (by decide) (by decide)
  generalize htext : quad ++ ':' :: p = t at hs
  cases hs with
  | @v4 host suffix ip' port hip hport =>
      cases hport with
      | absent =>
          rw [List.append_nil] at htext
          rw [← htext] at hip
          exact absurd (by simp) (hcolon hip)
      | written hnumber hrange =>
          obtain ⟨rfl, rfl⟩ := eq_of_first_mark htext (hcolon h) (hcolon hip)
          obtain rfl : ip = ip' := Option.some.inj (h.symm.trans hip)
          exact ⟨_, rfl, .written hnumber hrange⟩
  | bare hip =>
      rw [← htext, Ipv4.ofText?_eq_some_iff.mp h, Ipv6.ofText?_ipv4_colon] at hip
      cases hip
  | bareScoped hip => exact (ipv6_not_before_colon h hip htext.symm).elim
  | bracketed => exact (bracket_not_before_colon h htext.symm).elim
  | innerScoped => exact (bracket_not_before_colon h htext.symm).elim
  | outerScoped => exact (bracket_not_before_colon h htext.symm).elim

namespace Address

/-- `parse` reads an IPv4 literal and its `mappedLiteral`, with the same text behind them, as an address and
    its mapped form. -/
theorem parse_mappedLiteral {quad suffix : Text} {ip : Ipv4} {port : Option UInt16}
    (h : Ipv4.ofText? quad = some ip) (hport : PortSuffix suffix port) (interfaces : Interfaces)
    (d : UInt16) :
    parse interfaces (quad ++ suffix) d = .quiet (.ok (.specified (.v4 ip (port.getD d)))) ∧
      parse interfaces (mappedLiteral quad ++ suffix) d =
        .quiet (.ok (.specified (.v6 (Ipv6.ofIpv4 ip) (port.getD d) 0 0))) := by
  constructor
  · rw [parse_of_spelled (.v4 h hport)]
    rfl
  · rw [parse_of_spelled (spelled_mappedLiteral h hport)]
    rfl

/-! ## IPv4 addresses as IPv6 addresses -/

/-- `m` is `a`, which is of IPv4, within IPv6: the port and the text of the port are those of `a`, the
    literal has the dotted quad of `a`, and `m` is no special address. -/
structure MappedForm (a m : Address) : Prop where
  family : m.family = .ipv6
  port : m.port = a.port
  scope : m.scope = 0
  flow : m.flow = 0
  ip : ∃ ip, a.ip? = some (.v4 ip) ∧ m.ip? = some (.v6 (Ipv6.ofIpv4 ip))
  text : ∃ (ip : Ipv4) (rest : Text), a.ip? = some (.v4 ip) ∧ a.text = ip.text ++ rest ∧
    m.text = mappedLiteral ip.text ++ rest ∧ (rest = [] ∨ ∃ p, rest = ':' :: p)
  notWildcard : m.isWildcard = false
  notLoopback : m.isLoopback = false
  notMulticast : m.isMulticast = false

/-- The sixth group tells a mapped address from the special addresses. -/
theorem ofIpv4_ne (ip : Ipv4) (ip' : Ipv6) (h : ip'.groups[5]? ≠ some 0xffff) :
    Ipv6.ofIpv4 ip ≠ ip' := by
  rintro rfl
  exact h rfl

theorem mappedForm_v4 (ip : Ipv4) (port : UInt16) :
    MappedForm (.specified (.v4 ip port)) (.specified (.v6 (Ipv6.ofIpv4 ip) port 0 0)) where
  family := rfl
  port := rfl
  scope := rfl
  flow := rfl
  ip := ⟨ip, rfl, rfl⟩
  text := by
    refine ⟨ip, markedUnlessZero ':' port.toNat, rfl, rfl, ?_, ?_⟩
    · show '[' :: (Ipv6.ofIpv4 ip).text ++ ']' :: [] ++ markedUnlessZero ':' port.toNat = _
      rw [Ipv6.text_ofIpv4]
      rfl
    · unfold markedUnlessZero
      split
      · exact .inl rfl
      · exact .inr ⟨_, rfl⟩
  notWildcard := decide_eq_false (ofIpv4_ne ip Ipv6.zero (by decide))
  notLoopback := decide_eq_false (ofIpv4_ne ip Ipv6.loopback (by decide))
  notMulticast := rfl

theorem eq_v4_of_family {a : Address} (h : a.family = .ipv4) :
    ∃ ip port, a = .specified (.v4 ip port) := by
  cases a with
  | unspecified => cases h
  | specified e =>
      cases e with
      | v4 ip port => exact ⟨ip, port, rfl⟩
      | v6 => cases h

/-- `toIpv6` fails on `unspecified` only. -/
theorem exists_toIpv6_eq_error_iff (a : Address) :
    (∃ error, a.toIpv6 = .error error) ↔ a = .unspecified := by
  cases a with
  | unspecified => exact ⟨fun _ => rfl, fun _ => ⟨_, rfl⟩⟩
  | specified e =>
      have hok : ∃ m, (specified e).toIpv6 = .ok m := by cases e <;> exact ⟨_, rfl⟩
      obtain ⟨m, hm⟩ := hok
      rw [hm]
      simp

/-- `toIpv6` is idempotent. -/
theorem toIpv6_toIpv6 {a m : Address} (h : a.toIpv6 = .ok m) : m.toIpv6 = .ok m := by
  cases a with
  | unspecified => cases h
  | specified e =>
      cases e with
      | v4 => cases h; rfl
      | v6 => cases h; rfl

/-- `toIpv6` preserves `compare` on IPv4 addresses, and is injective there. -/
theorem compare_toIpv6 {a b m n : Address} (ha : a.family = .ipv4) (hb : b.family = .ipv4)
    (hm : a.toIpv6 = .ok m) (hn : b.toIpv6 = .ok n) :
    compare m n = compare a b ∧ (m = n → a = b) := by
  obtain ⟨ip, port, rfl⟩ := eq_v4_of_family ha
  obtain ⟨ip', port', rfl⟩ := eq_v4_of_family hb
  cases hm
  cases hn
  refine ⟨compare_mapped ip ip' port port', fun h => ?_⟩
  simp only [specified.injEq, Endpoint.v6.injEq] at h
  rw [Ipv6.ofIpv4_injective h.1, h.2.1]

/-- What `parse` accepts behind an IPv4 literal and a colon it accepts behind the `mappedLiteral`. -/
theorem parse_mappedLiteral_colon {quad p : Text} {ip : Ipv4} {interfaces : Interfaces} {d : UInt16}
    {a : Address} (h : Ipv4.ofText? quad = some ip)
    (ha : (parse interfaces (quad ++ ':' :: p) d).value = .ok a) :
    ∃ m, a.family = .ipv4 ∧ a.toIpv6 = .ok m ∧
      parse interfaces (mappedLiteral quad ++ ':' :: p) d = .quiet (.ok m) := by
  obtain ⟨s, hspelled, -⟩ := spelled_of_parse ha
  obtain ⟨port, -, hport⟩ := hspelled.of_ipv4_colon h
  obtain ⟨hplain, hmapped⟩ := parse_mappedLiteral h hport interfaces d
  rw [hplain] at ha
  cases ha
  exact ⟨_, rfl, rfl, hmapped⟩

/-- **IPv4 addresses keep what they are within IPv6.** `toIpv6` gives an IPv4 address its `MappedForm`,
    which keeps the port, the order and, around its dotted quad, the text. Of every IPv4 literal and every
    text behind it that is accepted, the `mappedLiteral` with the same text behind it denotes the mapped
    form of the same address. Only the `unspecified` address has no IPv6 form, and an address in its IPv6
    form stays as it is. -/
theorem toIpv6_faithful :
    (∀ a : Address, a.family = .ipv4 → ∃ m, a.toIpv6 = .ok m ∧ MappedForm a m) ∧
    (∀ a b m n : Address, a.family = .ipv4 → b.family = .ipv4 → a.toIpv6 = .ok m → b.toIpv6 = .ok n →
      compare m n = compare a b ∧ (m = n → a = b)) ∧
    (∀ (interfaces : Interfaces) (quad : Text) (ip : Ipv4) (d : UInt16),
      Ipv4.ofText? quad = some ip →
        (∃ a m, parse interfaces quad d = .quiet (.ok a) ∧ a.family = .ipv4 ∧ a.toIpv6 = .ok m ∧
          parse interfaces (mappedLiteral quad) d = .quiet (.ok m)) ∧
        ∀ p a, (parse interfaces (quad ++ ':' :: p) d).value = .ok a →
          ∃ m, a.family = .ipv4 ∧ a.toIpv6 = .ok m ∧
            parse interfaces (mappedLiteral quad ++ ':' :: p) d = .quiet (.ok m)) ∧
    (∀ a : Address, (∃ error, a.toIpv6 = .error error) ↔ a = .unspecified) ∧
    (∀ a m : Address, a.toIpv6 = .ok m → m.toIpv6 = .ok m) := by
  refine ⟨?_, ?_, ?_, exists_toIpv6_eq_error_iff, fun a m => toIpv6_toIpv6⟩
  · intro a ha
    obtain ⟨ip, port, rfl⟩ := eq_v4_of_family ha
    exact ⟨_, rfl, mappedForm_v4 ip port⟩
  · intro a b m n ha hb hm hn
    exact compare_toIpv6 ha hb hm hn
  · intro interfaces quad ip d h
    constructor
    · have hparse := parse_mappedLiteral h .absent interfaces d
      rw [List.append_nil, List.append_nil] at hparse
      exact ⟨_, _, hparse.1, rfl, rfl, hparse.2⟩
    · intro p a ha
      exact parse_mappedLiteral_colon h ha

/-- A port with a blank, a sign and in hexadecimal behind an IPv4 literal and behind its `mappedLiteral`,
    and the order of two mapped addresses. -/
theorem toIpv6_faithful_hexPort :
    MappedForm (.specified (.v4 ⟨10, 0, 0, 1⟩ 53))
        (.specified (.v6 (Ipv6.ofIpv4 ⟨10, 0, 0, 1⟩) 53 0 0)) ∧
      compare (.specified (.v6 (Ipv6.ofIpv4 ⟨9, 255, 0, 0⟩) 80 0 0))
        (.specified (.v6 (Ipv6.ofIpv4 ⟨10, 0, 0, 1⟩) 53 0 0)) = .lt ∧
      parse .loopbackOnly "[::ffff:10.0.0.1]: +0x35".toList 99 =
        .quiet (.ok (.specified (.v6 (Ipv6.ofIpv4 ⟨10, 0, 0, 1⟩) 53 0 0))) := by
  obtain ⟨hform, horder, hparse, -, -⟩ := toIpv6_faithful
  refine ⟨?_, ?_, ?_⟩
  · obtain ⟨m, hm, h⟩ := hform (.specified (.v4 ⟨10, 0, 0, 1⟩ 53)) rfl
    cases hm
    exact h
  · exact (horder (.specified (.v4 ⟨9, 255, 0, 0⟩ 80)) (.specified (.v4 ⟨10, 0, 0, 1⟩ 53)) _ _ rfl rfl
      rfl rfl).1
  · obtain ⟨m, -, hm, h⟩ := (hparse .loopbackOnly "10.0.0.1".toList ⟨10, 0, 0, 1⟩ 99 rfl).2
      " +0x35".toList (.specified (.v4 ⟨10, 0, 0, 1⟩ 53)) rfl
    cases hm
    exact h

end Address

end NetKit
