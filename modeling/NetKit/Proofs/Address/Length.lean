import NetKit.Proofs.Address.Faults

/-!
# Length limits — they decide which fault is reported, and nothing else

`Spelling.ofLayout` checks the length of a host before anything else about it. `maxIpv4Length` and
`maxIpv6Length` are the lengths of the longest IP addresses of the two families, in bytes, so a host over the
limit is no IP address, whatever characters it has (`Layout.ofText?_eq_none_of_tooLong`).

The reader without the check is written down as a reader of its own: `Address.parseWith` takes what reads
the parts of a text as a parameter, so that the two readers differ in the check alone.

## Contents
- `Address.parseWith`: the reader of addresses with any reader of layouts.
- `Spelling.ofLayoutUnlimited`, `Spelling.ofLayout_eq_if`: the parts without the check, and with it.
- `Address.parseUnlimited`: the reader without the check.
- `Address.length_limits_reject_no_address`: what the check does.
-/

namespace NetKit

/-! ## The reader of addresses over a reader of layouts -/

namespace Address

/-- `Address.parse` with `read` for `Spelling.ofLayout`. -/
def parseWith (read : Layout → Except AddressFault Spelling) (interfaces : Interfaces) (t : Text)
    (defaultPort : UInt16) : Logged (Except AddressError Address) :=
  match Layout.ofText t with
  | .error fault => .quiet (.error ⟨fault, t⟩)
  | .ok layout =>
    match read layout with
    | .error fault => .quiet (.error ⟨fault, t⟩)
    | .ok spelling =>
      (spelling.resolve interfaces defaultPort).map fun
        | .error fault => .error ⟨fault, t⟩
        | .ok a => .ok a

variable {interfaces : Interfaces} {t : Text} {defaultPort : UInt16}

theorem parse_eq_parseWith :
    parse interfaces t defaultPort = parseWith Spelling.ofLayout interfaces t defaultPort := by
  unfold parse parseWith Spelling.ofText
  cases Layout.ofText t with
  | error fault => rfl
  | ok layout => rfl

/-- `parseWith` depends on `read` for the layout of the text only. -/
theorem parseWith_congr {read read' : Layout → Except AddressFault Spelling} {layout : Layout}
    (hlayout : Layout.ofText t = .ok layout) (h : read layout = read' layout) :
    parseWith read interfaces t defaultPort = parseWith read' interfaces t defaultPort := by
  unfold parseWith
  simp only [hlayout, h]

theorem parseWith_of_error {read : Layout → Except AddressFault Spelling} {layout : Layout}
    {fault : AddressFault} (hlayout : Layout.ofText t = .ok layout) (h : read layout = .error fault) :
    parseWith read interfaces t defaultPort = .quiet (.error ⟨fault, t⟩) := by
  unfold parseWith
  simp only [hlayout, h]

theorem parseWith_of_no_layout {read : Layout → Except AddressFault Spelling} {fault : AddressFault}
    (hlayout : Layout.ofText t = .error fault) :
    parseWith read interfaces t defaultPort = .quiet (.error ⟨fault, t⟩) := by
  unfold parseWith
  simp only [hlayout]

end Address

/-! ## The parts without the check -/

namespace Spelling

/-- `ofIpv4Parts` without the check. -/
def ofIpv4PartsUnlimited (host : Text) (port : Option Text) : Except AddressFault Spelling :=
  match Ipv4.ofText? host with
  | none => .error .notAnIpAddress
  | some ip => (readPort? port).map (v4 ip)

/-- `ofIpv6Parts` without the check. -/
def ofIpv6PartsUnlimited (literal : Text) (outerScope port : Option Text) :
    Except AddressFault Spelling :=
  let (host, innerScope) := splitAtFirst '%' literal
  if innerScope.isSome && outerScope.isSome then .error .unexpectedText
  else
    match Ipv6.ofText? host with
    | none => .error .notAnIpAddress
    | some ip => (readPort? port).map (v6 ip (innerScope.or outerScope))

/-- `ofLayout` without the check. -/
def ofLayoutUnlimited : Layout → Except AddressFault Spelling
  | .v4 host port => ofIpv4PartsUnlimited host port
  | .v6 literal outerScope port => ofIpv6PartsUnlimited literal outerScope port

/-- `ofLayout` is the check, and then `ofLayoutUnlimited`. -/
theorem ofLayout_eq_if (layout : Layout) :
    ofLayout layout =
      if layout.parts.maxLength < layout.parts.host.byteLength then .error (.tooLong layout.parts.family)
      else ofLayoutUnlimited layout := by
  cases layout with
  | v4 host port => rfl
  | v6 literal outer port => rfl

end Spelling

/-- A host over the limit is no IP address of its family. -/
theorem Layout.ofText?_eq_none_of_tooLong {layout : Layout}
    (h : layout.parts.maxLength < layout.parts.host.byteLength) :
    (layout.parts.family = .ipv4 ∧ Ipv4.ofText? layout.parts.host = none) ∨
      (layout.parts.family = .ipv6 ∧ Ipv6.ofText? layout.parts.host = none) := by
  cases layout with
  | v4 host port =>
      left
      refine ⟨rfl, Option.eq_none_iff_forall_ne_some.mpr ?_⟩
      intro ip hip
      exact absurd (byteLength_ipv4_le hip) (Nat.not_le.mpr h)
  | v6 literal outer port =>
      right
      refine ⟨rfl, Option.eq_none_iff_forall_ne_some.mpr ?_⟩
      intro ip hip
      exact absurd (byteLength_ipv6_le hip) (Nat.not_le.mpr h)

/-- `ofLayoutUnlimited` fails for a host over the limit, with one of the two faults that come next. -/
theorem Spelling.ofLayoutUnlimited_of_tooLong {layout : Layout}
    (h : layout.parts.maxLength < layout.parts.host.byteLength) :
    ∃ fault, (fault = .unexpectedText ∨ fault = .notAnIpAddress) ∧
      ofLayoutUnlimited layout = .error fault := by
  rcases layout.ofText?_eq_none_of_tooLong h with ⟨hfamily, hip⟩ | ⟨hfamily, hip⟩
  · cases layout with
    | v6 => cases hfamily
    | v4 host port =>
        have hip' : Ipv4.ofText? host = none := hip
        refine ⟨.notAnIpAddress, .inr rfl, ?_⟩
        show ofIpv4PartsUnlimited host port = _
        unfold ofIpv4PartsUnlimited
        rw [hip']
  · cases layout with
    | v4 => cases hfamily
    | v6 literal outer port =>
        have hip' : Ipv6.ofText? (splitAtFirst '%' literal).1 = none := hip
        show ∃ fault, _ ∧ ofIpv6PartsUnlimited literal outer port = _
        unfold ofIpv6PartsUnlimited
        simp only [hip']
        -- a second scope is refused before the host
        split
        · exact ⟨_, .inl rfl, rfl⟩
        · exact ⟨_, .inr rfl, rfl⟩

/-! ## What the check does -/

namespace Address

/-- `Address.parse` without the check. -/
def parseUnlimited : Interfaces → Text → UInt16 → Logged (Except AddressError Address) :=
  parseWith Spelling.ofLayoutUnlimited

variable {interfaces : Interfaces} {t : Text} {defaultPort : UInt16}

/-- What is `tooLong` is the host among the parts of the text. -/
theorem exists_layout_of_tooLong {family : Family} {input : Text}
    (h : (parse interfaces t defaultPort).value = .error ⟨.tooLong family, input⟩) :
    ∃ layout, Layout.ofText t = .ok layout ∧ layout.parts.family = family ∧
      layout.parts.maxLength < layout.parts.host.byteLength := by
  obtain ⟨-, hno | ⟨layout, hlayout, hrefused | ⟨s, -, hscope⟩⟩⟩ := parse_eq_error_iff.mp h
  · -- brackets have faults of their own
    rcases Layout.ofText_eq_error_iff.mp hno with ⟨hfault, -⟩ | ⟨hfault, -⟩
    · cases hfault
    · cases hfault
  · cases ofLayout_eq_error_iff.mp hrefused with
    | tooLong hlength => exact ⟨layout, hlayout, rfl, hlength⟩
  · obtain ⟨_, _, -, -, hfault⟩ := resolve_eq_error_iff.mp hscope
    cases hfault

/-- `parse` and `parseUnlimited` are the same, or both fail. -/
theorem parseUnlimited_eq_or (interfaces : Interfaces) (t : Text) (defaultPort : UInt16) :
    parseUnlimited interfaces t defaultPort = parse interfaces t defaultPort ∨
      ∃ family fault, (fault = .unexpectedText ∨ fault = .notAnIpAddress) ∧
        parse interfaces t defaultPort = .quiet (.error ⟨.tooLong family, t⟩) ∧
        parseUnlimited interfaces t defaultPort = .quiet (.error ⟨fault, t⟩) := by
  rw [parse_eq_parseWith]
  unfold parseUnlimited
  cases hlayout : Layout.ofText t with
  | error fault =>
      left
      rw [parseWith_of_no_layout hlayout, parseWith_of_no_layout hlayout]
  | ok layout =>
      have hcheck := Spelling.ofLayout_eq_if layout
      by_cases hlength : layout.parts.maxLength < layout.parts.host.byteLength
      · rw [if_pos hlength] at hcheck
        right
        obtain ⟨fault, hfault, hread⟩ := Spelling.ofLayoutUnlimited_of_tooLong hlength
        exact ⟨_, fault, hfault, parseWith_of_error hlayout hcheck, parseWith_of_error hlayout hread⟩
      · rw [if_neg hlength] at hcheck
        left
        exact parseWith_congr hlayout hcheck.symm

theorem parseUnlimited_eq_ok_iff {a : Address} :
    (parseUnlimited interfaces t defaultPort).value = .ok a ↔
      (parse interfaces t defaultPort).value = .ok a := by
  rcases parseUnlimited_eq_or interfaces t defaultPort with h | ⟨family, fault, -, hparse, hunlimited⟩
  · rw [h]
  · rw [hparse, hunlimited]
    constructor
    · intro h; cases h
    · intro h; cases h

theorem ipv4_limit_attained (interfaces : Interfaces) (defaultPort : UInt16) :
    ∃ t parts a, Parted t parts ∧ parts.family = .ipv4 ∧ parts.host.byteLength = 15 ∧
      (parse interfaces t defaultPort).value = .ok a := by
  refine ⟨"255.255.255.255".toList, ⟨.ipv4, "255.255.255.255".toList, none, none, none⟩,
    .specified (.v4 ⟨255, 255, 255, 255⟩ defaultPort), ?_, rfl, rfl, ?_⟩
  · exact parted_iff.mpr ⟨.v4 "255.255.255.255".toList none, rfl, rfl⟩
  · rfl

theorem ipv6_limit_attained (interfaces : Interfaces) (defaultPort : UInt16) :
    ∃ t parts a, Parted t parts ∧ parts.family = .ipv6 ∧ parts.host.byteLength = 45 ∧
      (parse interfaces t defaultPort).value = .ok a := by
  refine ⟨"ffff:ffff:ffff:ffff:ffff:ffff:255.255.255.255".toList,
    ⟨.ipv6, "ffff:ffff:ffff:ffff:ffff:ffff:255.255.255.255".toList, none, none, none⟩,
    .specified (.v6 ⟨[0xffff, 0xffff, 0xffff, 0xffff, 0xffff, 0xffff, 0xffff, 0xffff], rfl⟩ defaultPort 0 0),
    ?_, rfl, rfl, ?_⟩
  · exact parted_iff.mpr ⟨.v6 "ffff:ffff:ffff:ffff:ffff:ffff:255.255.255.255".toList none none, rfl, rfl⟩
  · rfl

/-- **The limits on the length reject no address.** What is refused as `tooLong` is the host among the one
    way to take the text apart, and it is no IP address of its family. So `parseUnlimited` accepts the same
    texts as the same addresses; on all others it fails too, and as `parse` does unless the text is too
    long. Both limits are the length of a host that is accepted. -/
theorem length_limits_reject_no_address :
    (∀ (interfaces : Interfaces) (t : Text) (defaultPort : UInt16) (family : Family) (input : Text),
      (parse interfaces t defaultPort).value = .error ⟨.tooLong family, input⟩ →
        ∃ parts, (∀ other, Parted t other ↔ other = parts) ∧ parts.family = family ∧
          parts.maxLength < parts.host.byteLength ∧
          ((family = .ipv4 ∧ Ipv4.ofText? parts.host = none) ∨
            (family = .ipv6 ∧ Ipv6.ofText? parts.host = none))) ∧
    (∀ (interfaces : Interfaces) (t : Text) (defaultPort : UInt16) (a : Address),
      (parseUnlimited interfaces t defaultPort).value = .ok a ↔
        (parse interfaces t defaultPort).value = .ok a) ∧
    (∀ (interfaces : Interfaces) (t : Text) (defaultPort : UInt16),
      parseUnlimited interfaces t defaultPort = parse interfaces t defaultPort ∨
        ∃ family fault, (fault = .unexpectedText ∨ fault = .notAnIpAddress) ∧
          parse interfaces t defaultPort = .quiet (.error ⟨.tooLong family, t⟩) ∧
          parseUnlimited interfaces t defaultPort = .quiet (.error ⟨fault, t⟩)) ∧
    (∀ (interfaces : Interfaces) (defaultPort : UInt16),
      (∃ t parts a, Parted t parts ∧ parts.family = .ipv4 ∧ parts.host.byteLength = 15 ∧
          (parse interfaces t defaultPort).value = .ok a) ∧
        ∃ t parts a, Parted t parts ∧ parts.family = .ipv6 ∧ parts.host.byteLength = 45 ∧
          (parse interfaces t defaultPort).value = .ok a) := by
  refine ⟨?_, fun _ _ _ _ => parseUnlimited_eq_ok_iff, parseUnlimited_eq_or, ?_⟩
  · intro interfaces t defaultPort family input h
    obtain ⟨layout, hlayout, rfl, hlength⟩ := exists_layout_of_tooLong h
    exact ⟨layout.parts, fun _ => parted_iff_of_layout hlayout, rfl, hlength,
      layout.ofText?_eq_none_of_tooLong hlength⟩
  · intro interfaces defaultPort
    exact ⟨ipv4_limit_attained interfaces defaultPort, ipv6_limit_attained interfaces defaultPort⟩

/-- A host of 15 characters and 16 bytes, before a port that does not count. -/
theorem length_limits_reject_no_address_accented :
    (parse .loopbackOnly "255.255.255.25é:80".toList 0).value =
        .error ⟨.tooLong .ipv4, "255.255.255.25é:80".toList⟩ ∧
      ∃ parts, (∀ other, Parted "255.255.255.25é:80".toList other ↔ other = parts) ∧
        parts.family = .ipv4 ∧ parts.maxLength < parts.host.byteLength ∧
        ((Family.ipv4 = .ipv4 ∧ Ipv4.ofText? parts.host = none) ∨
          (Family.ipv4 = .ipv6 ∧ Ipv6.ofText? parts.host = none)) := by
  have hparse : (parse .loopbackOnly "255.255.255.25é:80".toList 0).value =
      .error ⟨.tooLong .ipv4, "255.255.255.25é:80".toList⟩ := by rfl
  exact ⟨hparse, length_limits_reject_no_address.1 _ _ _ _ _ hparse⟩

end Address

end NetKit
