import NetKit.Proofs.Address.Spelling

/-!
# Written ports — which number the port of an address is

`PortPart` says where a port is written in a text, by colons and brackets alone and whether the text is
accepted or not. What is written there is a signed number, since `readPort` accepts a sign, and it is
taken modulo `2 ^ 64` before the range of a port is checked.

So the port of an accepted address is the number that is written, unless that number is negative: the
numbers from `-2 ^ 64 + 1` to `-2 ^ 64 + 65535` are accepted too, as ports from `1` to `65535`
(`Address.not_port_eq_written`). No other negative number is, and none above `65535`.

## Contents
- `PortPart`, `Spelling.readPort_of_portPart`: where a port is written, and that it is read there.
- `readPort_eq_ok_iff_denotes`: which texts are ports.
- `Address.port_of_portPart`, `Address.not_port_eq_written`: what the port of an address is.
-/

namespace NetKit

/-- The port part of a text: what follows its only colon if there are no brackets, and else what follows the
    first colon behind the last closing bracket, where only a scope may stand between the two. -/
inductive PortPart : Text → Text → Prop where
  | plain {host p : Text} (hhost : ':' ∉ host) (hport : ':' ∉ p) (hopen : '[' ∉ host ++ ':' :: p)
      (hclose : ']' ∉ host ++ ':' :: p) :
      PortPart (host ++ ':' :: p) p
  | bracketed {literal p : Text} (hclose : ']' ∉ p) :
      PortPart ('[' :: (literal ++ ']' :: ':' :: p)) p
  | outerScoped {literal scope p : Text} (hscope : ':' ∉ scope) (hclose : ']' ∉ scope ++ ':' :: p) :
      PortPart ('[' :: (literal ++ ']' :: '%' :: (scope ++ ':' :: p))) p

namespace Layout

/-- The text of the port, if there is one. -/
def port : Layout → Option Text
  | v4 _ port => port
  | v6 _ _ port => port

end Layout

namespace Spelling

/-- The port, if there is one. -/
def port : Spelling → Option UInt16
  | v4 _ port => port
  | v6 _ _ port => port

/-- The port of a `Spelling` is that of its `Layout`, through `readPort?`. -/
theorem readPort?_of_ofLayout {layout : Layout} {s : Spelling} (h : ofLayout layout = .ok s) :
    readPort? layout.port = .ok s.port := by
  cases layout with
  | v4 host port =>
      obtain ⟨ip, p, -, hport, rfl⟩ := ofIpv4Parts_eq_ok_iff.mp h
      exact hport
  | v6 literal outer port =>
      obtain ⟨host, inner, ip, p, -, -, -, hport, rfl⟩ := ofIpv6Parts_eq_ok_iff.mp h
      exact hport

end Spelling

/-- A `PortPart` is the port of the text's `Layout`. -/
theorem PortPart.exists_layout {t p : Text} (h : PortPart t p) :
    ∃ layout, Layout.ofText t = .ok layout ∧ layout.port = some p := by
  cases h with
  | @plain host _ hhost hport hopen hclose =>
      have honly : ∀ q, some p = some q → ':' ∉ q := by
        intro q hq; exact Option.some.inj hq ▸ hport
      have hlaid : Laid (host ++ portText (some p)) (.v4 host (some p)) :=
        .v4 hhost honly hopen hclose
      exact ⟨_, Layout.ofText_eq_ok_iff.mpr hlaid, rfl⟩
  | @bracketed literal _ hclose =>
      have hclose' : ']' ∉ portText (some p) := by
        rw [portText, List.mem_cons, not_or]; exact ⟨by decide, hclose⟩
      exact ⟨_, Layout.ofText_eq_ok_iff.mpr (Laid.bracketed hclose'), rfl⟩
  | @outerScoped literal scope _ hscope hclose =>
      have hclose' : ']' ∉ scope ++ portText (some p) := hclose
      exact ⟨_, Layout.ofText_eq_ok_iff.mpr (Laid.outerScoped hscope hclose'), rfl⟩

/-- The `PortPart` of a text that is `Spelled` is read as the port of the spelling. -/
theorem Spelling.readPort_of_portPart {t p : Text} {s : Spelling} (hspelled : Spelled t s)
    (hpart : PortPart t p) : ∃ port, s.port = some port ∧ readPort p = .ok port := by
  obtain ⟨layout, hlayout, hport⟩ := hpart.exists_layout
  have hread := Spelling.ofText_eq_ok_iff.mpr hspelled
  unfold Spelling.ofText at hread
  simp only [hlayout] at hread
  have hs := readPort?_of_ofLayout hread
  rw [hport] at hs
  have hsome : (readPort p).map some = .ok s.port := hs
  cases hp : readPort p with
  | error fault => rw [hp] at hsome; cases hsome
  | ok port => rw [hp] at hsome; exact ⟨port, (Except.ok.inj hsome).symm, rfl⟩

/-- `resolve` takes the port of the spelling, or else the default one. -/
theorem Spelling.port_of_resolve {interfaces : Interfaces} {defaultPort : UInt16} {s : Spelling}
    {a : Address} (h : (s.resolve interfaces defaultPort).value = .ok a) :
    a.port = s.port.getD defaultPort := by
  cases s with
  | v4 ip port => cases h; rfl
  | v6 ip scope port =>
      cases scope with
      | none => cases h; rfl
      | some scope =>
          unfold resolve at h
          rw [Logged.value_map] at h
          split at h
          · cases h
          · cases h; rfl

/-- **A text is a port exactly if it denotes a number that is a port modulo `2 ^ 64`**, of a magnitude below
    `2 ^ 64`. -/
theorem readPort_eq_ok_iff_denotes {p : Text} {port : UInt16} :
    readPort p = .ok port ↔
      ∃ v : Int, IntegerDenotes p v ∧ v.natAbs < 2 ^ 64 ∧ v % 2 ^ 64 = port.toNat := by
  rw [readPort_eq_ok_iff]
  constructor
  · rintro ⟨n, hnumber, hrange, rfl⟩
    obtain ⟨v, hdenotes, hsize, hn⟩ := parseUInt64_eq_ok_iff.mp hnumber
    refine ⟨v, hdenotes, hsize, ?_⟩
    have hport : (UInt16.ofNat n.toNat).toNat = n.toNat :=
      UInt16.toNat_ofNat_of_lt (Nat.lt_succ_of_le hrange)
    rw [hport, hn]
  · rintro ⟨v, hdenotes, hsize, hv⟩
    have hlt := port.toNat_lt
    have hn : (UInt64.ofNat port.toNat).toNat = port.toNat := by
      rw [UInt64.toNat_ofNat']; omega
    refine ⟨UInt64.ofNat port.toNat,
      parseUInt64_eq_ok_iff.mpr ⟨v, hdenotes, hsize, by rw [hn, hv]⟩, by omega, ?_⟩
    rw [hn, UInt16.ofNat_toNat]

/-- **The port of an address is the number that is written, or that number plus `2 ^ 64`.** The number in
    the `PortPart` of an accepted address is from `0` to `65535` and is its port; or it is negative, above
    `-2 ^ 64` and at most `65535` above, and its port is the number plus `2 ^ 64`. -/
theorem Address.port_of_portPart {interfaces : Interfaces} {t p : Text} {defaultPort : UInt16}
    {a : Address} (h : (Address.parse interfaces t defaultPort).value = .ok a)
    (hpart : PortPart t p) :
    ∃ v : Int, (∀ v', IntegerDenotes p v' ↔ v' = v) ∧
      ((0 ≤ v ∧ v ≤ 65535 ∧ (a.port.toNat : Int) = v) ∨
        (-2 ^ 64 < v ∧ v ≤ 65535 - 2 ^ 64 ∧ (a.port.toNat : Int) = v + 2 ^ 64)) := by
  obtain ⟨s, hspelled, hresolve⟩ := Address.spelled_of_parse h
  obtain ⟨port, hport, hread⟩ := Spelling.readPort_of_portPart hspelled hpart
  obtain ⟨v, hdenotes, hsize, hv⟩ := readPort_eq_ok_iff_denotes.mp hread
  have hsame : a.port = port := by
    rw [Spelling.port_of_resolve hresolve, hport, Option.getD_some]
  have hlt := port.toNat_lt
  refine ⟨v, fun v' => ⟨fun h' => h'.unique hdenotes, fun h' => h' ▸ hdenotes⟩, ?_⟩
  rw [hsame]
  omega

/-- A scope with a port behind it, which is written as a negative number far below. -/
theorem Address.port_of_portPart_wrapped :
    PortPart "[::1]%lo:-18446744073709551536".toList "-18446744073709551536".toList ∧
      (Address.parse .loopbackOnly "[::1]%lo:-18446744073709551536".toList 7).value =
        .ok (.specified (.v6 ⟨[0, 0, 0, 0, 0, 0, 0, 1], rfl⟩ 80 0 1)) ∧
      ∃ v : Int, (∀ v', IntegerDenotes "-18446744073709551536".toList v' ↔ v' = v) ∧
        -2 ^ 64 < v ∧ 80 = v + 2 ^ 64 := by
  have hpart : PortPart "[::1]%lo:-18446744073709551536".toList "-18446744073709551536".toList :=
    @PortPart.outerScoped "::1".toList "lo".toList _ (by decide) (by decide)
  have hparse : (Address.parse .loopbackOnly "[::1]%lo:-18446744073709551536".toList 7).value =
      .ok (.specified (.v6 ⟨[0, 0, 0, 0, 0, 0, 0, 1], rfl⟩ 80 0 1)) := rfl
  refine ⟨hpart, hparse, ?_⟩
  obtain ⟨v, hv, hport⟩ := Address.port_of_portPart hparse hpart
  have hread : IntegerLiteral.read? "-18446744073709551536".toList =
      some ⟨true, 18446744073709551536, []⟩ := rfl
  have hvalue : -18446744073709551536 = v :=
    (hv _).mp (denotes_of_readInteger hread (List.forall_mem_nil _))
  exact ⟨v, hv, by omega, by omega⟩

/-- **Not every written port is the number that is written**: a negative number can be accepted. -/
theorem Address.not_port_eq_written :
    ¬∀ (interfaces : Interfaces) (t p : Text) (defaultPort : UInt16) (a : Address),
      (Address.parse interfaces t defaultPort).value = .ok a → PortPart t p →
        ∃ v : Int, IntegerDenotes p v ∧ 0 ≤ v ∧ v ≤ 65535 ∧ (a.port.toNat : Int) = v := by
  intro hall
  have hpart : PortPart "1.2.3.4:-18446744073709551615".toList "-18446744073709551615".toList :=
    @PortPart.plain "1.2.3.4".toList _ (by decide) (by decide) (by decide) (by decide)
  have hparse : (Address.parse .loopbackOnly "1.2.3.4:-18446744073709551615".toList 0).value =
      .ok (.specified (.v4 ⟨1, 2, 3, 4⟩ 1)) := rfl
  obtain ⟨v, hdenotes, hlow, -⟩ := hall _ _ _ _ _ hparse hpart
  have hread : IntegerLiteral.read? "-18446744073709551615".toList =
      some ⟨true, 18446744073709551615, []⟩ := rfl
  have hvalue : v = -18446744073709551615 :=
    hdenotes.unique (denotes_of_readInteger hread (List.forall_mem_nil _))
  omega

end NetKit
