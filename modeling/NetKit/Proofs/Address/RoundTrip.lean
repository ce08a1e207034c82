import NetKit.Address.Text
import NetKit.Proofs.Address.Spelling

/-!
# Canonical text — what is printed for an address is read as that address

`Endpoint.text` leaves out a port or a scope of zero and never prints flow information. `Address.parse`
therefore gives the endpoint without its flow information, with the default port where the port was
zero. An address that was read has no flow information to lose, so its canonical text stands for
exactly it, on every machine: a printed scope is a number, and no interface is looked up.

## Contents
- `Endpoint.withoutFlow`: the part of an endpoint that its text shows.
- `portSuffix_markedUnlessZero`, `resolveScope_toDigits`: ports and scopes as they are printed.
- `Endpoint.spelled_text`: a printed endpoint is spelled as its IP address, scope and port.
- `Address.canonicalText`, `Address.parse_text_roundTrip`: reading back what is printed.
-/

namespace NetKit

/-- The endpoint with flow information `0`, which no text shows. -/
def Endpoint.withoutFlow : Endpoint → Endpoint
  | .v4 ip port => .v4 ip port
  | .v6 ip port _ scope => .v6 ip port 0 scope

/-- `none` for `0`, which is not printed. -/
def unlessZero {α : Type} [DecidableEq α] [OfNat α 0] (n : α) : Option α :=
  if n = 0 then none else some n

theorem getD_unlessZero {α : Type} [DecidableEq α] [OfNat α 0] (n : α) :
    (unlessZero n).getD 0 = n := by
  unfold unlessZero
  split
  · next h => exact h.symm
  · rfl

theorem unlessZero_of_ne {α : Type} [DecidableEq α] [OfNat α 0] {n : α} (h : n ≠ 0) :
    unlessZero n = some n := by
  unfold unlessZero
  rw [if_neg h]

/-! ## Printed ports and scopes -/

/-- A port in decimal, zero or not. -/
theorem portSuffix_toDigits (port : UInt16) :
    PortSuffix (':' :: Nat.toDigits 10 port.toNat) (some port) := by
  have hlt : port.toNat < 2 ^ 16 := port.toNat_lt
  have hword : (UInt64.ofNat port.toNat).toNat = port.toNat := by
    rw [UInt64.toNat_ofNat']; omega
  have hsuffix := PortSuffix.written (parseUInt64_toDigits (by omega : port.toNat < 2 ^ 64))
    (by omega : (UInt64.ofNat port.toNat).toNat ≤ 65535)
  rwa [hword, UInt16.ofNat_toNat] at hsuffix

theorem portSuffix_markedUnlessZero (port : UInt16) :
    PortSuffix (markedUnlessZero ':' port.toNat) (unlessZero port) := by
  by_cases hzero : port = 0
  · subst hzero; exact .absent
  · have hnat : port.toNat ≠ 0 := fun h => hzero (UInt16.toNat_inj.mp h)
    unfold markedUnlessZero
    rw [if_neg hnat, unlessZero_of_ne hzero]
    exact portSuffix_toDigits port

theorem isNumericScope_toDigits (n : Nat) : isNumericScope (Nat.toDigits 10 n) = true := by
  have hempty : (Nat.toDigits 10 n).isEmpty = false := by
    rw [List.isEmpty_eq_false_iff]; exact Nat.toDigits_ne_nil
  have hall : (Nat.toDigits 10 n).all (isDigit 10) = true :=
    List.all_eq_true.mpr fun c hc => isDigit_of_mem_toDigits (by decide) (by decide) hc
  unfold isNumericScope
  rw [hempty, hall]; rfl

/-- `resolveScope` of a printed scope is `quiet`: there is no lookup. -/
theorem resolveScope_toDigits (interfaces : Interfaces) (scope : UInt32) :
    resolveScope interfaces (Nat.toDigits 10 scope.toNat) = .quiet (.ok scope) := by
  have hlt : scope.toNat < 2 ^ 32 := scope.toNat_lt
  have hfits : scope.toNat < UInt32.size := hlt
  have hword : (UInt64.ofNat scope.toNat).toNat = scope.toNat := by
    rw [UInt64.toNat_ofNat']; omega
  unfold resolveScope readScope
  rw [if_pos (isNumericScope_toDigits _), parseUInt64_toDigits (by omega)]
  simp only [hword, if_pos hfits, UInt32.ofNat_toNat]

/-! ## Printed endpoints -/

/-- The `Spelling` of `Endpoint.text`. -/
def Endpoint.spelling : Endpoint → Spelling
  | .v4 ip port => .v4 ip (unlessZero port)
  | .v6 ip port _ scope =>
    .v6 ip ((unlessZero scope).map fun n => Nat.toDigits 10 n.toNat) (unlessZero port)

theorem printedScope_of_ne {scope : UInt32} (h : scope ≠ 0) :
    ((unlessZero scope).map fun n => Nat.toDigits 10 n.toNat) = some (Nat.toDigits 10 scope.toNat) := by
  rw [unlessZero_of_ne h, Option.map_some]

theorem Endpoint.spelling_scoped (ip : Ipv6) (port : UInt16) (flow : UInt32) {scope : UInt32}
    (h : scope ≠ 0) : (Endpoint.v6 ip port flow scope).spelling =
      .v6 ip (some (Nat.toDigits 10 scope.toNat)) (unlessZero port) := by
  show Spelling.v6 ip ((unlessZero scope).map fun n => Nat.toDigits 10 n.toNat) _ = _
  rw [printedScope_of_ne h]

theorem Endpoint.spelled_text (e : Endpoint) : Spelled e.text e.spelling := by
  cases e with
  | v4 ip port => exact .v4 (Ipv4.ofText?_text ip) (portSuffix_markedUnlessZero port)
  | v6 ip port flow scope =>
      have hip := Ipv6.ofText?_text ip
      have hport := portSuffix_markedUnlessZero port
      -- a scope of zero is not printed
      by_cases hzero : scope = 0
      · subst hzero
        have htext : (Endpoint.v6 ip port flow 0).text =
            '[' :: (ip.text ++ ']' :: markedUnlessZero ':' port.toNat) := by
          simp [Endpoint.text, markedUnlessZero]
        rw [htext]
        exact .bracketed hip hport
      · have hnat : scope.toNat ≠ 0 := fun h => hzero (UInt32.toNat_inj.mp h)
        have htext : (Endpoint.v6 ip port flow scope).text = '[' :: (ip.text ++
            ']' :: '%' :: (Nat.toDigits 10 scope.toNat ++ markedUnlessZero ':' port.toNat)) := by
          simp [Endpoint.text, markedUnlessZero, hnat]
        have hdigits : ∀ c ∈ Nat.toDigits 10 scope.toNat, isDigit 10 c = true := fun c hc =>
          isDigit_of_mem_toDigits (by decide) (by decide) hc
        rw [htext, Endpoint.spelling_scoped ip port flow hzero]
        exact .outerScoped hip hport (not_mem_of_digits (by decide) hdigits (by decide))
          (not_mem_of_digits (by decide) hdigits (by decide))

/-- A scope that is printed unless it is zero denotes itself, whatever stands for the port. -/
theorem resolve_printedScope (ip : Ipv6) (scope : UInt32) (port : Option UInt16)
    (interfaces : Interfaces) (defaultPort : UInt16) :
    (Spelling.v6 ip ((unlessZero scope).map fun n => Nat.toDigits 10 n.toNat) port).resolve
        interfaces defaultPort =
      .quiet (.ok (.specified (.v6 ip (port.getD defaultPort) 0 scope))) := by
  by_cases hzero : scope = 0
  · subst hzero; rfl
  · rw [printedScope_of_ne hzero]
    simp only [Spelling.resolve, resolveScope_toDigits]
    rfl

/-- What `Endpoint.spelling` denotes. -/
theorem Endpoint.resolve_spelling (e : Endpoint) (interfaces : Interfaces) (defaultPort : UInt16) :
    e.spelling.resolve interfaces defaultPort =
      .quiet (.ok (.specified (e.withoutFlow.withPort ((unlessZero e.port).getD defaultPort)))) := by
  cases e with
  | v4 ip port => rfl
  | v6 ip port flow scope => exact resolve_printedScope ip scope (unlessZero port) interfaces defaultPort

/-- **`Endpoint.text` is read back without flow information**, and with the default port if the port is `0`. -/
theorem Endpoint.parse_text (e : Endpoint) (interfaces : Interfaces) (defaultPort : UInt16) :
    Address.parse interfaces e.text defaultPort =
      .quiet (.ok (.specified (e.withoutFlow.withPort ((unlessZero e.port).getD defaultPort)))) := by
  rw [Address.parse_of_spelled e.spelled_text, e.resolve_spelling]
  rfl

theorem Endpoint.withPort_port (e : Endpoint) : e.withPort e.port = e := by
  cases e <;> rfl

theorem Endpoint.port_withoutFlow (e : Endpoint) : e.withoutFlow.port = e.port := by
  cases e <;> rfl

/-- `Address.parse` gives an endpoint without flow information. -/
theorem Address.withoutFlow_of_parse {interfaces : Interfaces} {t : Text} {defaultPort : UInt16}
    {a : Address} (h : (Address.parse interfaces t defaultPort).value = .ok a) :
    ∃ e, a = .specified e ∧ e.withoutFlow = e := by
  obtain ⟨s, -, hresolve⟩ := Address.spelled_of_parse h
  cases s with
  | v4 ip port => cases hresolve; exact ⟨_, rfl, rfl⟩
  | v6 ip scope port =>
      cases scope with
      | none => cases hresolve; exact ⟨_, rfl, rfl⟩
      | some scope =>
          unfold Spelling.resolve at hresolve
          rw [Logged.value_map] at hresolve
          cases hvalue : (resolveScope interfaces scope).value with
          | error fault => rw [hvalue] at hresolve; cases hresolve
          | ok index => rw [hvalue] at hresolve; cases hresolve; exact ⟨_, rfl, rfl⟩

/-! ## The round trip -/

/-- The `text` of the address that `t` denotes. -/
def Address.canonicalText (interfaces : Interfaces) (t : Text) (defaultPort : UInt16) :
    Except AddressError Text :=
  (Address.parse interfaces t defaultPort).value.map Address.text

/-- **Round trip of addresses.** `text` of an endpoint is read, with default port `0`, as the endpoint
    `withoutFlow`; if its port is not zero, with every default port. The text of `unspecified` is rejected.
    So an address that was read from any text is read again from its canonical text, and canonical texts are
    their own canonical texts. -/
theorem Address.parse_text_roundTrip :
    (∀ (interfaces : Interfaces) (e : Endpoint),
      Address.parse interfaces (Address.specified e).text 0 =
          .quiet (.ok (.specified e.withoutFlow)) ∧
        (e.port ≠ 0 → ∀ defaultPort : UInt16,
          Address.parse interfaces (Address.specified e).text defaultPort =
            .quiet (.ok (.specified e.withoutFlow)))) ∧
    (∀ (interfaces : Interfaces) (defaultPort : UInt16),
      Address.parse interfaces Address.unspecified.text defaultPort =
        .quiet (.error ⟨.notAnIpAddress, Address.unspecified.text⟩)) ∧
    (∀ (interfaces interfaces' : Interfaces) (t : Text) (defaultPort : UInt16) (a : Address),
      (Address.parse interfaces t defaultPort).value = .ok a →
        Address.parse interfaces' a.text 0 = .quiet (.ok a)) ∧
    (∀ (interfaces interfaces' : Interfaces) (t u : Text) (defaultPort : UInt16),
      Address.canonicalText interfaces t defaultPort = .ok u →
        Address.canonicalText interfaces' u 0 = .ok u) := by
  have hagain : ∀ (interfaces interfaces' : Interfaces) (t : Text) (defaultPort : UInt16)
      (a : Address), (Address.parse interfaces t defaultPort).value = .ok a →
        Address.parse interfaces' a.text 0 = .quiet (.ok a) := by
    intro interfaces interfaces' t defaultPort a h
    -- what was read has no flow information to lose
    obtain ⟨e, rfl, hflow⟩ := Address.withoutFlow_of_parse h
    have hparse := e.parse_text interfaces' 0
    rwa [getD_unlessZero, hflow, e.withPort_port] at hparse
  -- the text of the unspecified address is closed, so that it is read by computation
  refine ⟨?_, fun _ _ => rfl, hagain, ?_⟩
  · intro interfaces e
    constructor
    · have hparse := e.parse_text interfaces 0
      rwa [getD_unlessZero, ← e.port_withoutFlow, e.withoutFlow.withPort_port] at hparse
    · intro hport defaultPort
      have hparse := e.parse_text interfaces defaultPort
      rwa [unlessZero_of_ne hport, Option.getD_some, ← e.port_withoutFlow,
        e.withoutFlow.withPort_port] at hparse
  · intro interfaces interfaces' t u defaultPort h
    unfold Address.canonicalText at h ⊢
    cases hvalue : (Address.parse interfaces t defaultPort).value with
    | error error => rw [hvalue] at h; cases h
    | ok a =>
        rw [hvalue] at h
        cases h
        rw [hagain interfaces interfaces' t defaultPort a hvalue]
        rfl

/-- An IPv4-mapped endpoint with flow information, read back with a default port that does not count, and
    the canonical text of an address whose scope is the name of an interface. -/
theorem Address.parse_text_roundTrip_mapped :
    Address.parse Interfaces.loopbackOnly "[::ffff:10.0.0.1]%4:53".toList 99 =
        .quiet (.ok (.specified (.v6 ⟨[0, 0, 0, 0, 0, 0xffff, 0x0a00, 1], rfl⟩ 53 0 4))) ∧
      Address.canonicalText Interfaces.loopbackOnly "FE80:0::1%lo".toList 7 =
        .ok "[fe80::1]%1:7".toList ∧
      Address.canonicalText Interfaces.loopbackOnly "[fe80::1]%1:7".toList 0 =
        .ok "[fe80::1]%1:7".toList := by
  have hnamed : Address.canonicalText Interfaces.loopbackOnly "FE80:0::1%lo".toList 7 =
      .ok "[fe80::1]%1:7".toList := by rfl
  refine ⟨?_, hnamed, ?_⟩
  · exact (Address.parse_text_roundTrip.1 Interfaces.loopbackOnly
      (.v6 ⟨[0, 0, 0, 0, 0, 0xffff, 0x0a00, 1], rfl⟩ 53 7 4)).2 (by decide) 99
  · exact Address.parse_text_roundTrip.2.2.2 Interfaces.loopbackOnly Interfaces.loopbackOnly _ _ 7
      hnamed

end NetKit
