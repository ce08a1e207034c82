import NetKit.Proofs.Address.Port

/-!
# Default ports — what a text without a port leaves open

`Address.parse` takes a port for texts that have none. This default port decides nothing else: whether the
text is accepted, with which fault it is refused, what is logged and which interfaces are looked up are the
same for all default ports. Whether it counts at all is decided by the text alone, which has a port part or
has none (`PortPart`); a port part that says zero is a port.

The reason is that the default port comes in last, when the text has become a `Spelling`
(`Spelling.resolve_cases`).

## Contents
- `Laid.portPart`, `Spelled.exists_portPart_iff`: the spellings of texts with a port part.
- `Address.AlikeButPort`: addresses that differ in their ports at most.
- `Spelling.resolve_cases`, `Address.parse_cases`: one result for all default ports.
- `Address.parse_default_port`: two default ports.
-/

namespace NetKit

/-! ## Texts with a port part -/

/-- The port of a layout is a `PortPart` of the text. -/
theorem Laid.portPart {t p : Text} {layout : Layout} (h : Laid t layout)
    (hport : layout.port = some p) : PortPart t p := by
  cases h with
  | v4 hhost hcolon hopen hclose =>
      obtain rfl : _ = some p := hport
      exact .plain hhost (hcolon p rfl) hopen hclose
  | bare => cases hport
  | bracketed hclose =>
      obtain rfl : _ = some p := hport
      rw [portText, List.mem_cons, not_or] at hclose
      exact .bracketed hclose.2
  | outerScoped hscope hclose =>
      obtain rfl : _ = some p := hport
      exact .outerScoped hscope hclose

/-- **A text has a `PortPart` exactly if its spelling has a port**, whichever number this is. -/
theorem Spelled.exists_portPart_iff {t : Text} {s : Spelling} (h : Spelled t s) :
    (∃ p, PortPart t p) ↔ s.port.isSome = true := by
  constructor
  · rintro ⟨p, hpart⟩
    obtain ⟨port, hport, -⟩ := Spelling.readPort_of_portPart h hpart
    rw [hport]
    rfl
  · intro hsome
    obtain ⟨layout, hlaid, hread⟩ := laid_of_spelled h
    have hport := Spelling.readPort?_of_ofLayout hread
    cases hwritten : layout.port with
    | none =>
        rw [hwritten] at hport
        rw [← Except.ok.inj hport] at hsome
        cases hsome
    | some p => exact ⟨p, hlaid.portPart hwritten⟩

/-! ## Addresses with other ports -/

namespace Endpoint

variable (e : Endpoint) (port : UInt16)

@[simp] theorem port_withPort : (e.withPort port).port = port := by
  cases e <;> rfl

@[simp] theorem withPort_withPort (port' : UInt16) :
    (e.withPort port).withPort port' = e.withPort port' := by
  cases e <;> rfl

end Endpoint

/-- Addresses with the same family, IP address, scope and flow information. -/
structure Address.AlikeButPort (a b : Address) : Prop where
  family : a.family = b.family
  ip : a.ip? = b.ip?
  scope : a.scope = b.scope
  flow : a.flow = b.flow

theorem Endpoint.alikeButPort_withPort (e : Endpoint) (port port' : UInt16) :
    Address.AlikeButPort (.specified (e.withPort port)) (.specified (e.withPort port')) := by
  cases e <;> exact ⟨rfl, rfl, rfl, rfl⟩

/-! ## All default ports -/

/-- `resolve` fails alike for all default ports, or gives one endpoint, of which only the port is open, if
    the spelling has none. -/
theorem Spelling.resolve_cases (s : Spelling) (interfaces : Interfaces) :
    (∃ fault events, ∀ d, s.resolve interfaces d = ⟨.error fault, events⟩) ∨
      ∃ (e : Endpoint) (events : List Event), ∀ d,
        s.resolve interfaces d = ⟨.ok (.specified (e.withPort (s.port.getD d))), events⟩ := by
  cases s with
  | v4 ip port => exact .inr ⟨.v4 ip 0, [], fun _ => rfl⟩
  | v6 ip scope port =>
      cases scope with
      | none => exact .inr ⟨.v6 ip 0 0 0, [], fun _ => rfl⟩
      | some scope =>
          cases hscope : resolveScope interfaces scope with
          | mk value events =>
              cases value with
              | error fault =>
                  refine .inl ⟨.invalidScope scope fault, events, fun d => ?_⟩
                  simp only [resolve, hscope]
                  rfl
              | ok index =>
                  refine .inr ⟨.v6 ip 0 0 index, events, fun d => ?_⟩
                  simp only [resolve, hscope]
                  rfl

namespace Address

/-- `parse` fails alike for all default ports, or gives one endpoint, of which only the port is open, if the
    text has no `PortPart`. -/
theorem parse_cases (interfaces : Interfaces) (t : Text) :
    (∃ error events, ∀ d, parse interfaces t d = ⟨.error error, events⟩) ∨
      ∃ (e : Endpoint) (port : Option UInt16) (events : List Event),
        ((∃ p, PortPart t p) ↔ port.isSome = true) ∧
          ∀ d, parse interfaces t d = ⟨.ok (.specified (e.withPort (port.getD d))), events⟩ := by
  cases hread : Spelling.ofText t with
  | error fault =>
      refine .inl ⟨⟨fault, t⟩, [], fun d => ?_⟩
      unfold parse
      rw [hread]
      rfl
  | ok s =>
      have hspelled := Spelling.ofText_eq_ok_iff.mp hread
      rcases s.resolve_cases interfaces with ⟨fault, events, hresolve⟩ | ⟨e, events, hresolve⟩
      · refine .inl ⟨⟨fault, t⟩, events, fun d => ?_⟩
        rw [parse_of_spelled hspelled, hresolve]
        rfl
      · refine .inr ⟨e, s.port, events, hspelled.exists_portPart_iff, fun d => ?_⟩
        rw [parse_of_spelled hspelled, hresolve]
        rfl

/-- **The default port decides nothing but a missing port.** With any two default ports `parse` fails alike,
    or succeeds with the same events. If the text has a `PortPart`, the two addresses are the same. If it
    has none, each of them has its default port, and is what the text denotes with the default port zero,
    but for its port. -/
theorem parse_default_port (interfaces : Interfaces) (t : Text) (d d' : UInt16) :
    (∃ error events, parse interfaces t d = ⟨.error error, events⟩ ∧
      parse interfaces t d' = ⟨.error error, events⟩) ∨
    ∃ a a' events, parse interfaces t d = ⟨.ok a, events⟩ ∧
      parse interfaces t d' = ⟨.ok a', events⟩ ∧
      (((∃ p, PortPart t p) ∧ a = a') ∨
        ((¬∃ p, PortPart t p) ∧ a.port = d ∧ a'.port = d' ∧ AlikeButPort a a' ∧
          ∃ b, parse interfaces t 0 = ⟨.ok b, events⟩ ∧ b.withPort d = .ok a ∧
            b.withPort d' = .ok a')) := by
  rcases parse_cases interfaces t with ⟨error, events, hparse⟩ | ⟨e, port, events, hpart, hparse⟩
  · exact .inl ⟨error, events, hparse d, hparse d'⟩
  · refine .inr ⟨_, _, events, hparse d, hparse d', ?_⟩
    cases port with
    | some port => exact .inl ⟨hpart.mpr rfl, rfl⟩
    | none =>
        have hmissing : ¬∃ p, PortPart t p := fun h => nomatch hpart.mp h
        have hset : ∀ port : UInt16, (specified (e.withPort 0)).withPort port =
            .ok (.specified (e.withPort port)) := fun port =>
          congrArg (fun e => Except.ok (specified e)) (e.withPort_withPort 0 port)
        exact .inr ⟨hmissing, e.port_withPort d, e.port_withPort d', e.alikeButPort_withPort d d', _,
          hparse 0, hset d, hset d'⟩

/-- A `PortPart` of zero is no missing port. -/
example : (parse .loopbackOnly "[::1]%lo:0".toList 99).value =
      .ok (.specified (.v6 Ipv6.loopback 0 0 1)) ∧
    (parse .loopbackOnly "[::1]%lo".toList 99).value =
      .ok (.specified (.v6 Ipv6.loopback 99 0 1)) := ⟨rfl, rfl⟩

end Address

end NetKit
