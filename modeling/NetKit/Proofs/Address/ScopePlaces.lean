import NetKit.Proofs.Address.Spelling

/-!
# Scope places — one scope in three places is read alike

A scope of an IPv6 address stands behind the host, or between the host and the closing bracket, or behind
that bracket. `Spelling.ofIpv6Parts` finds the first two at the first `%` of the literal,
`Layout.ofBracketed` the third by what follows the bracket; and only its colons tell a text without brackets
from an IPv4 address. The three come to the same, whether the host, the scope and the port are good or not.

A text is read through its layout alone (`Address.parse_of_layout`), so it is enough that the layouts of
the three forms come to one outcome (`Layout.outcome`).

## Contents
- `Layout.outcome`, `Address.answerFor`: what a layout comes to, and what is answered for a text.
- `Address.ReadAlike`: texts with one outcome.
- `Address.parse_scope_places`: the three places.
-/

namespace NetKit

/-! ## Outcomes -/

/-- What a `Layout` comes to on a machine, whichever text has it. -/
def Layout.outcome (interfaces : Interfaces) (defaultPort : UInt16) (layout : Layout) :
    Logged (Except AddressFault Address) :=
  match Spelling.ofLayout layout with
  | .error fault => .quiet (.error fault)
  | .ok s => s.resolve interfaces defaultPort

namespace Address

/-- What is answered for `t`: the address, or the fault with the text. -/
def answerFor (t : Text) (outcome : Except AddressFault Address) : Except AddressError Address :=
  outcome.mapError fun fault => ⟨fault, t⟩

/-- The texts are read alike, up to the text that an `AddressError` records: all of them come to one
    address, or all of them to one fault, and the same is logged. -/
def ReadAlike (interfaces : Interfaces) (defaultPort : UInt16) (texts : List Text) : Prop :=
  ∃ outcome : Logged (Except AddressFault Address),
    ∀ t ∈ texts, parse interfaces t defaultPort = outcome.map (answerFor t)

variable {interfaces : Interfaces} {defaultPort : UInt16}

/-- `parse` is `Layout.outcome` of the text's layout. -/
theorem parse_of_layout {t : Text} {layout : Layout} (h : Layout.ofText t = .ok layout) :
    parse interfaces t defaultPort = (layout.outcome interfaces defaultPort).map (answerFor t) := by
  unfold parse Spelling.ofText Layout.outcome
  rw [h]
  simp only
  cases Spelling.ofLayout layout with
  | error fault => rfl
  | ok s =>
      show (s.resolve interfaces defaultPort).map _ = (s.resolve interfaces defaultPort).map _
      congr 1
      funext outcome
      cases outcome <;> rfl

/-- Texts are `ReadAlike` if their layouts have one `outcome`. -/
theorem readAlike_of_layouts {texts : List Text} {outcome : Logged (Except AddressFault Address)}
    (h : ∀ t ∈ texts, ∃ layout, Laid t layout ∧ layout.outcome interfaces defaultPort = outcome) :
    ReadAlike interfaces defaultPort texts := by
  refine ⟨outcome, ?_⟩
  intro t ht
  obtain ⟨layout, hlaid, rfl⟩ := h t ht
  exact parse_of_layout (Layout.ofText_eq_ok_iff.mpr hlaid)

end Address

/-! ## The three places -/

/-- `ofIpv6Parts` reads a scope within the literal as one behind it. -/
theorem Spelling.ofIpv6Parts_inner {host : Text} (hhost : '%' ∉ host) (scope : Text) (port : Option Text) :
    ofIpv6Parts (host ++ '%' :: scope) none port = ofIpv6Parts host (some scope) port := by
  unfold ofIpv6Parts
  rw [splitAtFirst_append scope hhost, splitAtFirst_of_not_mem hhost]
  rfl

theorem Layout.outcome_inner {host : Text} (hhost : '%' ∉ host) (scope : Text) (port : Option Text)
    (interfaces : Interfaces) (defaultPort : UInt16) :
    (Layout.v6 (host ++ '%' :: scope) none port).outcome interfaces defaultPort =
      (Layout.v6 host (some scope) port).outcome interfaces defaultPort := by
  unfold Layout.outcome Spelling.ofLayout
  simp only [Spelling.ofIpv6Parts_inner hhost]

/-- A scope behind a literal without brackets is `Laid` as a part of the literal, colons in it or not. -/
theorem laid_bare_scoped {host scope : Text} (hcolons : 2 ≤ host.count ':')
    (hopen : '[' ∉ host ++ '%' :: scope) (hclose : ']' ∉ host ++ '%' :: scope) :
    Laid (host ++ '%' :: scope) (.v6 (host ++ '%' :: scope) none none) := by
  apply Laid.bare hopen hclose
  rw [List.count_append]
  exact Nat.le_add_right_of_le hcolons

/-- **A scope is read alike in all three places**: behind the host, inside the brackets and behind them, and
    with a port in the latter two. -/
theorem Address.parse_scope_places {host scope : Text} (hcolons : 2 ≤ host.count ':')
    (hpercent : '%' ∉ host) (hopen : '[' ∉ host) (hclose : ']' ∉ host)
    (hcolon : ':' ∉ scope) (hopen' : '[' ∉ scope) (hclose' : ']' ∉ scope)
    (interfaces : Interfaces) (defaultPort : UInt16) :
    ReadAlike interfaces defaultPort
        [host ++ '%' :: scope,
          '[' :: (host ++ '%' :: scope ++ [']']),
          '[' :: (host ++ ']' :: '%' :: scope)] ∧
      ∀ port : Text, '[' ∉ port → ']' ∉ port →
        ReadAlike interfaces defaultPort
          ['[' :: (host ++ '%' :: scope ++ ']' :: ':' :: port),
            '[' :: (host ++ ']' :: '%' :: (scope ++ ':' :: port))] := by
  have hinner : ∀ port, ']' ∉ portText port →
      Laid ('[' :: (host ++ '%' :: scope ++ ']' :: portText port))
        (.v6 (host ++ '%' :: scope) none port) := by
    intro port hport
    exact Laid.bracketed hport
  have houter : ∀ port, ']' ∉ portText port →
      Laid ('[' :: (host ++ ']' :: '%' :: (scope ++ portText port))) (.v6 host (some scope) port) := by
    intro port hport
    apply Laid.outerScoped hcolon
    rw [List.mem_append, not_or]
    exact ⟨hclose', hport⟩
  have hsame := fun port => Layout.outcome_inner hpercent scope port interfaces defaultPort
  constructor
  · have hbare : Laid (host ++ '%' :: scope) (.v6 (host ++ '%' :: scope) none none) :=
      laid_bare_scoped hcolons (by simp [hopen, hopen']) (by simp [hclose, hclose'])
    have hnone : ']' ∉ portText none := List.not_mem_nil
    have hbehind := houter none hnone
    rw [show scope ++ portText none = scope from List.append_nil scope] at hbehind
    apply readAlike_of_layouts
    simp only [List.forall_mem_cons, List.not_mem_nil, false_implies, implies_true, and_true]
    exact ⟨⟨_, hbare, hsame none⟩, ⟨_, hinner none hnone, hsame none⟩, ⟨_, hbehind, rfl⟩⟩
  · intro port _ hport
    have hsome : ']' ∉ portText (some port) := by
      show ']' ∉ ':' :: port
      simp [hport]
    apply readAlike_of_layouts
    simp only [List.forall_mem_cons, List.not_mem_nil, false_implies, implies_true, and_true]
    exact ⟨⟨_, hinner (some port) hsome, hsame (some port)⟩, ⟨_, houter (some port) hsome, rfl⟩⟩

/-- The name of an interface in all three places, and a scope with a `%` in it behind a host that is no
    address, before a port with a colon in it. -/
theorem Address.parse_scope_places_named :
    ReadAlike .loopbackOnly 7 ["fe80::1%lo".toList, "[fe80::1%lo]".toList, "[fe80::1]%lo".toList] ∧
      (parse .loopbackOnly "fe80::1%lo".toList 7).value =
        .ok (.specified (.v6 ⟨[0xfe80, 0, 0, 0, 0, 0, 0, 1], rfl⟩ 7 0 1)) ∧
      ReadAlike .loopbackOnly 7 ["[fe80::x%l%o]:5:y".toList, "[fe80::x]%l%o:5:y".toList] := by
  refine ⟨?_, by rfl, ?_⟩
  · exact (@Address.parse_scope_places "fe80::1".toList "lo".toList (by decide) (by decide) (by decide)
      (by decide) (by decide) (by decide) (by decide) .loopbackOnly 7).1
  · exact (@Address.parse_scope_places "fe80::x".toList "l%o".toList (by decide) (by decide) (by decide)
      (by decide) (by decide) (by decide) (by decide) .loopbackOnly 7).2
      "5:y".toList (by decide) (by decide)

end NetKit
