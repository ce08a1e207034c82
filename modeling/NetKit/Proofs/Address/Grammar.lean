import NetKit.Proofs.Address.Spelling

/-!
# The grammar of addresses — what is accepted, and what it denotes

`Address.Denotes` writes the accepted texts down form by form, each with the address it stands for:
an IPv4 literal; an IPv6 literal with or without brackets; a scope behind the literal, inside the
brackets or after them; and, except behind a bare IPv6 literal, a port. The relation knows nothing of
first and last marks. `Address.parse_eq_ok_iff_denotes` says that it is what the reader accepts.

The one assumption is about the machine: no interface has a bracket in its name. Without it a bracket
in a scope could belong to the scope or to the literal.

## Contents
- `Interfaces.RejectsBrackets`: the assumption, which `Interfaces.loopbackOnly` meets.
- `IsDigitScope`, `ScopeDenotes`, `PortDenotes`, `Address.Denotes`: the grammar.
- `resolveScope_eq_ok_iff`, `resolve_v6_scoped_eq_ok_iff`: what is resolved on a machine.
- `Address.parse_eq_ok_iff_denotes`: the equivalence.
-/

namespace NetKit

/-! ## The grammar -/

/-- No interface of the machine has a bracket in its name. -/
def Interfaces.RejectsBrackets (interfaces : Interfaces) : Prop :=
  ∀ name : Text, '[' ∈ name ∨ ']' ∈ name → ∀ index, interfaces name ≠ .ok index

/-- One or more decimal digits and nothing else. -/
def IsDigitScope (scope : Text) : Prop := scope ≠ [] ∧ ∀ c ∈ scope, '0' ≤ c ∧ c ≤ '9'

/-- The index that a scope stands for: what its digits are read as, if there are only digits, and else the
    index of the interface of that name. -/
inductive ScopeDenotes (interfaces : Interfaces) : Text → UInt32 → Prop where
  | number {scope : Text} {n : UInt64} (hdigits : IsDigitScope scope)
      (hnumber : parseUInt64 scope = .ok n) (hrange : n.toNat < 2 ^ 32) :
      ScopeDenotes interfaces scope (UInt32.ofNat n.toNat)
  | name {scope : Text} {index : UInt32} (hdigits : ¬IsDigitScope scope)
      (hlookup : interfaces scope = .ok index) :
      ScopeDenotes interfaces scope index

/-- The port behind an address: what is behind the colon, or `defaultPort`. -/
inductive PortDenotes (defaultPort : UInt16) : Text → UInt16 → Prop where
  | absent : PortDenotes defaultPort [] defaultPort
  | written {p : Text} {n : UInt64} (hnumber : parseUInt64 p = .ok n) (hrange : n.toNat ≤ 65535) :
      PortDenotes defaultPort (':' :: p) (UInt16.ofNat n.toNat)

/-- The accepted texts, each with the address it denotes. -/
inductive Address.Denotes (interfaces : Interfaces) (defaultPort : UInt16) :
    Text → Address → Prop where
  /-- `h` and `h:P`. -/
  | v4 {host suffix : Text} {ip : Ipv4} {port : UInt16} (hip : Ipv4.ofText? host = some ip)
      (hport : PortDenotes defaultPort suffix port) :
      Address.Denotes interfaces defaultPort (host ++ suffix) (.specified (.v4 ip port))
  /-- `v`. -/
  | bare {host : Text} {ip : Ipv6} (hip : Ipv6.ofText? host = some ip) :
      Address.Denotes interfaces defaultPort host (.specified (.v6 ip defaultPort 0 0))
  /-- `v%S`. -/
  | bareScoped {host scope : Text} {ip : Ipv6} {index : UInt32}
      (hip : Ipv6.ofText? host = some ip) (hscope : ScopeDenotes interfaces scope index) :
      Address.Denotes interfaces defaultPort (host ++ '%' :: scope)
        (.specified (.v6 ip defaultPort 0 index))
  /-- `[v]` and `[v]:P`. -/
  | bracketed {host suffix : Text} {ip : Ipv6} {port : UInt16}
      (hip : Ipv6.ofText? host = some ip) (hport : PortDenotes defaultPort suffix port) :
      Address.Denotes interfaces defaultPort ('[' :: (host ++ ']' :: suffix))
        (.specified (.v6 ip port 0 0))
  /-- `[v%S]` and `[v%S]:P`. -/
  | innerScoped {host scope suffix : Text} {ip : Ipv6} {index : UInt32} {port : UInt16}
      (hip : Ipv6.ofText? host = some ip) (hscope : ScopeDenotes interfaces scope index)
      (hport : PortDenotes defaultPort suffix port) :
      Address.Denotes interfaces defaultPort ('[' :: (host ++ '%' :: scope ++ ']' :: suffix))
        (.specified (.v6 ip port 0 index))
  /-- `[v]%S` and `[v]%S:P`, where a colon ends the scope. -/
  | outerScoped {host scope suffix : Text} {ip : Ipv6} {index : UInt32} {port : UInt16}
      (hip : Ipv6.ofText? host = some ip) (hscope : ScopeDenotes interfaces scope index)
      (hcolon : ':' ∉ scope) (hport : PortDenotes defaultPort suffix port) :
      Address.Denotes interfaces defaultPort ('[' :: (host ++ ']' :: '%' :: (scope ++ suffix)))
        (.specified (.v6 ip port 0 index))

/-! ## Ports -/

theorem portDenotes_iff {defaultPort port : UInt16} {suffix : Text} :
    PortDenotes defaultPort suffix port ↔ ∃ p, PortSuffix suffix p ∧ port = p.getD defaultPort := by
  constructor
  · intro h
    cases h with
    | absent => exact ⟨none, .absent, rfl⟩
    | written hnumber hrange => exact ⟨some _, .written hnumber hrange, rfl⟩
  · rintro ⟨p, h, rfl⟩
    cases h with
    | absent => exact .absent
    | written hnumber hrange => exact .written hnumber hrange

/-! ## Scopes -/

theorem isNumericScope_iff {scope : Text} : isNumericScope scope = true ↔ IsDigitScope scope := by
  unfold isNumericScope IsDigitScope
  rw [Bool.and_eq_true, Bool.not_eq_true', List.isEmpty_eq_false_iff, List.all_eq_true]
  exact and_congr_right fun _ => forall₂_congr fun _ _ => isDigit_ten_iff

/-- `resolveScope` accepts exactly `ScopeDenotes`. -/
theorem resolveScope_eq_ok_iff {interfaces : Interfaces} {scope : Text} {index : UInt32} :
    (resolveScope interfaces scope).value = .ok index ↔ ScopeDenotes interfaces scope index := by
  unfold resolveScope
  by_cases hnumeric : isNumericScope scope = true
  · have hdigits : IsDigitScope scope := isNumericScope_iff.mp hnumeric
    rw [if_pos hnumeric]
    show readScope scope = .ok index ↔ _
    unfold readScope
    cases hnumber : parseUInt64 scope with
    | error e =>
        constructor
        · intro h; cases h
        · intro h
          cases h with
          | number _ hnumber' => rw [hnumber'] at hnumber; cases hnumber
          | name hno => exact absurd hdigits hno
    | ok n =>
        constructor
        · intro h
          simp only at h
          split at h
          · next hrange => cases h; exact .number hdigits hnumber hrange
          · cases h
        · intro h
          cases h with
          | number _ hnumber' hrange =>
              rw [hnumber] at hnumber'
              cases hnumber'
              exact if_pos hrange
          | name hno => exact absurd hdigits hno
  · have hdigits : ¬IsDigitScope scope := fun h => hnumeric (isNumericScope_iff.mpr h)
    rw [if_neg hnumeric]
    cases hlookup : interfaces scope with
    | error e =>
        constructor
        · intro h; cases h
        · intro h
          cases h with
          | number hyes => exact absurd hyes hdigits
          | name _ hlookup' => rw [hlookup] at hlookup'; cases hlookup'
    | ok i =>
        constructor
        · intro h; cases h; exact .name hdigits hlookup
        · intro h
          cases h with
          | number hyes => exact absurd hyes hdigits
          | name _ hlookup' => rw [hlookup] at hlookup'; cases hlookup'; rfl

/-- `ScopeDenotes` has no brackets on a machine with `RejectsBrackets`. -/
theorem ScopeDenotes.no_brackets {interfaces : Interfaces} (hbrackets : interfaces.RejectsBrackets)
    {scope : Text} {index : UInt32} (h : ScopeDenotes interfaces scope index) :
    '[' ∉ scope ∧ ']' ∉ scope := by
  cases h with
  | number hdigits =>
      constructor
      · intro hmem; exact absurd (hdigits.2 '[' hmem) (by decide)
      · intro hmem; exact absurd (hdigits.2 ']' hmem) (by decide)
  | name _ hlookup =>
      constructor
      · intro hmem; exact hbrackets scope (Or.inl hmem) index hlookup
      · intro hmem; exact hbrackets scope (Or.inr hmem) index hlookup

theorem Interfaces.loopbackOnly_rejectsBrackets : Interfaces.loopbackOnly.RejectsBrackets := by
  intro name hname index hlookup
  unfold Interfaces.loopbackOnly at hlookup
  split at hlookup
  · cases hlookup
  · split at hlookup
    · next hlo =>
        subst hlo
        rcases hname with h | h <;> exact absurd h (by decide)
    · cases hlookup

/-! ## Resolution -/

/-- `resolve` for an IPv6 spelling with a scope. -/
theorem resolve_v6_scoped_eq_ok_iff {interfaces : Interfaces} {defaultPort : UInt16} {ip : Ipv6}
    {scope : Text} {port : Option UInt16} {a : Address} :
    ((Spelling.v6 ip (some scope) port).resolve interfaces defaultPort).value = .ok a ↔
      ∃ index, ScopeDenotes interfaces scope index ∧
        a = .specified (.v6 ip (port.getD defaultPort) 0 index) := by
  unfold Spelling.resolve
  simp only [Logged.value_map, ← resolveScope_eq_ok_iff]
  cases (resolveScope interfaces scope).value with
  | error fault => simp
  | ok index => simp [eq_comm]

/-! ## The equivalence -/

theorem Address.denotes_of_parse {interfaces : Interfaces} {defaultPort : UInt16} {t : Text}
    {a : Address} (h : (Address.parse interfaces t defaultPort).value = .ok a) :
    Address.Denotes interfaces defaultPort t a := by
  obtain ⟨s, hspelled, hresolve⟩ := Address.spelled_of_parse h
  cases hspelled with
  | v4 hip hport =>
      cases hresolve
      exact .v4 hip (portDenotes_iff.mpr ⟨_, hport, rfl⟩)
  | bare hip => cases hresolve; exact .bare hip
  | bareScoped hip =>
      obtain ⟨index, hscope, rfl⟩ := resolve_v6_scoped_eq_ok_iff.mp hresolve
      exact .bareScoped hip hscope
  | bracketed hip hport =>
      cases hresolve
      exact .bracketed hip (portDenotes_iff.mpr ⟨_, hport, rfl⟩)
  | innerScoped hip hport =>
      obtain ⟨index, hscope, rfl⟩ := resolve_v6_scoped_eq_ok_iff.mp hresolve
      exact .innerScoped hip hscope (portDenotes_iff.mpr ⟨_, hport, rfl⟩)
  | outerScoped hip hport hcolon =>
      obtain ⟨index, hscope, rfl⟩ := resolve_v6_scoped_eq_ok_iff.mp hresolve
      exact .outerScoped hip hscope hcolon (portDenotes_iff.mpr ⟨_, hport, rfl⟩)

/-- A text that `Denotes` an address is `Spelled` as something that resolves to it. -/
theorem Address.spelled_of_denotes {interfaces : Interfaces}
    (hbrackets : interfaces.RejectsBrackets) {defaultPort : UInt16} {t : Text} {a : Address}
    (h : Address.Denotes interfaces defaultPort t a) :
    ∃ s, Spelled t s ∧ (s.resolve interfaces defaultPort).value = .ok a := by
  cases h with
  | v4 hip hport =>
      obtain ⟨p, hsuffix, rfl⟩ := portDenotes_iff.mp hport
      exact ⟨_, .v4 hip hsuffix, rfl⟩
  | bare hip => exact ⟨_, .bare hip, rfl⟩
  | bareScoped hip hscope =>
      obtain ⟨hopen, hclose⟩ := hscope.no_brackets hbrackets
      exact ⟨_, .bareScoped hip hopen hclose,
        resolve_v6_scoped_eq_ok_iff.mpr ⟨_, hscope, rfl⟩⟩
  | bracketed hip hport =>
      obtain ⟨p, hsuffix, rfl⟩ := portDenotes_iff.mp hport
      exact ⟨_, .bracketed hip hsuffix, rfl⟩
  | innerScoped hip hscope hport =>
      obtain ⟨p, hsuffix, rfl⟩ := portDenotes_iff.mp hport
      exact ⟨_, .innerScoped hip hsuffix, resolve_v6_scoped_eq_ok_iff.mpr ⟨_, hscope, rfl⟩⟩
  | outerScoped hip hscope hcolon hport =>
      obtain ⟨p, hsuffix, rfl⟩ := portDenotes_iff.mp hport
      obtain ⟨-, hclose⟩ := hscope.no_brackets hbrackets
      exact ⟨_, .outerScoped hip hsuffix hcolon hclose,
        resolve_v6_scoped_eq_ok_iff.mpr ⟨_, hscope, rfl⟩⟩

/-- **`parse` accepts exactly the texts that `Denotes` has, each as its address.** -/
theorem Address.parse_eq_ok_iff_denotes {interfaces : Interfaces}
    (hbrackets : interfaces.RejectsBrackets) (t : Text) (defaultPort : UInt16) (a : Address) :
    (Address.parse interfaces t defaultPort).value = .ok a ↔
      Address.Denotes interfaces defaultPort t a := by
  constructor
  · exact Address.denotes_of_parse
  · intro h
    obtain ⟨s, hspelled, hresolve⟩ := Address.spelled_of_denotes hbrackets h
    rw [Address.parse_of_spelled hspelled, Logged.value_map, hresolve]

/-- A scope that is the name of an interface, and a port in hexadecimal. -/
theorem Address.parse_eq_ok_iff_denotes_scoped :
    Interfaces.loopbackOnly.RejectsBrackets ∧
      Address.Denotes Interfaces.loopbackOnly 7 "[fe80::1]%lo:0x50".toList
        (.specified (.v6 ⟨[0xfe80, 0, 0, 0, 0, 0, 0, 1], rfl⟩ 80 0 1)) :=
  ⟨Interfaces.loopbackOnly_rejectsBrackets,
    (Address.parse_eq_ok_iff_denotes Interfaces.loopbackOnly_rejectsBrackets _ 7 _).mp rfl⟩

end NetKit
