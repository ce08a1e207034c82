import NetKit.Proofs.Address.Faults
import NetKit.Proofs.Address.RoundTrip

/-!
# Socket text — the form that always shows the port is read back too

`Endpoint.socketText` puts the scope inside the brackets and shows a port of zero, so it is mostly not the
canonical text of the endpoint (`Endpoint.socketText_eq_text_iff`). It is another spelling of it all the same.
With a port in the text no default port ever counts, so the socket form stands for one endpoint with every
default port, which the canonical text of an endpoint with port zero does not.

`Address.debugText` contains this form in parentheses, and no other parenthesis.

## Contents
- `Endpoint.spelled_socketText`: the socket form is spelled as the IP address, the scope and the port.
- `Parenthesized`, `Address.parenthesized_debugText_iff`: what the diagnostic text contains.
- `Endpoint.socketText_eq_text_iff`: where the two forms agree.
- `Endpoint.parse_socketText_always`: reading back the socket form.
-/

namespace NetKit

/-! ## The socket form as a spelling -/

namespace Endpoint

/-- The `Spelling` of `socketText`. -/
def socketSpelling : Endpoint → Spelling
  | v4 ip port => .v4 ip (some port)
  | v6 ip port _ scope => .v6 ip ((unlessZero scope).map fun n => Nat.toDigits 10 n.toNat) (some port)

theorem spelled_socketText (e : Endpoint) : Spelled e.socketText e.socketSpelling := by
  cases e with
  | v4 ip port => exact .v4 (Ipv4.ofText?_text ip) (portSuffix_toDigits port)
  | v6 ip port flow scope =>
      have hip := Ipv6.ofText?_text ip
      have hport := portSuffix_toDigits port
      by_cases hzero : scope = 0
      · subst hzero
        have htext : (v6 ip port flow 0).socketText =
            '[' :: (ip.text ++ ']' :: ':' :: Nat.toDigits 10 port.toNat) := by
          simp [socketText, markedUnlessZero]
        rw [htext]
        exact .bracketed hip hport
      · have hnat : scope.toNat ≠ 0 := fun h => hzero (UInt32.toNat_inj.mp h)
        have htext : (v6 ip port flow scope).socketText =
            '[' :: (ip.text ++ '%' :: Nat.toDigits 10 scope.toNat ++
              ']' :: ':' :: Nat.toDigits 10 port.toNat) := by
          simp [socketText, markedUnlessZero, hnat]
        have hspelling : (v6 ip port flow scope).socketSpelling =
            .v6 ip (some (Nat.toDigits 10 scope.toNat)) (some port) := by
          show Spelling.v6 ip ((unlessZero scope).map fun n => Nat.toDigits 10 n.toNat) _ = _
          rw [printedScope_of_ne hzero]
        rw [htext, hspelling]
        exact .innerScoped hip hport

/-- What `socketSpelling` denotes, whatever the default port is. -/
theorem resolve_socketSpelling (e : Endpoint) (interfaces : Interfaces) (defaultPort : UInt16) :
    e.socketSpelling.resolve interfaces defaultPort =
      .quiet (.ok (.specified e.withoutFlow)) := by
  cases e with
  | v4 ip port => rfl
  | v6 ip port flow scope => exact resolve_printedScope ip scope (some port) interfaces defaultPort

end Endpoint

/-! ## The socket form within the diagnostic text -/

/-- The second text stands in the first between the first opening parenthesis and the last closing one. -/
inductive Parenthesized : Text → Text → Prop where
  | intro {before inside after : Text} (hbefore : '(' ∉ before) (hafter : ')' ∉ after) :
      Parenthesized (before ++ '(' :: (inside ++ ')' :: after)) inside

theorem Parenthesized.unique {t inside inside' : Text} (h : Parenthesized t inside)
    (h' : Parenthesized t inside') : inside = inside' := by
  obtain ⟨hbefore, hafter⟩ := h
  generalize ht : _ ++ '(' :: (inside ++ ')' :: _) = t at h'
  obtain ⟨hbefore', hafter'⟩ := h'
  obtain ⟨-, hrest⟩ := eq_of_first_mark ht hbefore hbefore'
  exact (eq_of_last_mark hrest hafter hafter').1

namespace Address

/-- `debugText` adds no parenthesis to those of `variantText`. -/
theorem parenthesized_of_variantText {a : Address} {name inside : Text}
    (h : a.variantText = name ++ '(' :: (inside ++ [')'])) (hname : '(' ∉ name) :
    Parenthesized a.debugText inside := by
  have htext : a.debugText =
      ("Address \x7b endpoint: ".toList ++ name) ++ '(' :: (inside ++ ')' :: " \x7d".toList) := by
    unfold debugText
    rw [h]
    simp only [List.append_assoc, List.cons_append, List.nil_append]
  have hbefore : '(' ∉ "Address \x7b endpoint: ".toList ++ name := by
    rw [List.mem_append, not_or]
    exact ⟨by decide, hname⟩
  rw [htext]
  exact .intro hbefore (by decide)

/-- `debugText` of a `specified` address has its `socketText` in parentheses, and nothing else. -/
theorem parenthesized_debugText_iff (e : Endpoint) (inside : Text) :
    Parenthesized (specified e).debugText inside ↔ inside = e.socketText := by
  have hsocket : Parenthesized (specified e).debugText e.socketText := by
    cases e with
    | v4 ip port =>
        have hvariant : (specified (.v4 ip port)).variantText =
            "V4".toList ++ '(' :: ((Endpoint.v4 ip port).socketText ++ [')']) :=
          List.append_assoc "V4(".toList _ _
        exact parenthesized_of_variantText hvariant (by decide)
    | v6 ip port flow scope =>
        have hvariant : (specified (.v6 ip port flow scope)).variantText =
            "V6".toList ++ '(' :: ((Endpoint.v6 ip port flow scope).socketText ++ [')']) :=
          List.append_assoc "V6(".toList _ _
        exact parenthesized_of_variantText hvariant (by decide)
  constructor
  · intro h
    exact h.unique hsocket
  · rintro rfl
    exact hsocket

end Address

/-! ## The two forms of an endpoint -/

theorem markedUnlessZero_eq_iff {mark : Char} {n : Nat} :
    mark :: Nat.toDigits 10 n = markedUnlessZero mark n ↔ n ≠ 0 := by
  unfold markedUnlessZero
  split
  · next h => simp [h]
  · next h => simp [h]

/-- `socketText` is `text` exactly of the endpoints with a port and without a scope. -/
theorem Endpoint.socketText_eq_text_iff (e : Endpoint) :
    e.socketText = e.text ↔ e.port ≠ 0 ∧ e.scope = 0 := by
  cases e with
  | v4 ip port =>
      show ip.text ++ ':' :: Nat.toDigits 10 port.toNat = ip.text ++ markedUnlessZero ':' port.toNat ↔
        port ≠ 0 ∧ (0 : UInt32) = 0
      rw [List.append_cancel_left_eq, markedUnlessZero_eq_iff, ne_eq, ne_eq, ← UInt16.toNat_inj]
      simp
  | v6 ip port flow scope =>
      show _ ↔ port ≠ 0 ∧ scope = 0
      by_cases hzero : scope = 0
      · subst hzero
        have hforms : (v6 ip port flow 0).socketText = (v6 ip port flow 0).text ↔
            ':' :: Nat.toDigits 10 port.toNat = markedUnlessZero ':' port.toNat := by
          simp [socketText, text, markedUnlessZero]
        rw [hforms, markedUnlessZero_eq_iff, ne_eq, ne_eq, ← UInt16.toNat_inj]
        simp
      · have hnat : scope.toNat ≠ 0 := fun h => hzero (UInt32.toNat_inj.mp h)
        -- behind the host the one form goes on with the scope, the other with the bracket
        have hforms : (v6 ip port flow scope).socketText ≠ (v6 ip port flow scope).text := by
          simp [socketText, text, markedUnlessZero, hnat]
        constructor
        · intro h
          exact absurd h hforms
        · rintro ⟨-, hscope⟩
          exact absurd hscope hzero

/-! ## Reading back -/

/-- **`socketText` is read back without flow information**, with every default port and on every machine,
    and `debugText` of an address has just this form in parentheses. It is the canonical `text` only of an
    endpoint with a port and without a scope. -/
theorem Endpoint.parse_socketText_always :
    (∀ (interfaces : Interfaces) (e : Endpoint) (defaultPort : UInt16),
      Address.parse interfaces e.socketText defaultPort =
        .quiet (.ok (.specified e.withoutFlow))) ∧
    (∀ (e : Endpoint) (inside : Text),
      Parenthesized (Address.specified e).debugText inside ↔ inside = e.socketText) ∧
    (∀ e : Endpoint, e.socketText = e.text ↔ e.port ≠ 0 ∧ e.scope = 0) := by
  refine ⟨?_, Address.parenthesized_debugText_iff, Endpoint.socketText_eq_text_iff⟩
  intro interfaces e defaultPort
  rw [Address.parse_of_spelled e.spelled_socketText, e.resolve_socketSpelling]
  rfl

/-- A port of zero that is shown is kept, where the canonical text of the same endpoint has no port. -/
example : Address.parse .loopbackOnly "[::1%4]:0".toList 99 =
      .quiet (.ok (.specified (.v6 Ipv6.loopback 0 0 4))) ∧
    Address.parse .loopbackOnly "[::1]%4".toList 99 =
      .quiet (.ok (.specified (.v6 Ipv6.loopback 99 0 4))) := ⟨rfl, rfl⟩

end NetKit
