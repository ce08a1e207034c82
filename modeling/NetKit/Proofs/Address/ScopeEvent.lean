import NetKit.Proofs.Address.Faults

/-!
# Scope events — what is logged of a scope, and for which texts

An interface name is looked up while a text is read, and a lookup that succeeds is logged as
`Event.scopeResolved`. `resolveScope` is the last step of `Address.parse`: a text that is wrong anywhere else is
refused before it, and after it nothing can fail. So the log tells of addresses that were really produced, of
each of them once, and with the scope that they have.

Every run of `Address.parse` is one of three (`Address.Reported`): it fails, or it comes to an address without
a lookup, or to one whose scope was looked up. What the machine would answer matters to the last kind, and to
failures with `invalidScope`, alone.

## Contents
- `HasScope`, `NamedScope`: the scopes of a text.
- `resolveScope_cases`: how one scope is resolved.
- `Address.Reported`, `Address.reported_parse`: how a text is read.
- `Address.parse_reports_produced`: events and addresses.
-/

namespace NetKit

/-! ## The scopes of a text -/

/-- `t` has a scope behind its host or behind its closing bracket. Nothing else need be right in it. -/
def HasScope (t scope : Text) : Prop :=
  ∃ parts, Parted t parts ∧ (parts.innerScope = some scope ∨ parts.outerScope = some scope)

/-- `t` has a scope that stands for an interface: it is empty, or not all of it is decimal digits. -/
def NamedScope (t scope : Text) : Prop :=
  HasScope t scope ∧ (scope = [] ∨ ∃ c ∈ scope, ¬('0' ≤ c ∧ c ≤ '9'))

theorem not_isDigitScope_iff {scope : Text} :
    ¬IsDigitScope scope ↔ scope = [] ∨ ∃ c ∈ scope, ¬('0' ≤ c ∧ c ≤ '9') := by
  unfold IsDigitScope
  rw [Classical.not_and_iff_not_or_not, Classical.not_not]
  simp only [Classical.not_forall, exists_prop]

theorem namedScope_iff {t scope : Text} : NamedScope t scope ↔ HasScope t scope ∧ ¬IsDigitScope scope := by
  rw [NamedScope, not_isDigitScope_iff]

/-- A text whose parts are read has the scope of its `Spelling`, and no other: of two scopes one is refused. -/
theorem hasScope_iff_of_read {t scope : Text} {layout : Layout} {s : Spelling}
    (hlayout : Layout.ofText t = .ok layout) (hread : Spelling.ofLayout layout = .ok s) :
    HasScope t scope ↔ s.scope = some scope := by
  have hparts : HasScope t scope ↔
      layout.parts.innerScope = some scope ∨ layout.parts.outerScope = some scope := by
    unfold HasScope
    simp only [parted_iff_of_layout hlayout, exists_eq_left]
  rw [hparts]
  cases layout with
  | v4 host port =>
      obtain ⟨ip, p, -, -, rfl⟩ := ofIpv4Parts_eq_ok_iff.mp hread
      simp [Layout.parts, Spelling.scope]
  | v6 literal outer port =>
      obtain ⟨host, inner, ip, p, hsplit, hone, -, -, rfl⟩ := ofIpv6Parts_eq_ok_iff.mp hread
      simp only [Layout.parts, hsplit, Spelling.scope]
      rcases hone with rfl | rfl <;> simp

/-! ## Resolving one scope -/

/-- `resolveScope` does without the machine, or fails, or the machine knows the scope; only the last is
    logged. -/
theorem resolveScope_cases (interfaces : Interfaces) (scope : Text) :
    (∃ cause, resolveScope interfaces scope = .quiet (.error cause)) ∨
      (∃ index, IsDigitScope scope ∧ resolveScope interfaces scope = .quiet (.ok index)) ∨
      ∃ index, ¬IsDigitScope scope ∧ interfaces scope = .ok index ∧
        resolveScope interfaces scope = ⟨.ok index, [.scopeResolved scope index]⟩ := by
  unfold resolveScope
  by_cases hdigits : IsDigitScope scope
  · rw [if_pos (isNumericScope_iff.mpr hdigits)]
    cases readScope scope with
    | error cause => exact .inl ⟨cause, rfl⟩
    | ok index => exact .inr (.inl ⟨index, hdigits, rfl⟩)
  · rw [if_neg (fun h => hdigits (isNumericScope_iff.mp h))]
    cases interfaces scope with
    | error cause => exact .inl ⟨.lookup cause, rfl⟩
    | ok index => exact .inr (.inr ⟨index, hdigits, rfl, rfl⟩)

/-! ## Reading a text -/

namespace Address

/-- How a text is read on a machine, with what is logged: it is refused; it comes to an address without the
    name of an interface in it; or it has one such name, which the machine knows. -/
inductive Reported (interfaces : Interfaces) (t : Text) : Logged (Except AddressError Address) → Prop where
  | refused (e : AddressError) : Reported interfaces t ⟨.error e, []⟩
  | unnamed (a : Address) (hscope : ∀ scope, ¬NamedScope t scope) : Reported interfaces t ⟨.ok a, []⟩
  | named {a : Address} {scope : Text} (hscope : NamedScope t scope)
      (honly : ∀ other, HasScope t other → other = scope) (hlookup : interfaces scope = .ok a.scope) :
      Reported interfaces t ⟨.ok a, [.scopeResolved scope a.scope]⟩

variable {interfaces : Interfaces} {t : Text} {defaultPort : UInt16}

/-- `parse` of a text that has a `Layout` and a `Spelling` is `Reported` as its scope is resolved. -/
theorem reported_resolve {layout : Layout} {s : Spelling} (hlayout : Layout.ofText t = .ok layout)
    (hread : Spelling.ofLayout layout = .ok s) :
    Reported interfaces t (parse interfaces t defaultPort) := by
  have hscopes : ∀ scope, HasScope t scope ↔ s.scope = some scope := fun scope =>
    hasScope_iff_of_read hlayout hread
  rw [parse_of_spelled (spelled_of_laid (Layout.ofText_eq_ok_iff.mp hlayout) hread)]
  have hunscoped : s.scope = none → ∀ scope, ¬NamedScope t scope := by
    rintro hnone scope ⟨hhas, -⟩
    rw [hscopes, hnone] at hhas
    cases hhas
  cases s with
  | v4 ip port => exact .unnamed _ (hunscoped rfl)
  | v6 ip scope port =>
      cases scope with
      | none => exact .unnamed _ (hunscoped rfl)
      | some scope =>
          have honly : ∀ other, HasScope t other → other = scope := fun other hother =>
            (Option.some.inj ((hscopes other).mp hother)).symm
          simp only [Spelling.resolve]
          rcases resolveScope_cases interfaces scope with
            ⟨cause, hresolve⟩ | ⟨index, hdigits, hresolve⟩ | ⟨index, hname, hlookup, hresolve⟩
          · rw [hresolve]
            exact .refused _
          · rw [hresolve]
            refine .unnamed _ fun other hother => ?_
            obtain ⟨hhas, hno⟩ := namedScope_iff.mp hother
            exact hno (honly other hhas ▸ hdigits)
          · rw [hresolve]
            have hhas : HasScope t scope := (hscopes scope).mpr rfl
            exact .named (namedScope_iff.mpr ⟨hhas, hname⟩) honly hlookup

/-- **`parse` is `Reported` for every text.** -/
theorem reported_parse (interfaces : Interfaces) (t : Text) (defaultPort : UInt16) :
    Reported interfaces t (parse interfaces t defaultPort) := by
  cases hlayout : Layout.ofText t with
  | error fault =>
      unfold parse Spelling.ofText
      rw [hlayout]
      exact .refused _
  | ok layout =>
      cases hread : Spelling.ofLayout layout with
      | error fault =>
          unfold parse Spelling.ofText
          simp only [hlayout, hread]
          exact .refused _
      | ok s => exact reported_resolve hlayout hread

/-- A failure other than `invalidScope` is the same on every machine, and silent: no scope was looked up. -/
theorem parse_eq_of_faulty_elsewhere {e : AddressError}
    (h : (parse interfaces t defaultPort).value = .error e)
    (helse : ∀ scope cause, e.fault ≠ .invalidScope scope cause) (others : Interfaces) :
    parse others t defaultPort = ⟨.error e, []⟩ := by
  obtain ⟨hinput, hlayout | ⟨layout, hlayout, hread | ⟨s, -, hresolve⟩⟩⟩ := parse_eq_error_iff.mp h
  · unfold parse Spelling.ofText
    rw [hlayout, ← hinput]
    rfl
  · unfold parse Spelling.ofText
    simp only [hlayout, hread]
    rw [← hinput]
    rfl
  · obtain ⟨scope, cause, -, -, hfault⟩ := resolve_eq_error_iff.mp hresolve
    exact absurd hfault (helse scope cause)

/-- **`scopeResolved` is logged only for an address that was produced with this scope.** At most one event
    is logged, and one is exactly if an address was produced for a text with a `NamedScope`. It has that
    name, and the scope of the address, which is what the machine knows the name by. A failure logs nothing;
    one that is not `invalidScope` is the same on all machines. -/
theorem parse_reports_produced (interfaces : Interfaces) (t : Text) (defaultPort : UInt16) :
    let read := parse interfaces t defaultPort
    read.events.length ≤ 1 ∧
    (read.events ≠ [] ↔ (∃ a, read.value = .ok a) ∧ ∃ scope, NamedScope t scope) ∧
    (∀ a scope, read.value = .ok a → NamedScope t scope →
      read.events = [.scopeResolved scope a.scope] ∧ interfaces scope = .ok a.scope) ∧
    (∀ e, read.value = .error e → read.events = []) ∧
    (∀ e, read.value = .error e → (∀ scope cause, e.fault ≠ .invalidScope scope cause) →
      ∀ others : Interfaces, parse others t defaultPort = ⟨.error e, []⟩) := by
  intro read
  have hreported : Reported interfaces t read := reported_parse interfaces t defaultPort
  have helsewhere : ∀ e, read.value = .error e → (∀ scope cause, e.fault ≠ .invalidScope scope cause) →
      ∀ others : Interfaces, parse others t defaultPort = ⟨.error e, []⟩ := fun _ =>
    parse_eq_of_faulty_elsewhere
  generalize read = read at hreported helsewhere
  rw [← and_assoc, ← and_assoc, ← and_assoc]
  refine ⟨?_, helsewhere⟩
  cases hreported with
  | refused e => simp
  | unnamed a hnone => simp [hnone]
  | @named a scope hscope honly hlookup =>
      have hexists : ∃ scope, NamedScope t scope := ⟨scope, hscope⟩
      simp only [List.length_singleton, Nat.le_refl, ne_eq, List.cons_ne_nil, not_false_eq_true,
        Except.ok.injEq, exists_eq', hexists, and_self, true_and, reduceCtorEq, false_implies, implies_true,
        and_true]
      rintro a' scope' rfl hscope'
      rw [honly scope' hscope'.1]
      exact ⟨rfl, hlookup⟩

/-- A name behind the bracket, before a port in hexadecimal; and a host, a scope and a port that are all
    wrong, where the host is reported and the name not looked up. -/
theorem parse_reports_produced_outer :
    NamedScope "[fe80::1]%lo:0x50".toList "lo".toList ∧
      (parse .loopbackOnly "[fe80::1]%lo:0x50".toList 7).events = [.scopeResolved "lo".toList 1] ∧
      NamedScope "[fe80::x]%lo:y".toList "lo".toList ∧
      ∀ others : Interfaces, parse others "[fe80::x]%lo:y".toList 7 =
        ⟨.error ⟨.notAnIpAddress, "[fe80::x]%lo:y".toList⟩, []⟩ := by
  have hname : "lo".toList = [] ∨ ∃ c ∈ "lo".toList, ¬('0' ≤ c ∧ c ≤ '9') :=
    .inr ⟨'l', List.mem_cons_self, by decide⟩
  have hproduced : NamedScope "[fe80::1]%lo:0x50".toList "lo".toList :=
    ⟨⟨_, parted_iff.mpr ⟨_, rfl, rfl⟩, .inr rfl⟩, hname⟩
  have hrefused : NamedScope "[fe80::x]%lo:y".toList "lo".toList :=
    ⟨⟨_, parted_iff.mpr ⟨_, rfl, rfl⟩, .inr rfl⟩, hname⟩
  obtain ⟨-, -, hevents, -⟩ := parse_reports_produced .loopbackOnly "[fe80::1]%lo:0x50".toList 7
  obtain ⟨-, -, -, -, hsame⟩ := parse_reports_produced .loopbackOnly "[fe80::x]%lo:y".toList 7
  exact ⟨hproduced, (hevents (.specified (.v6 ⟨[0xfe80, 0, 0, 0, 0, 0, 0, 1], rfl⟩ 80 0 1)) _ rfl hproduced).1,
    hrefused, hsame _ rfl (by intro scope cause h; cases h)⟩

end Address

end NetKit
