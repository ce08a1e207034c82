import NetKit.Proofs.Address.Grammar

/-!
# Faults of addresses — which one is reported, for every text that is not read

A text can be wrong in several ways at once, and `Address.parse` reports one fault. This file says which: the
faults are written down in the order in which they take precedence (`Address.Faulty`), each by what the text
looks like, without the searches and cuts of the reader.

Brackets come first. Only a text whose brackets are in order and have nothing around them has parts
(`Parted`), and it has them in one way (`existsUnique_parted_iff`). The parts are then refused for the
length of the host, for a second scope, for the host itself and for the port, in this order
(`AddressParts.Refused`). A scope that does not resolve is reported last, if nothing else is wrong.

## Contents
- `MismatchedBrackets`, `TextAroundBrackets`, `Layout.ofText_eq_error_iff`: brackets.
- `AddressParts`, `Parted`: the parts of a text.
- `PortRefused`, `AddressParts.Refused`, `ofLayout_eq_error_iff`: what is wrong with the parts.
- `ScopeRefused`, `resolve_eq_error_iff`: scopes that do not resolve.
- `Address.Faulty`, `Address.parse_refuses_for_first_fault`: the classification.
-/

namespace NetKit

/-! ## Brackets -/

/-- `[` without `]` or the other way round, or the first `[` behind the last `]`. -/
def MismatchedBrackets (t : Text) : Prop :=
  ('[' ∈ t ∧ ']' ∉ t) ∨ ('[' ∉ t ∧ ']' ∈ t) ∨
    ∃ before after, t = before ++ '[' :: after ∧ '[' ∉ before ∧ ']' ∈ before ∧ ']' ∉ after

/-- The first `[` is not the first character, or something other than a scope stands between the last `]`
    and the colon behind it, or the end. -/
inductive TextAroundBrackets : Text → Prop where
  | before {before after : Text} (hfirst : '[' ∉ before) (hbefore : before ≠ []) :
      TextAroundBrackets (before ++ '[' :: after)
  | after {before between : Text} {port : Option Text} (hlast : ']' ∉ between ++ portText port)
      (hcolon : ':' ∉ between) (hbetween : between ≠ []) (hscope : ∀ scope, between ≠ '%' :: scope) :
      TextAroundBrackets (before ++ ']' :: (between ++ portText port))

/-- A text has one first `mark`. -/
theorem eq_of_first_mark {mark : Char} {before before' after after' : Text}
    (h : before ++ mark :: after = before' ++ mark :: after') (hbefore : mark ∉ before)
    (hbefore' : mark ∉ before') : before = before' ∧ after = after' := by
  have hcut := Text.cutFirst?_append after hbefore
  rw [h, Text.cutFirst?_append after' hbefore'] at hcut
  simp only [Option.some.injEq, Prod.mk.injEq] at hcut
  exact ⟨hcut.1.symm, hcut.2.symm⟩

/-- A text has one last `mark`. -/
theorem eq_of_last_mark {mark : Char} {before before' after after' : Text}
    (h : before ++ mark :: after = before' ++ mark :: after') (hafter : mark ∉ after)
    (hafter' : mark ∉ after') : before = before' ∧ after = after' := by
  have hcut : Text.cutLast? mark (before ++ mark :: after) = some (before, after) :=
    Text.cutLast?_eq_some_iff.mpr ⟨rfl, hafter⟩
  rw [h, Text.cutLast?_eq_some_iff.mpr ⟨rfl, hafter'⟩] at hcut
  simp only [Option.some.injEq, Prod.mk.injEq] at hcut
  exact ⟨hcut.1.symm, hcut.2.symm⟩

/-- Brackets in order have a first `[` and a last `]`, with the literal between them. -/
theorem not_mismatchedBrackets {before literal after : Text} (hfirst : '[' ∉ before) :
    ¬MismatchedBrackets (before ++ '[' :: (literal ++ ']' :: after)) := by
  rintro (⟨-, hclose⟩ | ⟨hopen, -⟩ | ⟨before', after', h, hfirst', -, hclose⟩)
  · exact hclose (by simp)
  · exact hopen (by simp)
  · obtain ⟨rfl, rfl⟩ := eq_of_first_mark h hfirst hfirst'
    exact hclose (by simp)

/-- A text has no brackets, or `MismatchedBrackets`, or brackets in order. -/
theorem brackets_cases (t : Text) :
    ('[' ∉ t ∧ ']' ∉ t) ∨ MismatchedBrackets t ∨
      ∃ before literal after, t = before ++ '[' :: (literal ++ ']' :: after) ∧ '[' ∉ before ∧
        ']' ∉ after := by
  by_cases hopen : '[' ∈ t
  · obtain ⟨before, inside, rfl, hfirst⟩ := List.eq_append_cons_of_mem hopen
    by_cases hinside : ']' ∈ inside
    · cases hcut : Text.cutLast? ']' inside with
      | none => exact absurd hinside (Text.cutLast?_eq_none_iff.mp hcut)
      | some parts =>
          obtain ⟨rfl, hlast⟩ := Text.cutLast?_eq_some_iff.mp hcut
          exact .inr (.inr ⟨before, parts.1, parts.2, rfl, hfirst, hlast⟩)
    · -- no closing bracket behind the first opening one, but perhaps one before it
      by_cases hbefore : ']' ∈ before
      · exact .inr (.inl (.inr (.inr ⟨before, inside, rfl, hfirst, hbefore, hinside⟩)))
      · have hclose : ']' ∉ before ++ '[' :: inside := by simp [hbefore, hinside]
        exact .inr (.inl (.inl ⟨hopen, hclose⟩))
  · by_cases hclose : ']' ∈ t
    · exact .inr (.inl (.inr (.inl ⟨hopen, hclose⟩)))
    · exact .inl ⟨hopen, hclose⟩

/-- `TextAroundBrackets` for brackets in order. -/
theorem textAroundBrackets_iff {before literal after : Text} (hfirst : '[' ∉ before)
    (hlast : ']' ∉ after) :
    TextAroundBrackets (before ++ '[' :: (literal ++ ']' :: after)) ↔
      before ≠ [] ∨ ∃ between port, after = between ++ portText port ∧ ':' ∉ between ∧
        between ≠ [] ∧ ∀ scope, between ≠ '%' :: scope := by
  constructor
  · intro h
    generalize ht : before ++ '[' :: (literal ++ ']' :: after) = t at h
    cases h with
    | before hfirst' hbefore =>
        obtain ⟨rfl, -⟩ := eq_of_first_mark ht hfirst hfirst'
        exact .inl hbefore
    | @after _ between port hlast' hcolon hbetween hscope =>
        rw [← List.cons_append, ← List.append_assoc] at ht
        obtain ⟨-, rfl⟩ := eq_of_last_mark ht hlast hlast'
        exact .inr ⟨between, port, rfl, hcolon, hbetween, hscope⟩
  · rintro (hbefore | ⟨between, port, rfl, hcolon, hbetween, hscope⟩)
    · exact .before hfirst hbefore
    · rw [← List.cons_append, ← List.append_assoc]
      exact .after hlast hcolon hbetween hscope

theorem TextAroundBrackets.exists_bracket {t : Text} (h : TextAroundBrackets t) :
    '[' ∈ t ∨ ']' ∈ t := by
  cases h with
  | before => exact .inl (by simp)
  | after => exact .inr (by simp)

namespace Layout

theorem ofBracketed_eq_error_iff {literal after : Text} {fault : AddressFault} :
    ofBracketed literal after = .error fault ↔
      fault = .unexpectedText ∧ ∃ between port, after = between ++ portText port ∧ ':' ∉ between ∧
        between ≠ [] ∧ ∀ scope, between ≠ '%' :: scope := by
  constructor
  · intro h
    cases hsplit : splitAtFirst ':' after with
    | mk between port =>
        obtain ⟨hafter, hcolon⟩ := splitAtFirst_colon_eq hsplit
        unfold ofBracketed at h
        rw [hsplit] at h
        cases between with
        | nil => cases h
        | cons c rest =>
            by_cases hc : c = '%'
            · subst hc
              cases h
            · have hscope : ∀ scope, c :: rest ≠ '%' :: scope := by
                intro scope heq
                exact hc (List.cons.inj heq).1
              simp only at h
              cases h
              exact ⟨rfl, _, port, hafter, hcolon, List.cons_ne_nil _ _, hscope⟩
  · rintro ⟨rfl, between, port, rfl, hcolon, hbetween, hscope⟩
    unfold ofBracketed
    rw [splitAtFirst_portText port hcolon]
    split
    · next heq => exact absurd (Prod.mk.inj heq).1 (hscope _)
    · next heq => exact absurd (Prod.mk.inj heq).1 hbetween
    · rfl

theorem ofText_of_mismatchedBrackets {t : Text} (h : MismatchedBrackets t) :
    ofText t = .error .mismatchedBrackets := by
  unfold ofText
  cases hopen : t.cutFirst? '[' with
  | none =>
      have hno : '[' ∉ t := Text.cutFirst?_eq_none_iff.mp hopen
      rcases h with ⟨hyes, -⟩ | ⟨-, hclose⟩ | ⟨before, after, rfl, -⟩
      · exact absurd hyes hno
      · exact if_pos hclose
      · exact absurd (by simp) hno
  | some parts =>
      obtain ⟨rfl, hfirst⟩ := Text.cutFirst?_eq_some_iff.mp hopen
      have hinside : ']' ∉ parts.2 := by
        rcases h with ⟨-, hclose⟩ | ⟨hno, -⟩ | ⟨before, after, heq, hfirst', -, hclose⟩
        · exact fun hmem => hclose (by simp [hmem])
        · exact absurd (by simp) hno
        · rw [(eq_of_first_mark heq hfirst hfirst').2]
          exact hclose
      simp only [Text.cutLast?_eq_none_iff.mpr hinside]

theorem ofText_of_brackets {before literal after : Text} (hfirst : '[' ∉ before)
    (hlast : ']' ∉ after) :
    ofText (before ++ '[' :: (literal ++ ']' :: after)) =
      if before.isEmpty then ofBracketed literal after else .error .unexpectedText := by
  have hcut : Text.cutLast? ']' (literal ++ ']' :: after) = some (literal, after) :=
    Text.cutLast?_eq_some_iff.mpr ⟨rfl, hlast⟩
  unfold ofText
  simp only [Text.cutFirst?_append _ hfirst, hcut]

/-- **`Layout.ofText` fails exactly for `MismatchedBrackets` and `TextAroundBrackets`.** -/
theorem ofText_eq_error_iff {t : Text} {fault : AddressFault} :
    ofText t = .error fault ↔
      (fault = .mismatchedBrackets ∧ MismatchedBrackets t) ∨
        (fault = .unexpectedText ∧ ¬MismatchedBrackets t ∧ TextAroundBrackets t) := by
  rcases brackets_cases t with ⟨hopen, hclose⟩ | h | ⟨before, literal, after, rfl, hfirst, hlast⟩
  · rw [ofText_unbracketed hopen hclose]
    constructor
    · intro h; cases h
    · rintro (⟨-, h⟩ | ⟨-, -, h⟩)
      · rcases h with ⟨h, -⟩ | ⟨-, h⟩ | ⟨_, _, rfl, -⟩
        · exact absurd h hopen
        · exact absurd h hclose
        · exact absurd (by simp) hopen
      · exact absurd h.exists_bracket (not_or.mpr ⟨hopen, hclose⟩)
  · rw [ofText_of_mismatchedBrackets h]
    constructor
    · intro heq; cases heq; exact .inl ⟨rfl, h⟩
    · rintro (⟨rfl, -⟩ | ⟨-, hno, -⟩)
      · rfl
      · exact absurd h hno
  · have hordered : ¬MismatchedBrackets (before ++ '[' :: (literal ++ ']' :: after)) :=
      not_mismatchedBrackets hfirst
    rw [ofText_of_brackets hfirst hlast, textAroundBrackets_iff hfirst hlast]
    by_cases hbefore : before = []
    · simp only [hbefore, List.isEmpty_nil, if_true, ne_eq, not_true_eq_false, false_or]
      rw [hbefore] at hordered
      simp only [ofBracketed_eq_error_iff, hordered, not_false_eq_true, true_and, and_false, false_or]
    · have hne : before.isEmpty = false := List.isEmpty_eq_false_iff.mpr hbefore
      simp [hne, hbefore, hordered, eq_comm]

end Layout

/-! ## Parts -/

/-- The parts of a text: the family, the host, the scope behind the host, the scope behind the closing
    bracket, and the port. -/
structure AddressParts where
  family : Family
  host : Text
  innerScope : Option Text
  outerScope : Option Text
  port : Option Text

/-- The parts of the texts that have a layout. Colons and brackets make the family; a `%` ends the host of
    an IPv6 literal, and has no meaning in an IPv4 one. -/
inductive Parted : Text → AddressParts → Prop where
  | v4 {t host : Text} {port : Option Text} (hlaid : Laid t (.v4 host port)) :
      Parted t ⟨.ipv4, host, none, none, port⟩
  | v6 {t host : Text} {outer port : Option Text} (hlaid : Laid t (.v6 host outer port))
      (hhost : '%' ∉ host) :
      Parted t ⟨.ipv6, host, none, outer, port⟩
  | v6Scoped {t host scope : Text} {outer port : Option Text}
      (hlaid : Laid t (.v6 (host ++ '%' :: scope) outer port)) (hhost : '%' ∉ host) :
      Parted t ⟨.ipv6, host, some scope, outer, port⟩

/-- The parts of a layout, the literal cut at its `%`. -/
def Layout.parts : Layout → AddressParts
  | v4 host port => ⟨.ipv4, host, none, none, port⟩
  | v6 literal outer port =>
    ⟨.ipv6, (splitAtFirst '%' literal).1, (splitAtFirst '%' literal).2, outer, port⟩

theorem parted_iff {t : Text} {parts : AddressParts} :
    Parted t parts ↔ ∃ layout, Layout.ofText t = .ok layout ∧ layout.parts = parts := by
  simp only [Layout.ofText_eq_ok_iff]
  constructor
  · intro h
    cases h with
    | v4 hlaid => exact ⟨_, hlaid, rfl⟩
    | v6 hlaid hhost =>
        refine ⟨_, hlaid, ?_⟩
        simp only [Layout.parts, splitAtFirst_of_not_mem hhost]
    | v6Scoped hlaid hhost =>
        refine ⟨_, hlaid, ?_⟩
        simp only [Layout.parts, splitAtFirst_append _ hhost]
  · rintro ⟨layout, hlaid, rfl⟩
    cases layout with
    | v4 host port => exact .v4 hlaid
    | v6 literal outer port =>
        cases hcut : literal.cutFirst? '%' with
        | none =>
            simp only [Layout.parts, splitAtFirst, hcut]
            exact .v6 hlaid (Text.cutFirst?_eq_none_iff.mp hcut)
        | some cut =>
            simp only [Layout.parts, splitAtFirst, hcut]
            obtain ⟨rfl, hhost⟩ := Text.cutFirst?_eq_some_iff.mp hcut
            exact .v6Scoped hlaid hhost

/-- A text with a layout is `Parted` into the parts of that layout, and no others. -/
theorem parted_iff_of_layout {t : Text} {layout : Layout} {parts : AddressParts}
    (hlayout : Layout.ofText t = .ok layout) : Parted t parts ↔ parts = layout.parts := by
  rw [parted_iff]
  constructor
  · rintro ⟨layout', hlayout', rfl⟩
    rw [hlayout] at hlayout'
    cases hlayout'
    rfl
  · rintro rfl
    exact ⟨layout, hlayout, rfl⟩

/-- **A text has parts, and in one way only, unless something is wrong with its brackets.** -/
theorem existsUnique_parted_iff {t : Text} :
    (∃! parts, Parted t parts) ↔ ¬MismatchedBrackets t ∧ ¬TextAroundBrackets t := by
  constructor
  · rintro ⟨parts, hparts, -⟩
    obtain ⟨layout, hlayout, -⟩ := parted_iff.mp hparts
    have hordered : ¬MismatchedBrackets t := by
      intro h
      rw [Layout.ofText_of_mismatchedBrackets h] at hlayout
      cases hlayout
    refine ⟨hordered, ?_⟩
    intro h
    rw [Layout.ofText_eq_error_iff.mpr (.inr ⟨rfl, hordered, h⟩)] at hlayout
    cases hlayout
  · rintro ⟨hordered, haround⟩
    cases hlayout : Layout.ofText t with
    | error fault =>
        rcases Layout.ofText_eq_error_iff.mp hlayout with ⟨-, h⟩ | ⟨-, -, h⟩
        · exact absurd h hordered
        · exact absurd h haround
    | ok layout =>
        refine ⟨layout.parts, (parted_iff_of_layout hlayout).mpr rfl, ?_⟩
        intro parts hparts
        exact (parted_iff_of_layout hlayout).mp hparts

/-! ## What is wrong with the parts -/

/-- The texts that `readPort` refuses, each with the cause. -/
inductive PortRefused (p : Text) : NumberError → Prop where
  | malformed {e : NumberError} (hnumber : parseUInt64 p = .error e) : PortRefused p e
  | tooLarge {n : UInt64} (hnumber : parseUInt64 p = .ok n) (hrange : 65535 < n.toNat) :
      PortRefused p ⟨.outOfRange, p⟩

theorem readPort_eq_error_iff {p : Text} {fault : AddressFault} :
    readPort p = .error fault ↔ ∃ e, PortRefused p e ∧ fault = .invalidPort e := by
  unfold readPort
  cases hnumber : parseUInt64 p with
  | error e =>
      constructor
      · intro h; cases h; exact ⟨e, .malformed hnumber, rfl⟩
      · rintro ⟨e', h | h, rfl⟩
        · rw [hnumber] at h; cases h; rfl
        · rw [hnumber] at h; cases h
  | ok n =>
      have hsize : UInt16.size = 65536 := rfl
      simp only
      split
      · next hrange =>
          constructor
          · intro h; cases h
          · rintro ⟨_, h | ⟨h, hlarge⟩, -⟩
            · rw [hnumber] at h; cases h
            · rw [hnumber] at h; cases h; omega
      · next hrange =>
          constructor
          · intro h; cases h; exact ⟨_, .tooLarge hnumber (by omega), rfl⟩
          · rintro ⟨_, h | h, rfl⟩
            · rw [hnumber] at h; cases h
            · rfl

theorem map_eq_error_iff {ε α β : Type} {x : Except ε α} {f : α → β} {e : ε} :
    x.map f = .error e ↔ x = .error e := by
  cases x <;> simp [Except.map]

theorem readPort?_eq_error_iff {p : Option Text} {fault : AddressFault} :
    readPort? p = .error fault ↔
      ∃ port e, p = some port ∧ PortRefused port e ∧ fault = .invalidPort e := by
  cases p with
  | none =>
      constructor
      · intro h; cases h
      · rintro ⟨_, _, h, -⟩; cases h
  | some port =>
      show (readPort port).map some = .error fault ↔ _
      rw [map_eq_error_iff, readPort_eq_error_iff]
      constructor
      · rintro ⟨e, hrefused, rfl⟩
        exact ⟨port, e, rfl, hrefused, rfl⟩
      · rintro ⟨_, e, hport, hrefused, rfl⟩
        cases hport
        exact ⟨e, hrefused, rfl⟩

/-- The texts that are an IP address of the family. -/
def Family.IsLiteral : Family → Text → Prop
  | unspecified, _ => False
  | ipv4, host => ∃ ip, Ipv4.ofText? host = some ip
  | ipv6, host => ∃ ip, Ipv6.ofText? host = some ip

namespace AddressParts

/-- `maxIpv4Length` or `maxIpv6Length`. -/
def maxLength (p : AddressParts) : Nat :=
  match p.family with
  | .ipv6 => 45
  | _ => 15

/-- The scope, wherever it stands. -/
def scope (p : AddressParts) : Option Text := p.innerScope.or p.outerScope

/-- Why the parts are refused, the first of these: the length of the host, a second scope, the host, the
    port. -/
inductive Refused (p : AddressParts) : AddressFault → Prop where
  | tooLong (hlength : p.maxLength < p.host.byteLength) : Refused p (.tooLong p.family)
  | secondScope (hlength : p.host.byteLength ≤ p.maxLength)
      (hscopes : p.innerScope ≠ none ∧ p.outerScope ≠ none) : Refused p .unexpectedText
  | notAnIpAddress (hlength : p.host.byteLength ≤ p.maxLength)
      (hscopes : ¬(p.innerScope ≠ none ∧ p.outerScope ≠ none))
      (hhost : ¬p.family.IsLiteral p.host) : Refused p .notAnIpAddress
  | invalidPort {port : Text} {e : NumberError} (hlength : p.host.byteLength ≤ p.maxLength)
      (hscopes : ¬(p.innerScope ≠ none ∧ p.outerScope ≠ none))
      (hhost : p.family.IsLiteral p.host) (hport : p.port = some port)
      (hrefused : PortRefused port e) : Refused p (.invalidPort e)

variable {p : AddressParts} {fault : AddressFault}

theorem refused_iff_of_tooLong (hlength : p.maxLength < p.host.byteLength) :
    p.Refused fault ↔ fault = .tooLong p.family := by
  constructor
  · intro h
    cases h with
    | tooLong => rfl
    | secondScope h => omega
    | notAnIpAddress h => omega
    | invalidPort h => omega
  · rintro rfl
    exact .tooLong hlength

theorem refused_iff_of_secondScope (hlength : p.host.byteLength ≤ p.maxLength)
    (hscopes : p.innerScope ≠ none ∧ p.outerScope ≠ none) :
    p.Refused fault ↔ fault = .unexpectedText := by
  constructor
  · intro h
    cases h with
    | tooLong h => omega
    | secondScope => rfl
    | notAnIpAddress _ h => exact absurd hscopes h
    | invalidPort _ h => exact absurd hscopes h
  · rintro rfl
    exact .secondScope hlength hscopes

theorem refused_iff_of_notLiteral (hlength : p.host.byteLength ≤ p.maxLength)
    (hscopes : ¬(p.innerScope ≠ none ∧ p.outerScope ≠ none)) (hhost : ¬p.family.IsLiteral p.host) :
    p.Refused fault ↔ fault = .notAnIpAddress := by
  constructor
  · intro h
    cases h with
    | tooLong h => omega
    | secondScope _ h => exact absurd h hscopes
    | notAnIpAddress => rfl
    | invalidPort _ _ h => exact absurd h hhost
  · rintro rfl
    exact .notAnIpAddress hlength hscopes hhost

theorem refused_iff_of_literal (hlength : p.host.byteLength ≤ p.maxLength)
    (hscopes : ¬(p.innerScope ≠ none ∧ p.outerScope ≠ none)) (hhost : p.family.IsLiteral p.host) :
    p.Refused fault ↔ readPort? p.port = .error fault := by
  rw [readPort?_eq_error_iff]
  constructor
  · intro h
    cases h with
    | tooLong h => omega
    | secondScope _ h => exact absurd h hscopes
    | notAnIpAddress _ _ h => exact absurd hhost h
    | invalidPort _ _ _ hport hrefused => exact ⟨_, _, hport, hrefused, rfl⟩
  · rintro ⟨port, e, hport, hrefused, rfl⟩
    exact .invalidPort hlength hscopes hhost hport hrefused

end AddressParts

/-- **`ofLayout` fails exactly for `Refused` parts**, with the fault they are refused for. -/
theorem ofLayout_eq_error_iff {layout : Layout} {fault : AddressFault} :
    Spelling.ofLayout layout = .error fault ↔ layout.parts.Refused fault := by
  cases layout with
  | v4 host port =>
      have hone : ¬((none : Option Text) ≠ none ∧ (none : Option Text) ≠ none) := fun h => h.1 rfl
      show Spelling.ofIpv4Parts host port = .error fault ↔
        AddressParts.Refused ⟨.ipv4, host, none, none, port⟩ fault
      unfold Spelling.ofIpv4Parts
      split
      · next hlength =>
          rw [AddressParts.refused_iff_of_tooLong (p := ⟨.ipv4, host, none, none, port⟩) hlength,
            Except.error.injEq, eq_comm]
      · next hlength =>
          have hlength' : host.byteLength ≤ 15 := Nat.le_of_not_lt hlength
          split
          · next hip =>
              have hhost : ¬Family.ipv4.IsLiteral host := by simp [Family.IsLiteral, hip]
              rw [AddressParts.refused_iff_of_notLiteral (p := ⟨.ipv4, host, none, none, port⟩) hlength'
                hone hhost, Except.error.injEq, eq_comm]
          · next ip hip =>
              rw [AddressParts.refused_iff_of_literal (p := ⟨.ipv4, host, none, none, port⟩) hlength'
                hone ⟨ip, hip⟩, map_eq_error_iff]
  | v6 literal outer port =>
      show Spelling.ofIpv6Parts literal outer port = .error fault ↔
        AddressParts.Refused ⟨.ipv6, (splitAtFirst '%' literal).1, (splitAtFirst '%' literal).2, outer,
          port⟩ fault
      unfold Spelling.ofIpv6Parts
      cases splitAtFirst '%' literal with
      | mk host inner =>
      simp only
      split
      · next hlength =>
          rw [AddressParts.refused_iff_of_tooLong (p := ⟨.ipv6, host, inner, outer, port⟩) hlength,
            Except.error.injEq, eq_comm]
      · next hlength =>
          have hlength' : host.byteLength ≤ 45 := Nat.le_of_not_lt hlength
          split
          · next htwo =>
              rw [isSome_and_isSome_iff] at htwo
              rw [AddressParts.refused_iff_of_secondScope (p := ⟨.ipv6, host, inner, outer, port⟩)
                hlength' htwo, Except.error.injEq, eq_comm]
          · next hone =>
              rw [isSome_and_isSome_iff] at hone
              split
              · next hip =>
                  have hhost : ¬Family.ipv6.IsLiteral host := by simp [Family.IsLiteral, hip]
                  rw [AddressParts.refused_iff_of_notLiteral (p := ⟨.ipv6, host, inner, outer, port⟩)
                    hlength' hone hhost, Except.error.injEq, eq_comm]
              · next ip hip =>
                  rw [AddressParts.refused_iff_of_literal (p := ⟨.ipv6, host, inner, outer, port⟩)
                    hlength' hone ⟨ip, hip⟩, map_eq_error_iff]

/-! ## Scopes that do not resolve -/

/-- The texts that `resolveScope` refuses, each with the cause. -/
inductive ScopeRefused (interfaces : Interfaces) (scope : Text) : ScopeFault → Prop where
  | malformed {e : NumberError} (hdigits : IsDigitScope scope)
      (hnumber : parseUInt64 scope = .error e) : ScopeRefused interfaces scope (.number e)
  | tooLarge {n : UInt64} (hdigits : IsDigitScope scope) (hnumber : parseUInt64 scope = .ok n)
      (hrange : 2 ^ 32 ≤ n.toNat) : ScopeRefused interfaces scope (.number ⟨.outOfRange, scope⟩)
  | unknown {e : LookupError} (hdigits : ¬IsDigitScope scope)
      (hlookup : interfaces scope = .error e) : ScopeRefused interfaces scope (.lookup e)

theorem resolveScope_eq_error_iff {interfaces : Interfaces} {scope : Text} {fault : ScopeFault} :
    (resolveScope interfaces scope).value = .error fault ↔ ScopeRefused interfaces scope fault := by
  unfold resolveScope
  by_cases hdigits : IsDigitScope scope
  · rw [if_pos (isNumericScope_iff.mpr hdigits)]
    show readScope scope = .error fault ↔ _
    unfold readScope
    constructor
    · intro h
      split at h
      · next hnumber => cases h; exact .malformed hdigits hnumber
      · next hnumber =>
          split at h
          · cases h
          · next hrange => cases h; exact .tooLarge hdigits hnumber (Nat.le_of_not_lt hrange)
    · intro h
      cases h with
      | malformed _ hnumber => rw [hnumber]
      | tooLarge _ hnumber hrange =>
          rw [hnumber]
          exact if_neg (Nat.not_lt.mpr hrange)
      | unknown hno => exact absurd hdigits hno
  · rw [if_neg (fun h => hdigits (isNumericScope_iff.mp h))]
    constructor
    · intro h
      split at h
      · next hlookup => cases h; exact .unknown hdigits hlookup
      · cases h
    · intro h
      cases h with
      | malformed hyes => exact absurd hyes hdigits
      | tooLarge hyes => exact absurd hyes hdigits
      | unknown _ hlookup => rw [hlookup]; rfl

namespace Spelling

/-- The scope of a spelling. -/
def scope : Spelling → Option Text
  | v4 _ _ => none
  | v6 _ scope _ => scope

/-- The scope of a spelling is that of its layout. -/
theorem scope_of_ofLayout {layout : Layout} {s : Spelling} (h : ofLayout layout = .ok s) :
    s.scope = layout.parts.scope := by
  cases layout with
  | v4 host port =>
      obtain ⟨ip, p, -, -, rfl⟩ := ofIpv4Parts_eq_ok_iff.mp h
      rfl
  | v6 literal outer port =>
      obtain ⟨host, inner, ip, p, hsplit, -, -, -, rfl⟩ := ofIpv6Parts_eq_ok_iff.mp h
      show inner.or outer = (splitAtFirst '%' literal).2.or outer
      rw [hsplit]

end Spelling

/-- `resolve` fails exactly for a refused scope. -/
theorem resolve_eq_error_iff {interfaces : Interfaces} {defaultPort : UInt16} {s : Spelling}
    {fault : AddressFault} :
    (s.resolve interfaces defaultPort).value = .error fault ↔
      ∃ scope cause, s.scope = some scope ∧ ScopeRefused interfaces scope cause ∧
        fault = .invalidScope scope cause := by
  simp only [← resolveScope_eq_error_iff]
  cases s with
  | v4 ip port => simp [Spelling.resolve, Spelling.scope, Logged.quiet]
  | v6 ip scope port =>
      cases scope with
      | none => simp [Spelling.resolve, Spelling.scope, Logged.quiet]
      | some scope =>
          unfold Spelling.resolve
          rw [Logged.value_map]
          cases hvalue : (resolveScope interfaces scope).value with
          | error cause => simp [Spelling.scope, hvalue, eq_comm]
          | ok index => simp [Spelling.scope, hvalue]

/-! ## The classification -/

/-- The faults of a text on a machine, the first of these: mismatched brackets, something around the
    brackets, parts that are refused, and a scope that does not resolve. -/
inductive Address.Faulty (interfaces : Interfaces) (t : Text) : AddressFault → Prop where
  | mismatchedBrackets (hbrackets : MismatchedBrackets t) :
      Address.Faulty interfaces t .mismatchedBrackets
  | textAround (hbrackets : ¬MismatchedBrackets t) (haround : TextAroundBrackets t) :
      Address.Faulty interfaces t .unexpectedText
  | refused {parts : AddressParts} {fault : AddressFault} (hbrackets : ¬MismatchedBrackets t)
      (haround : ¬TextAroundBrackets t) (hparts : Parted t parts) (hrefused : parts.Refused fault) :
      Address.Faulty interfaces t fault
  | invalidScope {parts : AddressParts} {scope : Text} {cause : ScopeFault}
      (hbrackets : ¬MismatchedBrackets t) (haround : ¬TextAroundBrackets t) (hparts : Parted t parts)
      (hread : ∀ fault, ¬parts.Refused fault) (hscope : parts.scope = some scope)
      (hcause : ScopeRefused interfaces scope cause) :
      Address.Faulty interfaces t (.invalidScope scope cause)

/-- `parse` fails in one of its three stages, with the complete text. -/
theorem Address.parse_eq_error_iff {interfaces : Interfaces} {t : Text} {defaultPort : UInt16}
    {e : AddressError} :
    (Address.parse interfaces t defaultPort).value = .error e ↔
      e.input = t ∧ (Layout.ofText t = .error e.fault ∨
        ∃ layout, Layout.ofText t = .ok layout ∧ (Spelling.ofLayout layout = .error e.fault ∨
          ∃ s, Spelling.ofLayout layout = .ok s ∧
            (s.resolve interfaces defaultPort).value = .error e.fault)) := by
  obtain ⟨fault, input⟩ := e
  unfold Address.parse Spelling.ofText
  cases Layout.ofText t with
  | error fault' => simp [Logged.quiet, and_comm, eq_comm]
  | ok layout =>
      simp only [Except.ok.injEq, exists_eq_left', reduceCtorEq, false_or]
      cases Spelling.ofLayout layout with
      | error fault' => simp [Logged.quiet, and_comm, eq_comm]
      | ok s =>
          simp only [Except.ok.injEq, exists_eq_left', reduceCtorEq, false_or, Logged.value_map]
          cases (s.resolve interfaces defaultPort).value with
          | error fault' => simp [and_comm, eq_comm]
          | ok a => simp

namespace Address

variable {interfaces : Interfaces} {t : Text} {fault : AddressFault}

/-- `Faulty` for a text without a layout is the fault of its brackets. -/
theorem faulty_iff_of_no_layout {cause : AddressFault} (hlayout : Layout.ofText t = .error cause) :
    Faulty interfaces t fault ↔ cause = fault := by
  have hparts : ∀ parts, ¬Parted t parts := by
    intro parts h
    obtain ⟨layout, hok, -⟩ := parted_iff.mp h
    rw [hlayout] at hok
    cases hok
  rcases Layout.ofText_eq_error_iff.mp hlayout with ⟨rfl, hmismatched⟩ | ⟨rfl, hordered, haround⟩
  · constructor
    · intro h
      cases h with
      | mismatchedBrackets => rfl
      | textAround hordered => exact absurd hmismatched hordered
      | refused hordered => exact absurd hmismatched hordered
      | invalidScope hordered => exact absurd hmismatched hordered
    · rintro rfl
      exact .mismatchedBrackets hmismatched
  · constructor
    · intro h
      cases h with
      | mismatchedBrackets hmismatched => exact absurd hmismatched hordered
      | textAround => rfl
      | refused _ hno => exact absurd haround hno
      | invalidScope _ hno => exact absurd haround hno
    · rintro rfl
      exact .textAround hordered haround

/-- `Faulty` for a text with a layout is the fault of its parts, or else of its scope. -/
theorem faulty_iff_of_layout {layout : Layout} (hlayout : Layout.ofText t = .ok layout) :
    Faulty interfaces t fault ↔
      layout.parts.Refused fault ∨ (∀ other, ¬layout.parts.Refused other) ∧
        ∃ scope cause, layout.parts.scope = some scope ∧ ScopeRefused interfaces scope cause ∧
          fault = .invalidScope scope cause := by
  have hparted : Parted t layout.parts := (parted_iff_of_layout hlayout).mpr rfl
  have hone : ∀ parts, Parted t parts → parts = layout.parts := by
    intro parts hparts
    exact (parted_iff_of_layout hlayout).mp hparts
  obtain ⟨hordered, haround⟩ := existsUnique_parted_iff.mp ⟨layout.parts, hparted, hone⟩
  constructor
  · intro h
    cases h with
    | mismatchedBrackets hmismatched => exact absurd hmismatched hordered
    | textAround _ hyes => exact absurd hyes haround
    | refused _ _ hparts hrefused => exact .inl (hone _ hparts ▸ hrefused)
    | invalidScope _ _ hparts hread hscope hcause =>
        rw [hone _ hparts] at hread hscope
        exact .inr ⟨hread, _, _, hscope, hcause, rfl⟩
  · rintro (hrefused | ⟨hread, scope, cause, hscope, hcause, rfl⟩)
    · exact .refused hordered haround hparted hrefused
    · exact .invalidScope hordered haround hparted hread hscope hcause

/-- `parse` fails exactly with the `Faulty` fault. -/
theorem parse_eq_error_iff_faulty {defaultPort : UInt16} {e : AddressError} :
    (parse interfaces t defaultPort).value = .error e ↔
      e.input = t ∧ Faulty interfaces t e.fault := by
  rw [parse_eq_error_iff]
  refine and_congr_right fun _ => ?_
  cases hlayout : Layout.ofText t with
  | error cause => simp [faulty_iff_of_no_layout hlayout]
  | ok layout =>
      simp only [Except.ok.injEq, exists_eq_left', reduceCtorEq, false_or,
        faulty_iff_of_layout hlayout, ← ofLayout_eq_error_iff]
      cases hread : Spelling.ofLayout layout with
      | error cause => simp
      | ok s => simp [resolve_eq_error_iff, Spelling.scope_of_ofLayout hread]

/-- **A text is refused exactly for its first fault**, whatever else is wrong with it, and with the complete
    text. The parts that the later faults are about exist, and are determined (`Parted`), exactly if nothing
    is wrong with the brackets. -/
theorem parse_refuses_for_first_fault (interfaces : Interfaces) (t : Text) (defaultPort : UInt16)
    (e : AddressError) :
    ((parse interfaces t defaultPort).value = .error e ↔
        e.input = t ∧ Faulty interfaces t e.fault) ∧
      ((∃! parts, Parted t parts) ↔ ¬MismatchedBrackets t ∧ ¬TextAroundBrackets t) :=
  ⟨parse_eq_error_iff_faulty, existsUnique_parted_iff⟩

/-- A second scope, a host that is no IP address and a port that is no number. -/
example : (parse .loopbackOnly "[::x%1]%2:y".toList 0).value =
    .error ⟨.unexpectedText, "[::x%1]%2:y".toList⟩ := rfl

end Address

end NetKit
