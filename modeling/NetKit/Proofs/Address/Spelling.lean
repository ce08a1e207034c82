import NetKit.Address.Parser
import NetKit.Proofs.Ip.V6
import NetKit.Proofs.Number.IntegerNumeral

/-!
# Layouts and spellings — which texts have which parts, exactly

`Address.parse` never builds a grammar. `Layout.ofText` looks at the first opening and the last closing
bracket of the whole text and at the first colon after them, and `Spelling.ofLayout` at the first `%` of the
literal. This file says what comes out of that: each of the two stages accepts exactly the texts of a small
inductive relation, which writes the parts down in the order in which they stand.

Both stages are stated as equivalences, so no later proof about whole addresses cuts a text again.

## Contents
- `portText`: a port as it stands behind an address.
- `Laid`, `Layout.ofText_eq_ok_iff`: the parts of a text.
- `PortSuffix`, `readPort?_eq_ok_iff`: ports.
- `Spelled`, `Spelling.ofText_eq_ok_iff`: the parts read.
-/

namespace NetKit

/-- The text of an optional port behind an address. -/
def portText : Option Text → Text
  | none => []
  | some p => ':' :: p

/-! ## Layouts -/

/-- The texts of a `Layout`. Without brackets, one colon at most makes the text IPv4. With them, the first
    character is the opening bracket and nothing after the closing one is another. -/
inductive Laid : Text → Layout → Prop where
  | v4 {host : Text} {port : Option Text}
      (hhost : ':' ∉ host) (hport : ∀ p, port = some p → ':' ∉ p)
      (hopen : '[' ∉ host ++ portText port) (hclose : ']' ∉ host ++ portText port) :
      Laid (host ++ portText port) (.v4 host port)
  | bare {t : Text} (hopen : '[' ∉ t) (hclose : ']' ∉ t) (hcolons : 2 ≤ t.count ':') :
      Laid t (.v6 t none none)
  | bracketed {literal : Text} {port : Option Text} (hclose : ']' ∉ portText port) :
      Laid ('[' :: (literal ++ ']' :: portText port)) (.v6 literal none port)
  | outerScoped {literal scope : Text} {port : Option Text}
      (hscope : ':' ∉ scope) (hclose : ']' ∉ scope ++ portText port) :
      Laid ('[' :: (literal ++ ']' :: '%' :: (scope ++ portText port)))
        (.v6 literal (some scope) port)

/-- `splitAtFirst` does not split a text without the mark. -/
theorem splitAtFirst_of_not_mem {mark : Char} {t : Text} (h : mark ∉ t) :
    splitAtFirst mark t = (t, none) := by
  unfold splitAtFirst
  rw [Text.cutFirst?_eq_none_iff.mpr h]

/-- `splitAtFirst` gives the part without the mark and, behind it, the rest. -/
theorem splitAtFirst_append {mark : Char} {before : Text} (after : Text) (h : mark ∉ before) :
    splitAtFirst mark (before ++ mark :: after) = (before, some after) := by
  unfold splitAtFirst
  rw [Text.cutFirst?_append after h]

theorem splitAtFirst_portText {before : Text} (port : Option Text) (h : ':' ∉ before) :
    splitAtFirst ':' (before ++ portText port) = (before, port) := by
  cases port with
  | none =>
      have hnone : before ++ portText none = before := List.append_nil before
      rw [hnone]
      exact splitAtFirst_of_not_mem h
  | some p => exact splitAtFirst_append p h

theorem splitAtFirst_colon_eq {t before : Text} {port : Option Text}
    (h : splitAtFirst ':' t = (before, port)) : t = before ++ portText port ∧ ':' ∉ before := by
  unfold splitAtFirst at h
  cases hcut : t.cutFirst? ':' with
  | none =>
      rw [hcut] at h
      cases h
      exact ⟨(List.append_nil _).symm, Text.cutFirst?_eq_none_iff.mp hcut⟩
  | some parts =>
      obtain ⟨b, a⟩ := parts
      rw [hcut] at h
      cases h
      exact Text.cutFirst?_eq_some_iff.mp hcut

theorem ofUnbracketed_v4 {host : Text} {port : Option Text} (hhost : ':' ∉ host)
    (hport : ∀ p, port = some p → ':' ∉ p) :
    Layout.ofUnbracketed (host ++ portText port) = .v4 host port := by
  unfold Layout.ofUnbracketed
  cases port with
  | none =>
      rw [show host ++ portText none = host from List.append_nil _,
        Text.cutFirst?_eq_none_iff.mpr hhost]
  | some p =>
      rw [show host ++ portText (some p) = host ++ ':' :: p from rfl, Text.cutFirst?_append p hhost]
      simp only [if_neg (hport p rfl)]

theorem ofUnbracketed_bare {t : Text} (hcolons : 2 ≤ t.count ':') :
    Layout.ofUnbracketed t = .v6 t none none := by
  unfold Layout.ofUnbracketed
  cases hcut : t.cutFirst? ':' with
  | none =>
      rw [List.count_eq_zero_of_not_mem (Text.cutFirst?_eq_none_iff.mp hcut)] at hcolons
      exact absurd hcolons (by decide)
  | some parts =>
      obtain ⟨before, after⟩ := parts
      obtain ⟨rfl, hbefore⟩ := Text.cutFirst?_eq_some_iff.mp hcut
      have hmem : ':' ∈ after := by
        rw [List.count_append, List.count_eq_zero_of_not_mem hbefore, List.count_cons_self] at hcolons
        exact List.count_pos_iff.mp (by omega)
      simp only [if_pos hmem]

/-- A text without brackets is `Laid` by its colons. -/
theorem laid_ofUnbracketed {t : Text} (hopen : '[' ∉ t) (hclose : ']' ∉ t) :
    Laid t (Layout.ofUnbracketed t) := by
  cases hcut : t.cutFirst? ':' with
  | none =>
      have hnone : ':' ∉ t := Text.cutFirst?_eq_none_iff.mp hcut
      have ht : t ++ portText none = t := List.append_nil t
      rw [← ht] at hopen hclose ⊢
      rw [ofUnbracketed_v4 hnone (by simp)]
      exact .v4 hnone (by simp) hopen hclose
  | some parts =>
      -- a second colon makes the text IPv6, otherwise the port stands behind the only one
      obtain ⟨before, after⟩ := parts
      obtain ⟨rfl, hbefore⟩ := Text.cutFirst?_eq_some_iff.mp hcut
      by_cases hafter : ':' ∈ after
      · have hcolons : 2 ≤ (before ++ ':' :: after).count ':' := by
          rw [List.count_append, List.count_cons_self]
          have := List.count_pos_iff.mpr hafter
          omega
        rw [ofUnbracketed_bare hcolons]
        exact .bare hopen hclose hcolons
      · have hport : ∀ p, some after = some p → ':' ∉ p := by
          intro p hp; exact Option.some.inj hp ▸ hafter
        have ht : before ++ portText (some after) = before ++ ':' :: after := rfl
        rw [← ht] at hopen hclose ⊢
        rw [ofUnbracketed_v4 hbefore hport]
        exact .v4 hbefore hport hopen hclose

/-- `ofBracketed` is how a literal in brackets and the text after it are `Laid`. -/
theorem laid_ofBracketed {literal after : Text} {layout : Layout} (hclose : ']' ∉ after)
    (h : Layout.ofBracketed literal after = .ok layout) :
    Laid ('[' :: (literal ++ ']' :: after)) layout := by
  cases hsplit : splitAtFirst ':' after with
  | mk before port =>
      obtain ⟨rfl, hbefore⟩ := splitAtFirst_colon_eq hsplit
      unfold Layout.ofBracketed at h
      rw [hsplit] at h
      cases before with
      | nil => cases h; exact .bracketed hclose
      | cons c scope =>
          -- between the bracket and the port only a scope may stand
          by_cases hc : c = '%'
          · subst hc
            cases h
            rw [List.cons_append, List.mem_cons, not_or] at hclose
            exact .outerScoped (fun hmem => hbefore (List.mem_cons_of_mem _ hmem)) hclose.2
          · simp only at h
            cases h

theorem ofText_bracketed {literal after : Text} (hclose : ']' ∉ after) :
    Layout.ofText ('[' :: (literal ++ ']' :: after)) = Layout.ofBracketed literal after := by
  have hopen : Text.cutFirst? '[' ('[' :: (literal ++ ']' :: after)) =
      some ([], literal ++ ']' :: after) := Text.cutFirst?_eq_some_iff.mpr ⟨rfl, by simp⟩
  have hlast : Text.cutLast? ']' (literal ++ ']' :: after) = some (literal, after) :=
    Text.cutLast?_eq_some_iff.mpr ⟨rfl, hclose⟩
  unfold Layout.ofText
  simp only [hopen, hlast, List.isEmpty_nil, if_true]

theorem ofText_unbracketed {t : Text} (hopen : '[' ∉ t) (hclose : ']' ∉ t) :
    Layout.ofText t = .ok (Layout.ofUnbracketed t) := by
  unfold Layout.ofText
  rw [Text.cutFirst?_eq_none_iff.mpr hopen]
  simp only [if_neg hclose]

/-- **`Layout.ofText` accepts exactly the texts that are `Laid`.** -/
theorem Layout.ofText_eq_ok_iff {t : Text} {layout : Layout} :
    Layout.ofText t = .ok layout ↔ Laid t layout := by
  constructor
  · intro h
    cases hopen : t.cutFirst? '[' with
    | none =>
        have hopen' : '[' ∉ t := Text.cutFirst?_eq_none_iff.mp hopen
        by_cases hclose : ']' ∈ t
        · unfold Layout.ofText at h
          simp only [hopen, if_pos hclose] at h
          cases h
        · rw [ofText_unbracketed hopen' hclose] at h
          cases h
          exact laid_ofUnbracketed hopen' hclose
    | some parts =>
        -- the last closing bracket is sought behind the first opening one
        obtain ⟨before, inside⟩ := parts
        unfold Layout.ofText at h
        rw [hopen] at h
        simp only at h
        split at h
        · cases h
        · next literal after hlast =>
            obtain ⟨rfl, hclose⟩ := Text.cutLast?_eq_some_iff.mp hlast
            obtain ⟨rfl, -⟩ := Text.cutFirst?_eq_some_iff.mp hopen
            split at h
            · next hempty =>
                rw [List.isEmpty_iff.mp hempty, List.nil_append]
                exact laid_ofBracketed hclose h
            · cases h
  · intro h
    cases h with
    | v4 hhost hport hopen hclose =>
        rw [ofText_unbracketed hopen hclose, ofUnbracketed_v4 hhost hport]
    | bare hopen hclose hcolons => rw [ofText_unbracketed hopen hclose, ofUnbracketed_bare hcolons]
    | @bracketed literal port hclose =>
        rw [ofText_bracketed hclose]
        unfold Layout.ofBracketed
        rw [show portText port = [] ++ portText port from rfl, splitAtFirst_portText port (by simp)]
    | @outerScoped literal scope port hscope hclose =>
        have hclose' : ']' ∉ '%' :: (scope ++ portText port) := by
          rw [List.mem_cons, not_or]; exact ⟨by decide, hclose⟩
        have hscope' : ':' ∉ '%' :: scope := by
          rw [List.mem_cons, not_or]; exact ⟨by decide, hscope⟩
        rw [ofText_bracketed hclose']
        unfold Layout.ofBracketed
        rw [← List.cons_append, splitAtFirst_portText port hscope']
        rfl

/-! ## Ports -/

/-- A port as it is written behind an address: nothing, or a colon and an unsigned number up to `65535`, of
    which the value counts. -/
inductive PortSuffix : Text → Option UInt16 → Prop where
  | absent : PortSuffix [] none
  | written {p : Text} {n : UInt64} (hnumber : parseUInt64 p = .ok n) (hrange : n.toNat ≤ 65535) :
      PortSuffix (':' :: p) (some (UInt16.ofNat n.toNat))

theorem readPort_eq_ok_iff {p : Text} {port : UInt16} :
    readPort p = .ok port ↔
      ∃ n, parseUInt64 p = .ok n ∧ n.toNat ≤ 65535 ∧ port = UInt16.ofNat n.toNat := by
  unfold readPort
  cases hnumber : parseUInt64 p with
  | error e => simp
  | ok n =>
      by_cases hrange : n.toNat < UInt16.size
      · simp only [if_pos hrange]
        constructor
        · intro h; cases h; exact ⟨n, rfl, Nat.le_of_lt_succ hrange, rfl⟩
        · rintro ⟨m, hm, -, rfl⟩; cases hm; rfl
      · simp only [if_neg hrange]
        constructor
        · intro h; cases h
        · rintro ⟨m, hm, hle, -⟩; cases hm; exact absurd (Nat.lt_succ_of_le hle) hrange

theorem readPort?_eq_ok_iff {p : Option Text} {port : Option UInt16} :
    readPort? p = .ok port ↔ PortSuffix (portText p) port := by
  cases p with
  | none =>
      constructor
      · intro h; cases h; exact .absent
      · intro h; cases h; rfl
  | some p =>
      constructor
      · intro h
        unfold readPort? at h
        cases hread : readPort p with
        | error e => simp only [hread] at h; cases h
        | ok port' =>
            simp only [hread] at h
            cases h
            obtain ⟨n, hnumber, hrange, rfl⟩ := readPort_eq_ok_iff.mp hread
            exact .written hnumber hrange
      · intro h
        cases h with
        | written hnumber hrange =>
            have hread := readPort_eq_ok_iff.mpr ⟨_, hnumber, hrange, rfl⟩
            unfold readPort?
            simp only [hread]
            rfl

/-- A `PortSuffix` is some `portText`, free of brackets, and free of further colons. -/
theorem PortSuffix.exists_portText {suffix : Text} {port : Option UInt16}
    (h : PortSuffix suffix port) :
    ∃ p, suffix = portText p ∧ readPort? p = .ok port ∧ (∀ t, p = some t → ':' ∉ t) ∧
      '[' ∉ suffix ∧ ']' ∉ suffix := by
  have hread : ∀ p, suffix = portText p → readPort? p = .ok port := by
    rintro p rfl; exact readPort?_eq_ok_iff.mpr h
  cases h with
  | absent => exact ⟨none, rfl, hread none rfl, by simp, by simp, by simp⟩
  | @written p n hnumber hrange =>
      -- blanks, signs and digits of a number are none of the marks of an address
      have habsent : ∀ mark, isNumberChar mark = false → mark ∉ p := by
        intro mark hmark hmem
        rw [isNumberChar_of_parseUInt64 hnumber hmem] at hmark
        cases hmark
      refine ⟨some p, rfl, hread (some p) rfl, ?_, ?_, ?_⟩
      · intro t ht; cases ht; exact habsent ':' (by decide)
      · rw [List.mem_cons, not_or]; exact ⟨by decide, habsent '[' (by decide)⟩
      · rw [List.mem_cons, not_or]; exact ⟨by decide, habsent ']' (by decide)⟩

/-! ## Spellings -/

/-- The texts of a `Spelling`. A scope in the brackets may be anything, since the first opening and the last
    closing bracket still stand around it. -/
inductive Spelled : Text → Spelling → Prop where
  | v4 {host suffix : Text} {ip : Ipv4} {port : Option UInt16}
      (hip : Ipv4.ofText? host = some ip) (hport : PortSuffix suffix port) :
      Spelled (host ++ suffix) (.v4 ip port)
  | bare {host : Text} {ip : Ipv6} (hip : Ipv6.ofText? host = some ip) :
      Spelled host (.v6 ip none none)
  | bareScoped {host scope : Text} {ip : Ipv6} (hip : Ipv6.ofText? host = some ip)
      (hopen : '[' ∉ scope) (hclose : ']' ∉ scope) :
      Spelled (host ++ '%' :: scope) (.v6 ip (some scope) none)
  | bracketed {host suffix : Text} {ip : Ipv6} {port : Option UInt16}
      (hip : Ipv6.ofText? host = some ip) (hport : PortSuffix suffix port) :
      Spelled ('[' :: (host ++ ']' :: suffix)) (.v6 ip none port)
  | innerScoped {host scope suffix : Text} {ip : Ipv6} {port : Option UInt16}
      (hip : Ipv6.ofText? host = some ip) (hport : PortSuffix suffix port) :
      Spelled ('[' :: (host ++ '%' :: scope ++ ']' :: suffix)) (.v6 ip (some scope) port)
  | outerScoped {host scope suffix : Text} {ip : Ipv6} {port : Option UInt16}
      (hip : Ipv6.ofText? host = some ip) (hport : PortSuffix suffix port)
      (hcolon : ':' ∉ scope) (hclose : ']' ∉ scope) :
      Spelled ('[' :: (host ++ ']' :: '%' :: (scope ++ suffix))) (.v6 ip (some scope) port)

/-! ### What literals do not contain -/

theorem not_mem_ipv4 {host : Text} {ip : Ipv4} (hip : Ipv4.ofText? host = some ip) {mark : Char}
    (hmark : isDigit 10 mark = false) (hdot : mark ≠ '.') : mark ∉ host := by
  intro hmem
  rcases (Ipv4.literal_of_ofText? hip).1 mark hmem with hdigit | hpoint
  · rw [hdigit] at hmark; cases hmark
  · exact hdot hpoint

theorem not_mem_ipv6 {host : Text} {ip : Ipv6} (hip : Ipv6.ofText? host = some ip) {mark : Char}
    (hmark : isLiteralChar mark = false) : mark ∉ host := by
  intro hmem
  rw [(Ipv6.literal_of_ofText? hip).1 mark hmem] at hmark
  cases hmark

/-- `maxIpv4Length` rejects no IPv4 literal. -/
theorem byteLength_ipv4_le {host : Text} {ip : Ipv4} (hip : Ipv4.ofText? host = some ip) :
    host.byteLength ≤ maxIpv4Length := by
  obtain ⟨hchars, hlength⟩ := Ipv4.literal_of_ofText? hip
  rw [byteLength_of_literal]
  · exact hlength
  · intro c hc
    rcases hchars c hc with hdigit | rfl
    · exact isLiteralChar_of_isDigit (by decide) hdigit
    · decide

/-- `maxIpv6Length` rejects no IPv6 literal. -/
theorem byteLength_ipv6_le {host : Text} {ip : Ipv6} (hip : Ipv6.ofText? host = some ip) :
    host.byteLength ≤ maxIpv6Length := by
  obtain ⟨hchars, hlength, -⟩ := Ipv6.literal_of_ofText? hip
  rw [byteLength_of_literal hchars]
  exact hlength

/-! ### The parts read -/

theorem ofIpv4Parts_eq_ok_iff {host : Text} {port : Option Text} {s : Spelling} :
    Spelling.ofIpv4Parts host port = .ok s ↔
      ∃ ip p, Ipv4.ofText? host = some ip ∧ readPort? port = .ok p ∧ s = .v4 ip p := by
  unfold Spelling.ofIpv4Parts
  cases hip : Ipv4.ofText? host with
  | none => split <;> simp
  | some ip =>
      rw [if_neg (Nat.not_lt.mpr (byteLength_ipv4_le hip))]
      simp only
      cases readPort? port with
      | error fault =>
          constructor
          · intro h; cases h
          · rintro ⟨_, _, -, h, -⟩; cases h
      | ok p =>
          constructor
          · intro h; cases h; exact ⟨ip, p, rfl, rfl, rfl⟩
          · rintro ⟨_, _, hip', hport, rfl⟩; cases hip'; cases hport; rfl

theorem isSome_and_isSome_iff {α β : Type} {x : Option α} {y : Option β} :
    (x.isSome && y.isSome) = true ↔ x ≠ none ∧ y ≠ none := by
  rw [Bool.and_eq_true, Option.isSome_iff_ne_none, Option.isSome_iff_ne_none]

theorem ofIpv6Parts_eq_ok_iff {literal : Text} {outer port : Option Text} {s : Spelling} :
    Spelling.ofIpv6Parts literal outer port = .ok s ↔
      ∃ host inner ip p, splitAtFirst '%' literal = (host, inner) ∧ (inner = none ∨ outer = none) ∧
        Ipv6.ofText? host = some ip ∧ readPort? port = .ok p ∧ s = .v6 ip (inner.or outer) p := by
  unfold Spelling.ofIpv6Parts
  cases hsplit : splitAtFirst '%' literal with
  | mk host inner =>
      simp only
      cases hip : Ipv6.ofText? host with
      | none =>
          constructor
          · intro h
            split at h
            · cases h
            · split at h <;> cases h
          · rintro ⟨_, _, ip, p, heq, -, hip', -⟩
            cases heq
            rw [hip'] at hip
            cases hip
      | some ip =>
          rw [if_neg (Nat.not_lt.mpr (byteLength_ipv6_le hip))]
          -- a scope inside the brackets and one behind them exclude each other
          by_cases htwo : inner ≠ none ∧ outer ≠ none
          · rw [if_pos (isSome_and_isSome_iff.mpr htwo)]
            constructor
            · intro h; cases h
            · rintro ⟨_, _, _, _, heq, hone, -⟩
              cases heq
              exact absurd htwo (not_and_or.mpr (hone.imp not_not_intro not_not_intro))
          · rw [if_neg (mt isSome_and_isSome_iff.mp htwo)]
            have hone : inner = none ∨ outer = none :=
              (not_and_or.mp htwo).imp Classical.not_not.mp Classical.not_not.mp
            simp only
            cases hport : readPort? port with
            | error fault =>
                constructor
                · intro h; cases h
                · rintro ⟨_, _, _, _, -, -, -, h, -⟩; cases h
            | ok p =>
                constructor
                · intro h; cases h; exact ⟨host, inner, ip, p, rfl, hone, hip, rfl, rfl⟩
                · rintro ⟨_, _, _, _, heq, -, hip', hport', rfl⟩
                  cases heq
                  rw [hip'] at hip
                  cases hip
                  cases hport'
                  rfl

/-- `splitAtFirst` of a literal without a scope in it. -/
theorem splitAtFirst_ipv6 {host : Text} {ip : Ipv6} (hip : Ipv6.ofText? host = some ip) :
    splitAtFirst '%' host = (host, none) :=
  splitAtFirst_of_not_mem (not_mem_ipv6 hip (by decide))

/-- `splitAtFirst` of a literal with a scope in it, whatever the scope is. -/
theorem splitAtFirst_ipv6_scope {host : Text} {ip : Ipv6} (hip : Ipv6.ofText? host = some ip)
    (scope : Text) : splitAtFirst '%' (host ++ '%' :: scope) = (host, some scope) :=
  splitAtFirst_append scope (not_mem_ipv6 hip (by decide))

theorem eq_of_splitAtFirst {mark : Char} {t before : Text} {after : Option Text}
    (h : splitAtFirst mark t = (before, after)) :
    (after = none ∧ t = before) ∨ ∃ a, after = some a ∧ t = before ++ mark :: a := by
  unfold splitAtFirst at h
  split at h
  · next b a hcut =>
      cases h
      exact Or.inr ⟨a, rfl, (Text.cutFirst?_eq_some_iff.mp hcut).1⟩
  · cases h; exact Or.inl ⟨rfl, rfl⟩

/-! ### The equivalence -/

/-- A text that is `Laid` and whose parts can be read is `Spelled` as these parts say. -/
theorem spelled_of_laid {t : Text} {layout : Layout} {s : Spelling} (hlaid : Laid t layout)
    (h : Spelling.ofLayout layout = .ok s) : Spelled t s := by
  -- a layout keeps a scope within its literal, so that two spellings come from one layout
  cases hlaid with
  | v4 =>
      obtain ⟨ip, p, hip, hport, rfl⟩ := ofIpv4Parts_eq_ok_iff.mp h
      exact .v4 hip (readPort?_eq_ok_iff.mp hport)
  | bare hopen hclose =>
      obtain ⟨host, inner, ip, p, hsplit, -, hip, hport, rfl⟩ := ofIpv6Parts_eq_ok_iff.mp h
      cases hport
      rcases eq_of_splitAtFirst hsplit with ⟨rfl, rfl⟩ | ⟨scope, rfl, rfl⟩
      · exact .bare hip
      · simp only [List.mem_append, List.mem_cons, not_or] at hopen hclose
        exact .bareScoped hip hopen.2.2 hclose.2.2
  | bracketed =>
      obtain ⟨host, inner, ip, p, hsplit, -, hip, hport, rfl⟩ := ofIpv6Parts_eq_ok_iff.mp h
      rcases eq_of_splitAtFirst hsplit with ⟨rfl, rfl⟩ | ⟨scope, rfl, rfl⟩
      · exact .bracketed hip (readPort?_eq_ok_iff.mp hport)
      · exact .innerScoped hip (readPort?_eq_ok_iff.mp hport)
  | outerScoped hscope hclose =>
      obtain ⟨host, inner, ip, p, hsplit, hone, hip, hport, rfl⟩ := ofIpv6Parts_eq_ok_iff.mp h
      rw [List.mem_append, not_or] at hclose
      rcases eq_of_splitAtFirst hsplit with ⟨rfl, rfl⟩ | ⟨scope, rfl, rfl⟩
      · exact .outerScoped hip (readPort?_eq_ok_iff.mp hport) hscope hclose.1
      · rcases hone with h | h <;> cases h

/-- A text that is `Spelled` has a `Layout`, whose parts are read as spelled. -/
theorem laid_of_spelled {t : Text} {s : Spelling} (h : Spelled t s) :
    ∃ layout, Laid t layout ∧ Spelling.ofLayout layout = .ok s := by
  cases h with
  | @v4 host suffix ip port hip hport =>
      obtain ⟨p, rfl, hread, hcolon, hopen, hclose⟩ := hport.exists_portText
      refine ⟨.v4 host p, .v4 (not_mem_ipv4 hip (by decide) (by decide)) hcolon ?_ ?_,
        ofIpv4Parts_eq_ok_iff.mpr ⟨ip, port, hip, hread, rfl⟩⟩
      · rw [List.mem_append, not_or]; exact ⟨not_mem_ipv4 hip (by decide) (by decide), hopen⟩
      · rw [List.mem_append, not_or]; exact ⟨not_mem_ipv4 hip (by decide) (by decide), hclose⟩
  | @bare _ ip hip =>
      refine ⟨.v6 t none none, .bare (not_mem_ipv6 hip (by decide)) (not_mem_ipv6 hip (by decide))
        (Ipv6.literal_of_ofText? hip).2.2, ?_⟩
      exact ofIpv6Parts_eq_ok_iff.mpr
        ⟨t, none, ip, none, splitAtFirst_ipv6 hip, Or.inl rfl, hip, rfl, rfl⟩
  | @bareScoped host scope ip hip hopen hclose =>
      refine ⟨.v6 (host ++ '%' :: scope) none none, .bare ?_ ?_ ?_, ?_⟩
      · simp only [List.mem_append, List.mem_cons, not_or]
        exact ⟨not_mem_ipv6 hip (by decide), by decide, hopen⟩
      · simp only [List.mem_append, List.mem_cons, not_or]
        exact ⟨not_mem_ipv6 hip (by decide), by decide, hclose⟩
      · rw [List.count_append]
        exact Nat.le_add_right_of_le (Ipv6.literal_of_ofText? hip).2.2
      · exact ofIpv6Parts_eq_ok_iff.mpr ⟨host, some scope, ip, none,
          splitAtFirst_ipv6_scope hip scope, Or.inr rfl, hip, rfl, rfl⟩
  | @bracketed host suffix ip port hip hport =>
      obtain ⟨p, rfl, hread, -, -, hclose⟩ := hport.exists_portText
      exact ⟨.v6 host none p, .bracketed hclose, ofIpv6Parts_eq_ok_iff.mpr
        ⟨host, none, ip, port, splitAtFirst_ipv6 hip, Or.inl rfl, hip, hread, rfl⟩⟩
  | @innerScoped host scope suffix ip port hip hport =>
      obtain ⟨p, rfl, hread, -, -, hclose⟩ := hport.exists_portText
      exact ⟨.v6 (host ++ '%' :: scope) none p, .bracketed hclose, ofIpv6Parts_eq_ok_iff.mpr
        ⟨host, some scope, ip, port, splitAtFirst_ipv6_scope hip scope, Or.inr rfl, hip, hread, rfl⟩⟩
  | @outerScoped host scope suffix ip port hip hport hcolon hclose =>
      obtain ⟨p, rfl, hread, -, -, hclose'⟩ := hport.exists_portText
      have hnone : ']' ∉ scope ++ portText p := by
        rw [List.mem_append, not_or]; exact ⟨hclose, hclose'⟩
      exact ⟨.v6 host (some scope) p, .outerScoped hcolon hnone, ofIpv6Parts_eq_ok_iff.mpr
        ⟨host, none, ip, port, splitAtFirst_ipv6 hip, Or.inl rfl, hip, hread, rfl⟩⟩

/-- **`Spelling.ofText` accepts exactly the texts that are `Spelled`.** -/
theorem Spelling.ofText_eq_ok_iff {t : Text} {s : Spelling} :
    Spelling.ofText t = .ok s ↔ Spelled t s := by
  unfold Spelling.ofText
  constructor
  · intro h
    cases hlayout : Layout.ofText t with
    | error fault => rw [hlayout] at h; cases h
    | ok layout =>
        rw [hlayout] at h
        exact spelled_of_laid (Layout.ofText_eq_ok_iff.mp hlayout) h
  · intro h
    obtain ⟨layout, hlaid, hread⟩ := laid_of_spelled h
    rw [Layout.ofText_eq_ok_iff.mpr hlaid]
    exact hread

/-- `parse` of a text that is `Spelled` is what its spelling denotes on the machine. -/
theorem Address.parse_of_spelled {t : Text} {s : Spelling} (h : Spelled t s)
    (interfaces : Interfaces) (defaultPort : UInt16) :
    Address.parse interfaces t defaultPort =
      (s.resolve interfaces defaultPort).map fun
        | .error fault => .error ⟨fault, t⟩
        | .ok a => .ok a := by
  have hspelling := Spelling.ofText_eq_ok_iff.mpr h
  unfold Address.parse
  split
  · next hread => rw [hspelling] at hread; cases hread
  · next hread => rw [hspelling] at hread; cases hread; rfl

/-- An address that was read has a `Spelling` that denotes it. -/
theorem Address.spelled_of_parse {interfaces : Interfaces} {t : Text} {defaultPort : UInt16}
    {a : Address} (h : (Address.parse interfaces t defaultPort).value = .ok a) :
    ∃ s, Spelled t s ∧ (s.resolve interfaces defaultPort).value = .ok a := by
  cases hs : Spelling.ofText t with
  | error fault =>
      unfold Address.parse at h
      rw [hs] at h
      cases h
  | ok s =>
      have hspelled := Spelling.ofText_eq_ok_iff.mp hs
      rw [Address.parse_of_spelled hspelled] at h
      refine ⟨s, hspelled, ?_⟩
      cases hvalue : (s.resolve interfaces defaultPort).value with
      | error fault => rw [Logged.value_map, hvalue] at h; cases h
      | ok b => rw [Logged.value_map, hvalue] at h; cases h; rfl

end NetKit
