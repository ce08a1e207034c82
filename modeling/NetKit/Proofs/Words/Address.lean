import NetKit.Proofs.Address.Length
import NetKit.Proofs.Address.Port
import NetKit.Proofs.Words.Float

/-!
# Addresses in words — the reader of addresses by positions, with every check

The parts of an address are cut out of its text by the positions of brackets and colons. `Text.firstAt?` and
`Text.lastAt?` search among the bytes, and since marks are ASCII, the positions before and behind one are good. So
each part can be cut out, and it is what `Layout.ofText` takes for that part (`Layout.ofTextInWords_eq_ok`).

A port and a numeric scope are unsigned numbers and are read by `parseUInt64InWords`. No part is longer than the text,
so that the readers of numbers pass their checks on it.

## Contents
- `Text.firstAt?`, `Text.lastAt?`: positions of marks.
- `Layout.ofTextInWords`: the parts of a text.
- `readPortInWords`, `resolveScopeInWords`, `Address.parseInWords`: the strict reader.
- `readers_pass_checks`: all readers of numbers and addresses.
-/

namespace NetKit

-- Powers are those of the core library, also where a theory of powers is imported.
attribute [local instance (high)] instPowNat

/-! ## Positions of marks -/

namespace Text

/-- The byte position of the first `mark`. -/
def firstAt? (mark : Char) (t : Text) : Option Nat := t.octets.findIdx? (· == mark)

/-- The byte position of the last `mark`. -/
def lastAt? (mark : Char) (t : Text) : Option Nat :=
  (t.octets.reverse.findIdx? (· == mark)).map fun behind => t.octets.length - 1 - behind

/-- A `mark` in a text has a last place. -/
theorem eq_append_cons_of_mem_last {mark : Char} {t : Text} (h : mark ∈ t) :
    ∃ before after, t = before ++ mark :: after ∧ mark ∉ after := by
  cases hcut : t.cutLast? mark with
  | none => exact absurd h (cutLast?_eq_none_iff.mp hcut)
  | some parts => exact ⟨parts.1, parts.2, cutLast?_eq_some_iff.mp hcut⟩

section Marks

variable {mark : Char} (hmark : mark.toNat < 128) {t before after : Text}

include hmark

/-- `findIdx?` fails on octets without the mark, in whichever direction they are searched. -/
theorem findIdx?_octets_eq_none {cs : Text} (hcs : ∀ c ∈ cs, c ∈ t.octets) (h : mark ∉ t) :
    cs.findIdx? (· == mark) = none := by
  rw [List.findIdx?_eq_none_iff]
  intro c hc
  rw [beq_eq_false_iff_ne]
  rintro rfl
  exact h ((mem_octets_iff hmark).mp (hcs c hc))

theorem firstAt?_of_not_mem (h : mark ∉ t) : firstAt? mark t = none :=
  findIdx?_octets_eq_none hmark (fun _ => id) h

theorem lastAt?_of_not_mem (h : mark ∉ t) : lastAt? mark t = none :=
  Option.map_eq_none_iff.mpr (findIdx?_octets_eq_none hmark (fun _ => List.mem_reverse.mp) h)

theorem firstAt?_append (h : mark ∉ before) :
    firstAt? mark (before ++ mark :: after) = some before.byteLength := by
  unfold firstAt?
  rw [octets_append, octets_cons_of_lt hmark, List.findIdx?_append,
    findIdx?_octets_eq_none hmark (fun _ => id) h, List.findIdx?_cons, beq_self_eq_true, length_octets]
  simp

theorem lastAt?_append (h : mark ∉ after) :
    lastAt? mark (before ++ mark :: after) = some before.byteLength := by
  unfold lastAt?
  rw [octets_append, octets_cons_of_lt hmark, List.reverse_append, List.reverse_cons, List.append_assoc,
    List.findIdx?_append, findIdx?_octets_eq_none hmark (fun _ => List.mem_reverse.mp) h,
    List.singleton_append, List.findIdx?_cons, beq_self_eq_true]
  simp [length_octets]

end Marks

end Text

/-! ## Layout -/

/-- `Layout.ofUnbracketed`, by the positions of the first and the last colon. -/
def Layout.ofUnbracketedInWords (t : Text) : Checked Layout := do
  match t.firstAt? ':', t.lastAt? ':' with
  | none, _ => return .v4 t none
  | some first, some last =>
    if first = last then
      return .v4 (← t.slice 0 first) (some (← t.sliceFrom (← natWord 64 (first + 1))))
    else return .v6 t none none
  | some _, none => return .v6 t none none

/-- `Layout.ofText`, by the positions of the first `[` and the last `]`. -/
def Layout.ofTextInWords (t : Text) : Checked (Except AddressFault Layout) := do
  match t.firstAt? '[', t.lastAt? ']' with
  | none, none => return .ok (← ofUnbracketedInWords t)
  | some opening, some closing =>
    if opening < closing then
      if opening ≠ 0 then return .error .unexpectedText
      else
        let literal ← t.slice (← natWord 64 (opening + 1)) closing
        let after ← t.sliceFrom (← natWord 64 (closing + 1))
        return ofBracketed literal after
    else return .error .mismatchedBrackets
  | some _, none => return .error .mismatchedBrackets
  | none, some _ => return .error .mismatchedBrackets

namespace Layout

variable {t : Text}

theorem ofUnbracketedInWords_eq_ok (hsize : t.byteLength < 2 ^ 60) :
    ofUnbracketedInWords t = .ok (ofUnbracketed t) := by
  have hcolon : ':'.toNat < 128 := by decide
  unfold ofUnbracketedInWords ofUnbracketed
  cases hcut : t.cutFirst? ':' with
  | none =>
      rw [Text.firstAt?_of_not_mem hcolon (Text.cutFirst?_eq_none_iff.mp hcut)]
      cases Text.lastAt? ':' t <;> rfl
  | some parts =>
      obtain ⟨host, port⟩ := parts
      obtain ⟨rfl, hhost⟩ := Text.cutFirst?_eq_some_iff.mp hcut
      dsimp only
      rw [Text.firstAt?_append hcolon hhost]
      by_cases hport : ':' ∈ port
      · -- the last colon is a later one
        obtain ⟨between, after, rfl, hlast⟩ := Text.eq_append_cons_of_mem_last hport
        have hwhole : host ++ ':' :: (between ++ ':' :: after) = (host ++ ':' :: between) ++ ':' :: after := by
          rw [List.append_assoc, List.cons_append]
        have hlater : host.byteLength ≠ Text.byteLength (host ++ ':' :: between) := by
          rw [Text.byteLength_append, Text.byteLength_cons_of_lt hcolon]
          omega
        rw [if_pos hport, hwhole, Text.lastAt?_append hcolon hlast]
        dsimp only
        rw [if_neg hlater]
        rfl
      · have hstart : (host ++ ':' :: port).StandsAt 0 (host ++ ':' :: port) := Text.standsAt_zero _
        have hfirst : (host ++ ':' :: port).StandsAt host.byteLength (':' :: port) := ⟨host, rfl, rfl⟩
        have hbehind := hfirst.tail hcolon
        rw [if_neg hport, Text.lastAt?_append hcolon hport]
        dsimp only
        rw [if_pos rfl, hstart.slice hfirst, Checked.ok_bind, hbehind.natWord hsize, Checked.ok_bind,
          hbehind.sliceFrom]
        rfl

theorem ofTextInWords_of_mismatchedBrackets (h : MismatchedBrackets t) :
    ofTextInWords t = .ok (.error .mismatchedBrackets) := by
  have hopening : '['.toNat < 128 := by decide
  have hclosing : ']'.toNat < 128 := by decide
  unfold ofTextInWords
  rcases h with ⟨hopen, hclose⟩ | ⟨hopen, hclose⟩ | ⟨before, after, rfl, hfirst, hbefore, hafter⟩
  · obtain ⟨before, after, rfl, hfirst⟩ := List.eq_append_cons_of_mem hopen
    rw [Text.firstAt?_append hopening hfirst, Text.lastAt?_of_not_mem hclosing hclose]
    rfl
  · obtain ⟨before, after, rfl, hlast⟩ := Text.eq_append_cons_of_mem_last hclose
    rw [Text.firstAt?_of_not_mem hopening hopen, Text.lastAt?_append hclosing hlast]
    rfl
  · -- the last closing bracket stands before the first opening one
    obtain ⟨outside, between, rfl, hlast⟩ := Text.eq_append_cons_of_mem_last hbefore
    have hclose : ']' ∉ between ++ '[' :: after := by simp [hlast, hafter]
    have hwhole : (outside ++ ']' :: between) ++ '[' :: after =
        outside ++ ']' :: (between ++ '[' :: after) := by
      rw [List.append_assoc, List.cons_append]
    have hearlier : ¬Text.byteLength (outside ++ ']' :: between) < outside.byteLength := by
      rw [Text.byteLength_append]
      omega
    rw [Text.firstAt?_append hopening hfirst, hwhole, Text.lastAt?_append hclosing hclose]
    dsimp only
    rw [if_neg hearlier]
    rfl

/-- With the brackets in order, both slices of `ofTextInWords` are between good positions. -/
theorem ofTextInWords_of_brackets {before literal after : Text} (hfirst : '[' ∉ before)
    (hlast : ']' ∉ after)
    (hsize : Text.byteLength (before ++ '[' :: (literal ++ ']' :: after)) < 2 ^ 60) :
    ofTextInWords (before ++ '[' :: (literal ++ ']' :: after)) =
      .ok (if before.isEmpty then ofBracketed literal after else .error .unexpectedText) := by
  have hopening : '['.toNat < 128 := by decide
  have hclosing : ']'.toNat < 128 := by decide
  have hwhole : before ++ '[' :: (literal ++ ']' :: after) = (before ++ '[' :: literal) ++ ']' :: after := by
    rw [List.append_assoc, List.cons_append]
  have hlater : before.byteLength < Text.byteLength (before ++ '[' :: literal) := by
    rw [Text.byteLength_append, Text.byteLength_cons_of_lt hopening]
    omega
  have hliteral : (before ++ '[' :: (literal ++ ']' :: after)).StandsAt (before.byteLength + 1)
      (literal ++ ']' :: after) := Text.StandsAt.tail ⟨before, rfl, rfl⟩ hopening
  have hend : (before ++ '[' :: (literal ++ ']' :: after)).StandsAt
      (Text.byteLength (before ++ '[' :: literal)) (']' :: after) := ⟨_, hwhole, rfl⟩
  have hbehind := hend.tail hclosing
  unfold ofTextInWords
  rw [Text.firstAt?_append hopening hfirst]
  nth_rewrite 1 [hwhole]
  rw [Text.lastAt?_append hclosing hlast]
  dsimp only
  rw [if_pos hlater]
  by_cases hnone : before = []
  · have hzero : before.byteLength = 0 := Text.byteLength_eq_zero_iff.mpr hnone
    rw [if_neg (not_not_intro hzero), hliteral.natWord hsize, Checked.ok_bind, hliteral.slice hend,
      Checked.ok_bind, hbehind.natWord hsize, Checked.ok_bind, hbehind.sliceFrom, hnone]
    rfl
  · have hsome : before.byteLength ≠ 0 := fun h => hnone (Text.byteLength_eq_zero_iff.mp h)
    have hfull : before.isEmpty = false := List.isEmpty_eq_false_iff.mpr hnone
    rw [if_pos hsome, hfull]
    rfl

/-- **`ofTextInWords` cuts at good positions**, and finds the parts that `ofText` finds. -/
theorem ofTextInWords_eq_ok (hsize : t.byteLength < 2 ^ 60) : ofTextInWords t = .ok (ofText t) := by
  rcases brackets_cases t with ⟨hopen, hclose⟩ | hbrackets | ⟨before, literal, after, rfl, hfirst, hlast⟩
  · unfold ofTextInWords
    rw [Text.firstAt?_of_not_mem (by decide) hopen, Text.lastAt?_of_not_mem (by decide) hclose]
    dsimp only
    rw [ofUnbracketedInWords_eq_ok hsize, ofText_unbracketed hopen hclose]
    rfl
  · rw [ofText_of_mismatchedBrackets hbrackets, ofTextInWords_of_mismatchedBrackets hbrackets]
  · rw [ofText_of_brackets hfirst hlast, ofTextInWords_of_brackets hfirst hlast hsize]

end Layout

/-! ## Ports -/

/-- `readPort` in words. -/
def readPortInWords (t : Text) : Checked (Except AddressFault UInt16) := do
  match ← parseUInt64InWords t with
  | .error e => return .error (.invalidPort e)
  | .ok n =>
    if n.toNat < UInt16.size then return .ok (UInt16.ofNat n.toNat)
    else return .error (.invalidPort ⟨.outOfRange, t⟩)

/-- `readPort?` in words. -/
def readPortInWords? : Option Text → Checked (Except AddressFault (Option UInt16))
  | none => return .ok none
  | some t => return (← readPortInWords t).map some

theorem readPortInWords_eq_ok {p : Text} (hsize : p.byteLength < 2 ^ 60) :
    readPortInWords p = .ok (readPort p) := by
  unfold readPortInWords readPort
  rw [parseUInt64InWords_eq_ok hsize, Checked.ok_bind]
  cases parseUInt64 p with
  | error e => rfl
  | ok n => exact (apply_ite Except.ok _ _ _).symm

theorem readPortInWords?_eq_ok {port : Option Text} (hsize : ∀ p, port = some p → p.byteLength < 2 ^ 60) :
    readPortInWords? port = .ok (readPort? port) := by
  cases port with
  | none => rfl
  | some p =>
      unfold readPortInWords? readPort?
      dsimp only
      rw [readPortInWords_eq_ok (hsize p rfl)]
      rfl

/-! ## Spelling -/

namespace Spelling

/-- `Spelling.ofIpv4Parts` in words. -/
def ofIpv4PartsInWords (host : Text) (port : Option Text) : Checked (Except AddressFault Spelling) := do
  if maxIpv4Length < host.byteLength then return .error (.tooLong .ipv4)
  else
    match Ipv4.ofText? host with
    | none => return .error .notAnIpAddress
    | some ip => return (← readPortInWords? port).map (v4 ip)

/-- `Spelling.ofIpv6Parts` in words. -/
def ofIpv6PartsInWords (literal : Text) (outerScope port : Option Text) :
    Checked (Except AddressFault Spelling) := do
  let (host, innerScope) := splitAtFirst '%' literal
  if maxIpv6Length < host.byteLength then return .error (.tooLong .ipv6)
  else if innerScope.isSome && outerScope.isSome then return .error .unexpectedText
  else
    match Ipv6.ofText? host with
    | none => return .error .notAnIpAddress
    | some ip => return (← readPortInWords? port).map (v6 ip (innerScope.or outerScope))

/-- `Spelling.ofLayout` in words. -/
def ofLayoutInWords : Layout → Checked (Except AddressFault Spelling)
  | .v4 host port => ofIpv4PartsInWords host port
  | .v6 literal outerScope port => ofIpv6PartsInWords literal outerScope port

variable {port : Option Text} (hsize : ∀ p, port = some p → p.byteLength < 2 ^ 60)

include hsize

theorem ofIpv4PartsInWords_eq_ok (host : Text) : ofIpv4PartsInWords host port = .ok (ofIpv4Parts host port) := by
  unfold ofIpv4PartsInWords ofIpv4Parts
  rw [readPortInWords?_eq_ok hsize]
  split
  · rfl
  · cases Ipv4.ofText? host <;> rfl

theorem ofIpv6PartsInWords_eq_ok (literal : Text) (outerScope : Option Text) :
    ofIpv6PartsInWords literal outerScope port = .ok (ofIpv6Parts literal outerScope port) := by
  unfold ofIpv6PartsInWords ofIpv6Parts
  rw [readPortInWords?_eq_ok hsize]
  dsimp only
  split
  · rfl
  · split
    · rfl
    · cases Ipv6.ofText? (splitAtFirst '%' literal).1 <;> rfl

omit hsize

theorem ofLayoutInWords_eq_ok {layout : Layout}
    (hsize : ∀ p, layout.port = some p → p.byteLength < 2 ^ 60) :
    ofLayoutInWords layout = .ok (ofLayout layout) := by
  cases layout with
  | v4 host port => exact ofIpv4PartsInWords_eq_ok hsize host
  | v6 literal outerScope port => exact ofIpv6PartsInWords_eq_ok hsize literal outerScope

end Spelling

/-! ## Resolution -/

/-- `readScope` in words. -/
def readScopeInWords (scope : Text) : Checked (Except ScopeFault UInt32) := do
  match ← parseUInt64InWords scope with
  | .error e => return .error (.number e)
  | .ok n =>
    if n.toNat < UInt32.size then return .ok (UInt32.ofNat n.toNat)
    else return .error (.number ⟨.outOfRange, scope⟩)

/-- `resolveScope` in words; whether the scope is numeric is asked of its bytes. -/
def resolveScopeInWords (interfaces : Interfaces) (scope : Text) :
    Checked (Logged (Except ScopeFault UInt32)) := do
  if !scope.isEmpty && scope.octets.all (isDigit 10) then return .quiet (← readScopeInWords scope)
  else
    match interfaces scope with
    | .error e => return .quiet (.error (.lookup e))
    | .ok index => return ⟨.ok index, [.scopeResolved scope index]⟩

/-- `Spelling.resolve` in words. -/
def Spelling.resolveInWords (interfaces : Interfaces) (defaultPort : UInt16) :
    Spelling → Checked (Logged (Except AddressFault Address))
  | v4 ip port => return .quiet (.ok (.specified (.v4 ip (port.getD defaultPort))))
  | v6 ip none port => return .quiet (.ok (.specified (.v6 ip (port.getD defaultPort) 0 0)))
  | v6 ip (some scope) port => do
    return (← resolveScopeInWords interfaces scope).map fun
      | .error fault => .error (.invalidScope scope fault)
      | .ok index => .ok (.specified (.v6 ip (port.getD defaultPort) 0 index))

theorem readScopeInWords_eq_ok {scope : Text} (hsize : scope.byteLength < 2 ^ 60) :
    readScopeInWords scope = .ok (readScope scope) := by
  unfold readScopeInWords readScope
  rw [parseUInt64InWords_eq_ok hsize, Checked.ok_bind]
  cases parseUInt64 scope with
  | error e => rfl
  | ok n => exact (apply_ite Except.ok _ _ _).symm

theorem resolveScopeInWords_eq_ok {interfaces : Interfaces} {scope : Text} (hsize : scope.byteLength < 2 ^ 60) :
    resolveScopeInWords interfaces scope = .ok (resolveScope interfaces scope) := by
  unfold resolveScopeInWords resolveScope isNumericScope
  rw [Text.all_octets (Text.asciiKind_isDigit 10), readScopeInWords_eq_ok hsize]
  split
  · rfl
  · cases interfaces scope <;> rfl

theorem Spelling.resolveInWords_eq_ok {interfaces : Interfaces} {defaultPort : UInt16} {s : Spelling}
    (hsize : ∀ scope, s.scope = some scope → scope.byteLength < 2 ^ 60) :
    s.resolveInWords interfaces defaultPort = .ok (s.resolve interfaces defaultPort) := by
  cases s with
  | v4 ip port => rfl
  | v6 ip scope port =>
      cases scope with
      | none => rfl
      | some scope =>
          unfold resolveInWords resolve
          dsimp only
          rw [resolveScopeInWords_eq_ok (hsize scope rfl)]
          rfl

/-! ## The strict reader -/

/-- `Address.parse` in words. -/
def Address.parseInWords (interfaces : Interfaces) (t : Text) (defaultPort : UInt16) :
    Checked (Logged (Except AddressError Address)) := do
  match ← Layout.ofTextInWords t with
  | .error fault => return .quiet (.error ⟨fault, t⟩)
  | .ok layout =>
    match ← Spelling.ofLayoutInWords layout with
    | .error fault => return .quiet (.error ⟨fault, t⟩)
    | .ok spelling =>
      return (← spelling.resolveInWords interfaces defaultPort).map fun
        | .error fault => .error ⟨fault, t⟩
        | .ok a => .ok a

/-- A part of a text is no longer than the text. -/
theorem Text.byteLength_part_le {part t : Text} (h : part <:+: t) : part.byteLength ≤ t.byteLength := by
  obtain ⟨before, after, rfl⟩ := h
  rw [byteLength_append, byteLength_append]
  omega

/-- The port of a `Laid` layout is a part of the text. -/
theorem Laid.infix_port {t p : Text} {layout : Layout} (h : Laid t layout) (hport : layout.port = some p) :
    p <:+: t := by
  cases h with
  | @v4 host =>
      cases hport
      exact ⟨host ++ [':'], [], by simp [portText]⟩
  | bare => cases hport
  | @bracketed literal =>
      cases hport
      exact ⟨'[' :: literal ++ [']', ':'], [], by simp [portText]⟩
  | @outerScoped literal scope =>
      cases hport
      exact ⟨'[' :: literal ++ [']', '%'] ++ scope ++ [':'], [], by simp [portText]⟩

/-- The scope of a `Spelled` spelling is a part of the text. -/
theorem Spelled.infix_scope {t scope : Text} {s : Spelling} (h : Spelled t s) (hscope : s.scope = some scope) :
    scope <:+: t := by
  cases h with
  | v4 => cases hscope
  | bare => cases hscope
  | @bareScoped host =>
      cases hscope
      exact ⟨host ++ ['%'], [], by simp⟩
  | bracketed => cases hscope
  | @innerScoped host scope suffix =>
      cases hscope
      exact ⟨'[' :: host ++ ['%'], ']' :: suffix, by simp⟩
  | @outerScoped host scope suffix =>
      cases hscope
      exact ⟨'[' :: host ++ [']', '%'], suffix, by simp⟩

variable {t : Text}

/-- **`parseInWords` passes all checks**, and is `parse`. -/
theorem Address.parseInWords_eq_ok (interfaces : Interfaces) (hsize : t.byteLength < 2 ^ 60)
    (defaultPort : UInt16) :
    parseInWords interfaces t defaultPort = .ok (parse interfaces t defaultPort) := by
  rw [parse_eq_parseWith]
  unfold parseInWords parseWith
  rw [Layout.ofTextInWords_eq_ok hsize, Checked.ok_bind]
  cases hlayout : Layout.ofText t with
  | error fault => rfl
  | ok layout =>
      have hlaid := Layout.ofText_eq_ok_iff.mp hlayout
      dsimp only
      rw [Spelling.ofLayoutInWords_eq_ok fun p hport =>
        Nat.lt_of_le_of_lt (Text.byteLength_part_le (hlaid.infix_port hport)) hsize, Checked.ok_bind]
      cases hspelling : Spelling.ofLayout layout with
      | error fault => rfl
      | ok s =>
          have hspelled := spelled_of_laid hlaid hspelling
          dsimp only
          rw [Spelling.resolveInWords_eq_ok fun scope hscope =>
            Nat.lt_of_le_of_lt (Text.byteLength_part_le (hspelled.infix_scope hscope)) hsize]
          rfl

/-! ## All readers -/

/-- **No reader of numbers or addresses faults.** Each of the four gives a result in words, hence every
    check on its way is passed: positions are good, sums and products fit into their words, bits are shifted
    by sixty at most, and powers of two are `Binary64`s. The result is the one of the reader on characters.
    A word such as `nan` is looked for at a good position, in as many bytes as it has. Those may end inside
    a character or with the text, and then they are not the word. -/
theorem readers_pass_checks {t : Text} (hsize : t.byteLength < 2 ^ 60) :
    parseUInt64InWords t = .ok (parseUInt64 t) ∧
      parseInt64InWords t = .ok (parseInt64 t) ∧
      parseBinary64InWords t = .ok (parseBinary64 t) ∧
      ∀ interfaces defaultPort,
        Address.parseInWords interfaces t defaultPort = .ok (Address.parse interfaces t defaultPort) :=
  ⟨parseUInt64InWords_eq_ok hsize, parseInt64InWords_eq_ok hsize, parseBinary64InWords_eq_ok hsize,
    fun interfaces => Address.parseInWords_eq_ok interfaces hsize⟩

/-- 2^-1074, which takes the smallest power, and an address with a scope outside ASCII. -/
theorem readers_pass_checks_extreme :
    Text.byteLength "-0x1p-1074".toList < 2 ^ 60 ∧
      parseUInt64InWords "-0x1p-1074".toList = .ok (.error ⟨.trailing, "-0x1p-1074".toList⟩) ∧
      parseInt64InWords "-0x1p-1074".toList = .ok (.error ⟨.trailing, "-0x1p-1074".toList⟩) ∧
      parseBinary64InWords "-0x1p-1074".toList = .ok (.ok ⟨true, 1, by decide⟩) ∧
      Text.byteLength "[::1%é]:0x50".toList < 2 ^ 60 ∧
      Address.parseInWords (fun _ => .ok 3) "[::1%é]:0x50".toList 0 =
        .ok ⟨.ok (.specified (.v6 .loopback 80 0 3)), [.scopeResolved "é".toList 3]⟩ := by
  have hsmallest : Text.byteLength "-0x1p-1074".toList < 2 ^ 60 := by decide +kernel
  have hscoped : Text.byteLength "[::1%é]:0x50".toList < 2 ^ 60 := by decide +kernel
  obtain ⟨hunsigned, hsigned, hfloat, -⟩ := readers_pass_checks hsmallest
  obtain ⟨-, -, -, haddress⟩ := readers_pass_checks hscoped
  exact ⟨hsmallest, hunsigned.trans (by decide +kernel), hsigned.trans (by decide +kernel),
    hfloat.trans (by decide +kernel), hscoped, (haddress _ 0).trans (by decide +kernel)⟩

end NetKit
