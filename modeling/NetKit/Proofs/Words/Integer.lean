import NetKit.Proofs.Number.IntegerNumeral
import NetKit.Proofs.Words.Positions

/-!
# Integers in words — the strict readers by positions, with every check

`parseUInt64InWords` and `parseInt64InWords` are the readers of integers as a machine runs them: by positions of
bytes, with every position good and every number in its word. A magnitude that does not fit is noticed by the digit
that makes it too large (`pushDigit?`), and a minus sign negates in words.

Each part of a reader is stated against its part of the unbounded reader. It starts where a text stands and gives
what the unbounded reader gives for this text, and the position where that one's rest stands. So the readers give what
the unbounded ones give, and no check fails (`parseUInt64InWords_eq_ok`, `parseInt64InWords_eq_ok`).

## Contents
- `blanksEndAt`, `signAt`, `endingInWords`: the frame of every number.
- `hexPrefixAt`, `radixAt`, `magnitude?`, `IntegerScan.read?`: an integer.
- `parseUInt64InWords`, `parseInt64InWords`: the strict readers.
-/

namespace NetKit

-- Powers are those of the core library, also where a theory of powers is imported.
attribute [local instance (high)] instPowNat

variable {t rest : Text} {pos : Nat}

/-! ## The frame of a number -/

/-- `skipBlanks` in words: the position behind the blanks. -/
def blanksEndAt (t : Text) (pos : Nat) : Checked Nat := do
  match (← t.octetsFrom pos).findIdx? (fun c => !isBlank c) with
  | some offset => natWord 64 (pos + offset)
  | none => return t.byteLength

/-- `takeSign` in words: whether there is a minus sign, and the position behind the sign. -/
def signAt (t : Text) (pos : Nat) : Checked (Bool × Nat) := do
  let octet ← t.octetAt pos
  if octet = some '-' then return (true, ← natWord 64 (pos + 1))
  else if octet = some '+' then return (false, ← natWord 64 (pos + 1))
  else return (false, pos)

/-- `endingAfter` in words, for a number that was read up to `stop`. -/
def endingInWords {α : Type} (t : Text) (stop : Nat) (value : α) : Checked (Except NumberError α) := do
  return if (← t.octetsFrom stop).all isBlank then .ok value else .error ⟨.trailing, t⟩

/-- `findIdx?` for the negated kind is the length of the leading run. -/
theorem findIdx?_not (p : Char → Bool) (cs : Text) :
    cs.findIdx? (fun c => !p c) =
      if cs.dropWhile p = [] then none else some (cs.takeWhile p).length := by
  induction cs with
  | nil => rfl
  | cons c cs ih =>
      rw [List.findIdx?_cons, List.dropWhile_cons, List.takeWhile_cons, ih]
      cases p c with
      | true =>
          simp only [Bool.not_true, Bool.false_eq_true, if_false, if_true, List.length_cons]
          split <;> rfl
      | false => rfl

theorem blanksEndAt_spec (h : t.StandsAt pos rest) (hsize : t.byteLength < 2 ^ 60) :
    ∃ stop, blanksEndAt t pos = .ok stop ∧ t.StandsAt stop (skipBlanks rest) := by
  have hbytes : rest.octets.dropWhile isBlank = Text.octets (skipBlanks rest) :=
    Text.dropWhile_octets Text.asciiKind_isBlank rest
  unfold blanksEndAt
  simp only [h.octetsFrom, Checked.ok_bind, findIdx?_not, hbytes, Text.octets_eq_nil_iff]
  by_cases hend : skipBlanks rest = []
  · rw [if_pos hend]
    refine ⟨t.byteLength, rfl, ?_⟩
    rw [hend]
    exact ⟨t, (List.append_nil t).symm, rfl⟩
  · have hstop := h.pass Text.asciiKind_isBlank
    rw [if_neg hend, Text.takeWhile_octets Text.asciiKind_isBlank]
    exact ⟨_, hstop.natWord hsize, hstop⟩

theorem takeSign_cases (t : Text) :
    (∃ tail, t = '-' :: tail ∧ takeSign t = (true, tail)) ∨
      (∃ tail, t = '+' :: tail ∧ takeSign t = (false, tail)) ∨
      (t.head? ≠ some '-' ∧ t.head? ≠ some '+') ∧ takeSign t = (false, t) := by
  unfold takeSign
  split
  · exact .inl ⟨_, rfl, rfl⟩
  · exact .inr (.inl ⟨_, rfl, rfl⟩)
  · next hminus hplus =>
    refine .inr (.inr ⟨⟨?_, ?_⟩, rfl⟩)
    · intro hhead
      obtain ⟨tail, rfl⟩ := List.head?_eq_some_iff.mp hhead
      exact hminus tail rfl
    · intro hhead
      obtain ⟨tail, rfl⟩ := List.head?_eq_some_iff.mp hhead
      exact hplus tail rfl

theorem signAt_spec (h : t.StandsAt pos rest) (hsize : t.byteLength < 2 ^ 60) :
    ∃ stop, signAt t pos = .ok ((takeSign rest).1, stop) ∧ t.StandsAt stop (takeSign rest).2 := by
  have hminus : rest.octets.head? = some '-' ↔ rest.head? = some '-' :=
    Text.head?_octets_eq_some_iff (by decide)
  have hplus : rest.octets.head? = some '+' ↔ rest.head? = some '+' :=
    Text.head?_octets_eq_some_iff (by decide)
  unfold signAt
  simp only [h.octetAt, Checked.ok_bind, hminus, hplus]
  rcases takeSign_cases rest with ⟨tail, rfl, hsign⟩ | ⟨tail, rfl, hsign⟩ | ⟨hother, hsign⟩
  · have hstop := h.tail (by decide)
    refine ⟨pos + 1, ?_, hsign ▸ hstop⟩
    rw [List.head?_cons, if_pos rfl, hstop.natWord hsize, hsign]
    rfl
  · have hstop := h.tail (by decide)
    refine ⟨pos + 1, ?_, hsign ▸ hstop⟩
    rw [List.head?_cons, if_neg (by decide), if_pos rfl, hstop.natWord hsize, hsign]
    rfl
  · refine ⟨pos, ?_, hsign ▸ h⟩
    rw [if_neg hother.1, if_neg hother.2, hsign]
    rfl

theorem endingInWords_eq_ok {α : Type} (h : t.StandsAt pos rest) (value : α) :
    endingInWords t pos value = .ok (endingAfter t rest value) := by
  unfold endingInWords endingAfter
  rw [h.octetsFrom, Checked.ok_bind, Text.all_octets Text.asciiKind_isBlank]
  rfl

/-! ## Digits -/

/-- `0x` or `0X` stands at `pos`, whatever is behind it. -/
def hexPrefixAt (t : Text) (pos : Nat) : Checked Bool := do
  if (← t.octetAt pos) = some '0' then
    let mark ← t.octetAt (← natWord 64 (pos + 1))
    return mark = some 'x' || mark = some 'X'
  else return false

/-- `0x` or `0X` stands at `pos`, with a digit behind it. -/
def hexMarkAt (t : Text) (pos : Nat) : Checked Bool := do
  if ← hexPrefixAt t pos then return (← Text.digitCountAt 16 t (← natWord 64 (pos + 2))) != 0
  else return false

/-- `radixOf` in words: the radix, and the position of the first digit. -/
def radixAt (t : Text) (pos : Nat) : Checked (Nat × Nat) := do
  if ← hexMarkAt t pos then return (16, ← natWord 64 (pos + 2))
  else if (← t.octetAt pos) = some '0' then return (8, pos)
  else return (10, pos)

/-- `n`, if it fits into a `UInt64`. -/
def word? (n : Nat) : Option Nat := if n < UInt64.size then some n else none

/-- One more digit of a magnitude, if the longer magnitude fits into a word. -/
def pushDigit? (radix value : Nat) (c : Char) : Option Nat := do
  let digit ← (digitValue? c).filter (· < radix)
  word? ((← word? (value * radix)) + digit)

/-- `digitsValue`, if it fits into a word at every digit. -/
def magnitude? (radix : Nat) (ds : Text) : Option Nat := ds.foldlM (pushDigit? radix) 0

/-- `t` starts with `0x` or `0X`. -/
def HasHexPrefix (t : Text) : Prop := ∃ x tail, t = '0' :: x :: tail ∧ (x = 'x' ∨ x = 'X')

theorem hexPrefixAt_spec (h : t.StandsAt pos rest) (hsize : t.byteLength < 2 ^ 60) :
    ∃ found, hexPrefixAt t pos = .ok found ∧ (found = true ↔ HasHexPrefix rest) := by
  have hzero : rest.octets.head? = some '0' ↔ rest.head? = some '0' :=
    Text.head?_octets_eq_some_iff (by decide)
  unfold hexPrefixAt
  simp only [h.octetAt, Checked.ok_bind, hzero]
  by_cases hhead : rest.head? = some '0'
  · obtain ⟨tail, rfl⟩ := List.head?_eq_some_iff.mp hhead
    have hnext := h.tail (by decide)
    simp only [if_pos hhead, hnext.natWord hsize, hnext.octetAt, Checked.ok_bind, Checked.pure_eq_ok]
    refine ⟨_, rfl, ?_⟩
    rw [Bool.or_eq_true, decide_eq_true_eq, decide_eq_true_eq, Text.head?_octets_eq_some_iff (by decide),
      Text.head?_octets_eq_some_iff (by decide)]
    constructor
    · rintro (hmark | hmark)
      · obtain ⟨more, rfl⟩ := List.head?_eq_some_iff.mp hmark
        exact ⟨'x', more, rfl, .inl rfl⟩
      · obtain ⟨more, rfl⟩ := List.head?_eq_some_iff.mp hmark
        exact ⟨'X', more, rfl, .inr rfl⟩
    · rintro ⟨x, more, hmore, rfl | rfl⟩
      · cases hmore
        exact .inl rfl
      · cases hmore
        exact .inr rfl
  · rw [if_neg hhead]
    refine ⟨false, rfl, iff_of_false Bool.false_ne_true ?_⟩
    rintro ⟨x, tail, rfl, -⟩
    exact hhead rfl

/-- A count of digits is positive if and only if a digit comes first. -/
theorem length_spanDigits_ne_zero_iff {radix : Nat} {t : Text} :
    (spanDigits radix t).1.length ≠ 0 ↔ startsWithDigit radix t = true := by
  cases t with
  | nil => exact iff_of_false (fun h => h rfl) Bool.false_ne_true
  | cons c t =>
      rw [startsWithDigit_cons, spanDigits, List.takeWhile_cons]
      cases isDigit radix c with
      | true => exact iff_of_true (Nat.succ_ne_zero _) rfl
      | false => exact iff_of_false (fun h => h rfl) Bool.false_ne_true

theorem hexMarkAt_spec (h : t.StandsAt pos rest) (hsize : t.byteLength < 2 ^ 60) :
    ∃ found, hexMarkAt t pos = .ok found ∧
      (found = true ↔ ∃ tail, rest = '0' :: tail ∧ StartsWithMark tail) := by
  obtain ⟨found, hfound, hprefixed⟩ := hexPrefixAt_spec h hsize
  unfold hexMarkAt
  rw [hfound, Checked.ok_bind]
  cases found with
  | true =>
      obtain ⟨x, tail, rfl, hx⟩ := hprefixed.mp rfl
      have hascii : x.toNat < 128 := by rcases hx with rfl | rfl <;> decide
      have hdigits := (h.tail (by decide)).tail hascii
      rw [if_pos rfl, hdigits.natWord hsize, Checked.ok_bind, hdigits.digitCountAt, Checked.ok_bind]
      refine ⟨_, rfl, ?_⟩
      rw [bne_iff_ne, length_spanDigits_ne_zero_iff]
      constructor
      · intro hdigit
        exact ⟨x :: tail, rfl, x, tail, rfl, hx, hdigit⟩
      · rintro ⟨_, hcons, y, tail', rfl, -, hdigit⟩
        cases hcons
        exact hdigit
  | false =>
      refine ⟨false, rfl, iff_of_false Bool.false_ne_true ?_⟩
      rintro ⟨_, rfl, x, tail, rfl, hx, -⟩
      exact Bool.false_ne_true (hprefixed.mpr ⟨x, tail, rfl, hx⟩)

theorem radixAt_spec (h : t.StandsAt pos rest) (hsize : t.byteLength < 2 ^ 60) :
    ∃ start, radixAt t pos = .ok ((radixOf rest).1, start) ∧ t.StandsAt start (radixOf rest).2 := by
  have hzero : rest.octets.head? = some '0' ↔ rest.head? = some '0' :=
    Text.head?_octets_eq_some_iff (by decide)
  obtain ⟨found, hfound, hmark⟩ := hexMarkAt_spec h hsize
  unfold radixAt
  simp only [hfound, Checked.ok_bind, h.octetAt, hzero]
  cases found with
  | true =>
      obtain ⟨_, rfl, x, tail, rfl, hx, hdigit⟩ := hmark.mp rfl
      have hascii : x.toNat < 128 := by rcases hx with rfl | rfl <;> decide
      have hdigits := (h.tail (by decide)).tail hascii
      rw [if_pos rfl, hdigits.natWord hsize, radixOf_mark hx hdigit]
      exact ⟨pos + 2, rfl, hdigits⟩
  | false =>
      rw [if_neg Bool.false_ne_true]
      by_cases hhead : rest.head? = some '0'
      · obtain ⟨tail, rfl⟩ := List.head?_eq_some_iff.mp hhead
        have hnone : ¬StartsWithMark tail := fun hsome =>
          Bool.false_ne_true (hmark.mpr ⟨tail, rfl, hsome⟩)
        rw [if_pos hhead, radixOf_zero hnone]
        exact ⟨pos, rfl, h⟩
      · have hten : radixOf rest = (10, rest) := by
          cases rest with
          | nil => rfl
          | cons c tail => exact radixOf_cons fun hc => hhead (hc ▸ rfl)
        rw [if_neg hhead, hten]
        exact ⟨pos, rfl, h⟩

theorem pushDigit?_eq {radix value : Nat} {c : Char} (hc : isDigit radix c = true) :
    pushDigit? radix value c = word? (value * radix + digitValue c) := by
  have hdigit : (digitValue? c).filter (· < radix) = some (digitValue c) := by
    unfold isDigit at hc
    unfold digitValue
    obtain ⟨digit, hdigit, hlt⟩ := (Option.any_eq_true _ _).mp hc
    rw [hdigit, Option.filter_some, if_pos hlt, Option.getD_some]
  unfold pushDigit? word?
  rw [hdigit, Option.bind_eq_bind, Option.bind_some]
  by_cases hshifted : value * radix < UInt64.size
  · rw [if_pos hshifted]
    rfl
  · rw [if_neg hshifted, if_neg (by omega)]
    rfl

/-- **`magnitude?` is `digitsValue` if that fits**, though only leading digits are looked at. -/
theorem magnitude?_eq {radix : Nat} {ds : Text} (hradix : 0 < radix)
    (hds : ∀ c ∈ ds, isDigit radix c = true) : magnitude? radix ds = word? (digitsValue radix ds) := by
  induction ds using List.reverseRecOn with
  | nil => rfl
  | append_singleton ds c ih =>
      obtain ⟨hinit, hlast⟩ := List.forall_mem_append.mp hds
      have hgrows : digitsValue radix ds ≤ digitsValue radix ds * radix := Nat.le_mul_of_pos_right _ hradix
      unfold magnitude? at ih ⊢
      rw [List.foldlM_append, ih hinit, digitsValue_append_one]
      by_cases hfits : digitsValue radix ds < UInt64.size
      · rw [word?, if_pos hfits, ← pushDigit?_eq (hlast c (List.mem_singleton_self c))]
        exact bind_pure (pushDigit? radix (digitsValue radix ds) c)
      · rw [word?, if_neg hfits, word?, if_neg (by omega)]
        rfl

/-! ## The strict readers -/

/-- What has been read of an integer: whether it has a minus sign, its magnitude if that fits into a word,
    and the position behind its digits. -/
structure IntegerScan where
  negative : Bool
  magnitude : Option Nat
  stop : Nat
  deriving DecidableEq, Repr

/-- `IntegerLiteral.read?` in words. -/
def IntegerScan.read? (t : Text) : Checked (Option IntegerScan) := do
  let (negative, body) ← signAt t (← blanksEndAt t 0)
  let (radix, start) ← radixAt t body
  let count ← Text.digitCountAt radix t start
  if count = 0 then return none
  else
    let stop ← natWord 64 (start + count)
    return some ⟨negative, magnitude? radix (← t.octetsBetween start stop), stop⟩

theorem radixOf_pos (t : Text) : 0 < (radixOf t).1 := by
  unfold radixOf
  split
  · split <;> exact Nat.succ_pos _
  · exact Nat.succ_pos _
  · exact Nat.succ_pos _

/-- `read?` finds what `IntegerLiteral.read?` finds, with the magnitude if it fits. -/
theorem IntegerScan.read?_spec (hsize : t.byteLength < 2 ^ 60) :
    (IntegerLiteral.read? t = none ∧ read? t = .ok none) ∨
      ∃ l stop, IntegerLiteral.read? t = some l ∧
        read? t = .ok (some ⟨l.negative, word? l.magnitude, stop⟩) ∧ t.StandsAt stop l.rest := by
  obtain ⟨first, hblanks, hfirst⟩ := blanksEndAt_spec t.standsAt_zero hsize
  obtain ⟨body, hsign, hbody⟩ := signAt_spec hfirst hsize
  obtain ⟨start, hradix, hstart⟩ := radixAt_spec hbody hsize
  have hcount := hstart.digitCountAt (radixOf (takeSign (skipBlanks t)).2).1
  have hstop := hstart.digits (radixOf (takeSign (skipBlanks t)).2).1
  unfold IntegerScan.read? IntegerLiteral.read?
  simp only [hblanks, hsign, hradix, hcount, Checked.ok_bind]
  rcases hspan : spanDigits (radixOf (takeSign (skipBlanks t)).2).1 (radixOf (takeSign (skipBlanks t)).2).2
    with ⟨ds, after⟩
  obtain ⟨hwhole, hdigits, -⟩ := spanDigits_eq_iff.mp hspan
  rw [hspan] at hstop
  rw [hwhole] at hstart
  cases ds with
  | nil => exact .inl ⟨rfl, rfl⟩
  | cons c ds =>
      refine .inr ⟨_, start + (c :: ds).length, rfl, ?_, hstop⟩
      have hoctets := hstart.octetsBetween hstop ((Text.asciiKind_isDigit _).ascii hdigits)
      have hsome : (c :: ds).length ≠ 0 := Nat.succ_ne_zero ds.length
      dsimp only at hstop ⊢
      rw [if_neg hsome, hstop.natWord hsize, Checked.ok_bind, hoctets,
        Checked.ok_bind, magnitude?_eq (radixOf_pos _) hdigits]
      rfl

/-- `parseUInt64` in words. -/
def parseUInt64InWords (t : Text) : Checked (Except NumberError UInt64) := do
  match ← IntegerScan.read? t with
  | none => return .error ⟨.noNumber, t⟩
  | some ⟨negative, magnitude?, stop⟩ =>
    match magnitude? with
    | none => return .error ⟨.outOfRange, t⟩
    | some magnitude =>
      let word := UInt64.ofNat magnitude
      endingInWords t stop (if negative then -word else word)

/-- `parseInt64` in words. -/
def parseInt64InWords (t : Text) : Checked (Except NumberError Int64) := do
  match ← IntegerScan.read? t with
  | none => return .error ⟨.noNumber, t⟩
  | some ⟨negative, magnitude?, stop⟩ =>
    match magnitude? with
    | none => return .error ⟨.outOfRange, t⟩
    | some magnitude =>
      let word := (UInt64.ofNat magnitude).toInt64
      if negative ∧ magnitude ≤ 0x8000000000000000 then endingInWords t stop (-word)
      else if ¬negative ∧ magnitude ≤ 0x7fffffffffffffff then endingInWords t stop word
      else return .error ⟨.outOfRange, t⟩

theorem ofInt_natCast (n : Nat) : UInt64.ofInt n = UInt64.ofNat n := by
  apply UInt64.toNat_inj.mp
  have hword := natCast_toNat_ofInt n
  rw [UInt64.toNat_ofNat']
  omega

/-- **`parseUInt64InWords` passes all checks**, and is `parseUInt64`. -/
theorem parseUInt64InWords_eq_ok (hsize : t.byteLength < 2 ^ 60) :
    parseUInt64InWords t = .ok (parseUInt64 t) := by
  unfold parseUInt64InWords parseUInt64 strictly
  rcases IntegerScan.read?_spec hsize with ⟨hread, hscan⟩ | ⟨l, stop, hread, hscan, hstop⟩
  · rw [hread, hscan]
    rfl
  · simp only [hread, hscan, Checked.ok_bind]
    by_cases hfits : l.magnitude < UInt64.size
    · have hvalue : (if l.negative = true then -UInt64.ofNat l.magnitude else UInt64.ofNat l.magnitude) =
          UInt64.ofInt l.value := by
        unfold IntegerLiteral.value
        cases l.negative with
        | true => rw [if_pos rfl, if_pos rfl, UInt64.ofInt_neg, ofInt_natCast]
        | false => exact (ofInt_natCast l.magnitude).symm
      rw [word?, if_pos hfits, if_neg (Nat.not_le_of_lt hfits)]
      dsimp only
      rw [hvalue, endingInWords_eq_ok hstop]
    · rw [word?, if_neg hfits, if_pos (Nat.le_of_not_lt hfits)]
      rfl

/-- **`parseInt64InWords` passes all checks**, and is `parseInt64`. -/
theorem parseInt64InWords_eq_ok (hsize : t.byteLength < 2 ^ 60) :
    parseInt64InWords t = .ok (parseInt64 t) := by
  unfold parseInt64InWords parseInt64 strictly
  rcases IntegerScan.read?_spec hsize with ⟨hread, hscan⟩ | ⟨l, stop, hread, hscan, hstop⟩
  · rw [hread, hscan]
    rfl
  · simp only [hread, hscan, Checked.ok_bind]
    have hmin : Int64.minValue.toInt = -0x8000000000000000 := rfl
    have hmax : Int64.maxValue.toInt = 0x7fffffffffffffff := rfl
    have hlimit : UInt64.size = 0x10000000000000000 := rfl
    have hword : (UInt64.ofNat l.magnitude).toInt64 = Int64.ofInt l.magnitude := by
      rw [UInt64.toInt64_ofNat', Int64.ofInt_eq_ofNat]
    unfold IntegerLiteral.value
    by_cases hfits : l.magnitude < UInt64.size
    · rw [word?, if_pos hfits]
      dsimp only
      cases l.negative with
      | true =>
          simp only [if_true, true_and, not_true_eq_false, false_and, if_false]
          by_cases hle : l.magnitude ≤ 0x8000000000000000
          · rw [if_pos hle, if_neg (by omega), hword, ← Int64.ofInt_neg, endingInWords_eq_ok hstop]
          · rw [if_neg hle, if_pos (by omega)]
            rfl
      | false =>
          simp only [Bool.false_eq_true, if_false, false_and, not_false_eq_true, true_and]
          by_cases hle : l.magnitude ≤ 0x7fffffffffffffff
          · rw [if_pos hle, if_neg (by omega), hword, endingInWords_eq_ok hstop]
          · rw [if_neg hle, if_pos (by omega)]
            rfl
    · rw [word?, if_neg hfits, if_pos]
      · rfl
      · cases l.negative with
        | true =>
            rw [if_pos rfl]
            omega
        | false =>
            rw [if_neg Bool.false_ne_true]
            omega

end NetKit
