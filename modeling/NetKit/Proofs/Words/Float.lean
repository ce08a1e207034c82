import NetKit.Proofs.Words.FloatParts
import NetKit.Proofs.Words.Scaling

/-!
# Floating-point numbers in words — the strict reader by positions, with every check

`parseBinary64InWords` is `parseBinary64` as a machine runs it. It looks for a word, then for a hexadecimal number,
then for a decimal one. A hexadecimal number is counted, read and rounded in words. Of a decimal one only the end is
found; the text up to there is handed to a reader of such texts, which for this purpose is the one on characters.

What has been read is kept as a `FloatScan`, a value with two remarks, and whether the value is rejected is decided
from them (`FloatScan.isRejected`). It is decided differently for the three forms, and in each case as by
`FloatForm.isOutOfRange` (`FloatScan.Reads`).

## Contents
- `FloatScan`, `FloatScan.Reads`: what has been read, and for which form it stands.
- `hexFloatAt`, `FloatScan.hexAt?`, `FloatScan.decimalAt?`, `FloatScan.read?`: the forms.
- `parseBinary64InWords`: the strict reader.
-/

namespace NetKit

-- Powers are those of the core library, also where a theory of powers is imported.
attribute [local instance (high)] instPowNat

open Binary64

variable {t rest : Text} {pos : Nat}

/-- A number that has been read: its value with its sign, whether it was spelled as a word, whether it is
    too close to zero, and the position behind it. -/
structure FloatScan where
  value : Binary64
  special : Bool
  underflow : Bool
  stop : Nat
  deriving DecidableEq, Repr

namespace FloatScan

/-- The value is out of range, which a `special` one never is. -/
def isRejected (scan : FloatScan) : Bool :=
  !scan.special && (scan.value.place == infinityPlace || scan.underflow)

/-- `scan` has the value of `form` with its sign, and is rejected where `form` is out of range. -/
structure Reads (scan : FloatScan) (negative : Bool) (form : FloatForm) : Prop where
  value_eq : scan.value = form.value.withSign negative
  isRejected_eq : scan.isRejected = form.isOutOfRange

end FloatScan

/-! ## Hexadecimal numbers -/

/-- A hexadecimal number from its first digit or its point on: its value, whether that is too close to zero,
    and the position behind it. -/
def hexFloatAt (t : Text) (start : Nat) : Checked (Binary64 × Bool × Nat) := do
  let scan ← HexScan.run (← t.octetsFrom start) (.start start)
  let (exponent, stop) ← exponentAt 'p' t scan.position
  let (value, exact) ←
    Rounded.roundInWords scan.digits.mantissa scan.digits.sticky (clampExponent (scan.digits.exponent + exponent))
  return (value, !exact && value.place < minNormalPlace, stop)

/-- `readHex?` in words: there is a number if there is a mark, and a digit on either side of the point. -/
def FloatScan.hexAt? (negative : Bool) (t : Text) (pos : Nat) : Checked (Option FloatScan) := do
  if ← hexPrefixAt t pos then
    let start ← natWord 64 (pos + 2)
    let whole ← Text.digitCountAt 16 t start
    let fraction ← fractionCountAt 16 t (← natWord 64 (start + whole))
    if whole + fraction.getD 0 = 0 then return none
    else
      let (value, underflow, stop) ← hexFloatAt t start
      return some ⟨value.withSign negative, false, underflow, stop⟩
  else return none

theorem hexFloatAt_spec {m : NumeralMantissa 16} (h : t.StandsAt pos (m.text ++ rest))
    (hends : MantissaEnds m rest) (hsize : t.byteLength < 2 ^ 60) :
    ∃ stop, hexFloatAt t pos = .ok ((m.mantissa.roundHex (readExponent 'p' rest).1).value,
        !(m.mantissa.roundHex (readExponent 'p' rest).1).exact &&
          (m.mantissa.roundHex (readExponent 'p' rest).1).isBelowNormal, stop) ∧
      t.StandsAt stop (readExponent 'p' rest).2 := by
  have hbytes := h.add_byteLength
  have htext : Text.byteLength m.text = m.text.length := m.ascii_text.byteLength_eq
  rw [Text.byteLength_append, htext] at hbytes
  have hlimit : exponentLimit = 9223372036854775807 := by decide
  obtain ⟨dropped, lost, hholds⟩ := Mantissa.holds_accumulate m.isDigit_digits
  have hmantissa := hholds.mantissa_lt_two_pow
  obtain ⟨stop, hexponent, hstop⟩ := exponentAt_spec (by decide : 'p'.toNat < 128)
    (h.advance_ascii m.ascii_text) hsize
  refine ⟨stop, ?_, hstop⟩
  unfold hexFloatAt
  rw [h.octetsFrom, Checked.ok_bind, HexScan.run_mantissa hends (by omega) (by omega), Checked.ok_bind, hexponent,
    Checked.ok_bind]
  dsimp only
  rw [Rounded.roundInWords_eq_ok (by omega) hholds.two_pow_le_of_sticky
    (by unfold clampExponent; omega) (by unfold clampExponent; omega), Checked.ok_bind]
  rfl

/-- **`hexAt?` finds what `readHex?` finds**, and `Reads` its form. -/
theorem FloatScan.hexAt?_spec (negative : Bool) (h : t.StandsAt pos rest) (hsize : t.byteLength < 2 ^ 60) :
    (readHex? rest = none ∧ hexAt? negative t pos = .ok none) ∨
      ∃ form rest' scan, readHex? rest = some (form, rest') ∧ hexAt? negative t pos = .ok (some scan) ∧
        t.StandsAt scan.stop rest' ∧ scan.Reads negative form := by
  obtain ⟨found, hfound, hprefixed⟩ := hexPrefixAt_spec h hsize
  unfold hexAt?
  rw [hfound, Checked.ok_bind]
  cases found with
  | false =>
      refine .inl ⟨?_, if_neg Bool.false_ne_true⟩
      unfold readHex?
      split
      · next x tail =>
          refine if_neg fun hx => Bool.false_ne_true (hprefixed.mpr ⟨x, tail, rfl, ?_⟩)
          simpa using hx
      · rfl
  | true =>
      obtain ⟨x, tail, rfl, hx⟩ := hprefixed.mp rfl
      have hascii : x.toNat < 128 := by rcases hx with rfl | rfl <;> decide
      have hmark : (x = 'x' || x = 'X') = true := by simpa using hx
      have hstart := (h.tail (by decide)).tail hascii
      obtain ⟨whole, fraction, hwhole, hpoint, hfraction, hread⟩ := mantissa_spec 16 hstart hsize
      unfold readHex?
      simp only [hstart.natWord hsize, hwhole, hpoint, hfraction, Checked.ok_bind, hmark, if_true]
      rcases hread with ⟨hnone, hread⟩ | ⟨m, rest', hsome, -, -, rfl, hends⟩
      · rw [if_pos hnone, hread]
        exact .inl ⟨rfl, rfl⟩
      · obtain ⟨stop, hfloat, hstop⟩ := hexFloatAt_spec hstart hends hsize
        rw [if_neg hsome, hfloat, m.read?_text (Nat.le_refl 16) hends.digit hends.point]
        refine .inr ⟨_, _, _, rfl, rfl, hstop, rfl, ?_⟩
        unfold isRejected
        dsimp only
        rw [Rounded.place_withSign]
        rfl

/-! ## Decimal numbers -/

/-- `x` is neither zero nor subnormal nor infinite nor `nan`. -/
def Binary64.isNormal (x : Binary64) : Bool := minNormalPlace ≤ x.place && x.place < infinityPlace

/-- The value of a text that is a decimal number as a whole. -/
def decimalOfText? (t : Text) : Option Binary64 :=
  let (negative, unsigned) := takeSign t
  match readDecimal? unsigned with
  | some (form, []) => some (form.value.withSign negative)
  | _ => none

/-- The position behind the digits of a decimal mantissa. -/
def mantissaEndAt (t : Text) (start : Nat) : Checked Nat := do
  let whole ← Text.digitCountAt 10 t start
  let point ← natWord 64 (start + whole)
  match ← fractionCountAt 10 t point with
  | some fraction => if whole + fraction = 0 then return point else natWord 64 (point + (1 + fraction))
  | none => return point

/-- `readDecimal?` in words, with the sign at `first` and the mantissa at `start`. -/
def FloatScan.decimalAt? (t : Text) (first start : Nat) : Checked (Option FloatScan) := do
  let point ← mantissaEndAt t start
  if point = start then return none
  else
    let nonzero := (← t.octetsBetween start point).any fun c => '1' ≤ c && c ≤ '9'
    let (_, stop) ← exponentAt 'e' t point
    match decimalOfText? (← t.slice first stop) with
    | none => return none
    | some value => return some ⟨value, false, nonzero && !value.isNormal, stop⟩

/-- `mantissaEndAt` finds the end of the mantissa, or there is none. -/
theorem mantissaEndAt_spec (h : t.StandsAt pos rest) (hsize : t.byteLength < 2 ^ 60) :
    (mantissaEndAt t pos = .ok pos ∧ Mantissa.read? 10 rest = none) ∨
      ∃ (m : NumeralMantissa 10) (rest' : Text), mantissaEndAt t pos = .ok (pos + m.text.length) ∧
        m.text.length ≠ 0 ∧ rest = m.text ++ rest' ∧ MantissaEnds m rest' := by
  obtain ⟨whole, fraction, hwhole, hpoint, hfraction, hread⟩ := mantissa_spec 10 h hsize
  unfold mantissaEndAt
  rw [hwhole, Checked.ok_bind, hpoint, Checked.ok_bind, hfraction, Checked.ok_bind]
  rcases hread with ⟨hnone, hread⟩ | ⟨m, rest', hsome, rfl, rfl, rfl, hends⟩
  · refine .inl ⟨?_, hread⟩
    obtain ⟨rfl, hfraction⟩ := Nat.add_eq_zero_iff.mp hnone
    cases fraction with
    | none => rfl
    | some fraction => exact if_pos hnone
  · refine .inr ⟨m, rest', ?_, ?_, rfl, hends⟩
    · have hstop := (h.advance_ascii m.ascii_text).natWord hsize
      unfold NumeralMantissa.text at hstop ⊢
      cases hm : m.fraction with
      | none =>
          rw [Option.elim_none, List.append_nil]
          rfl
      | some fraction =>
          have hposition : pos + (m.whole.length + (fraction.length + 1)) =
              pos + m.whole.length + (1 + fraction.length) := by omega
          rw [hm, Option.map_some, Option.getD_some] at hsome
          rw [hm] at hstop
          rw [Option.elim_some, List.length_append, List.length_cons] at hstop ⊢
          rw [hposition] at hstop ⊢
          exact (if_neg hsome).trans hstop
    · intro hzero
      have hle := m.length_digits_le
      rw [hzero, Nat.le_zero, List.length_eq_zero_iff] at hle
      exact m.digits_ne_nil hle

/-- `decimalOfText?` has the value of a whole decimal numeral. -/
theorem decimalOfText?_text (n : DecimalNumeral) :
    decimalOfText? n.text = some ((FloatNumeral.decimal n).form.value.withSign n.sign.isMinus) := by
  have hends := scaleEnds_blanks exponentMarker_e n.mantissa n.exponent (List.forall_mem_nil _)
  obtain ⟨hmantissa, hexponent⟩ := read_scaled exponentMarker_e hends
  obtain ⟨c, tail, hbody, -, ⟨hminus, hplus⟩, -⟩ := n.exists_body_cons
  have hread : readDecimal? n.body = some ((FloatNumeral.decimal n).form, []) := by
    rw [List.append_nil] at hmantissa hexponent
    unfold readDecimal? DecimalNumeral.body DecimalNumeral.exponentText
    rw [hmantissa, Option.map_some]
    dsimp only
    rw [hexponent]
    rfl
  have htext : n.text = n.sign.text ++ n.body := rfl
  unfold decimalOfText?
  rw [htext, hbody, n.sign.takeSign_text hminus hplus, ← hbody]
  dsimp only
  rw [hread]

/-- A decimal digit is from `1` to `9` if it is not `0`. -/
theorem isDigit_ten_ne_zero {c : Char} (hc : isDigit 10 c = true) :
    ('1' ≤ c && c ≤ '9') = decide (c ≠ '0') := by
  obtain ⟨hlow, hhigh⟩ := isDigit_ten_iff.mp hc
  have hzero : c ≠ '0' ↔ '1' ≤ c := by
    have hone : '1' ≤ c ↔ 49 ≤ c.toNat := Iff.rfl
    have hleast : 48 ≤ c.toNat := hlow
    rw [hone, ne_eq, ← Char.toNat_inj]
    have h48 : '0'.toNat = 48 := rfl
    omega
  rw [decide_eq_true hhigh, Bool.and_true, decide_eq_decide, hzero]

/-- Of the digits of a mantissa and its point, the nonzero digits are those from `1` to `9`. -/
theorem any_text_eq_isNonzero (m : NumeralMantissa 10) :
    (m.text.any fun c => '1' ≤ c && c ≤ '9') = m.mantissa.isNonzero := by
  have hdigits : ∀ ds : Text, (∀ c ∈ ds, isDigit 10 c = true) →
      (ds.any fun c => '1' ≤ c && c ≤ '9') = ds.any fun c => decide (c ≠ '0') := by
    intro ds hds
    induction ds with
    | nil => rfl
    | cons c ds ih =>
        obtain ⟨hc, htail⟩ := List.forall_mem_cons.mp hds
        rw [List.any_cons, List.any_cons, ih htail, isDigit_ten_ne_zero hc]
  have hpoint : ('1' ≤ '.' && '.' ≤ '9') = false := by decide
  have hfraction := hdigits _ m.isDigit_fraction
  unfold NumeralMantissa.text Mantissa.isNonzero Mantissa.digits NumeralMantissa.mantissa
  rw [List.any_append, List.any_append, hdigits _ m.isDigit_whole, ← hfraction]
  cases m.fraction with
  | none => rfl
  | some fraction => rw [Option.elim_some, Option.getD_some, List.any_cons, hpoint, Bool.false_or]

/-- Of finite values, those below `minNormalPlace` are not normal. -/
theorem beq_or_not_isNormal {x : Binary64} (hle : x.place ≤ infinityPlace) (nonzero : Bool) :
    (x.place == infinityPlace || (nonzero && !x.isNormal)) =
      (x.place == infinityPlace || (nonzero && decide (x.place < minNormalPlace))) := by
  unfold Binary64.isNormal
  rcases Nat.lt_or_eq_of_le hle with hfinite | hinfinite
  · rw [decide_eq_true hfinite, Bool.and_true, ← decide_not, decide_eq_decide.mpr Nat.not_le]
  · rw [hinfinite, beq_self_eq_true, Bool.true_or, Bool.true_or]

/-- **`decimalAt?` finds what `readDecimal?` finds**, and `Reads` its form. -/
theorem FloatScan.decimalAt?_spec {first start : Nat} (hfirst : t.StandsAt first rest)
    (hstart : t.StandsAt start (takeSign rest).2) (hsize : t.byteLength < 2 ^ 60) :
    (readDecimal? (takeSign rest).2 = none ∧ decimalAt? t first start = .ok none) ∨
      ∃ form rest' scan, readDecimal? (takeSign rest).2 = some (form, rest') ∧
        decimalAt? t first start = .ok (some scan) ∧ t.StandsAt scan.stop rest' ∧
        scan.Reads (takeSign rest).1 form := by
  unfold decimalAt?
  rcases mantissaEndAt_spec hstart hsize with ⟨hend, hread⟩ | ⟨m, after, hend, hsome, hbody, hends⟩
  · rw [hend, Checked.ok_bind, if_pos rfl]
    unfold readDecimal?
    rw [hread]
    exact .inl ⟨rfl, rfl⟩
  · obtain ⟨sign, hsign, hminus⟩ := exists_sign_takeSign rest
    have hread : readDecimal? (takeSign rest).2 =
        some (.decimal m.mantissa (readExponent 'e' after).1, (readExponent 'e' after).2) := by
      unfold readDecimal?
      rw [hbody, m.read?_text (by decide) hends.digit hends.point]
      rfl
    obtain ⟨n, rfl, hnumeral, hform⟩ := DecimalNumeral.exists_of_read sign hread
    rw [hbody] at hstart
    have hpoint := hstart.advance_ascii m.ascii_text
    obtain ⟨stop, hexponent, hstop⟩ := exponentAt_spec (by decide : 'e'.toNat < 128) hpoint hsize
    have htext : t.StandsAt first (n.text ++ (readExponent 'e' after).2) := by
      have hwhole : rest = n.text ++ (readExponent 'e' after).2 := by
        rw [hsign, hnumeral, ← List.append_assoc]
        rfl
      rwa [hwhole] at hfirst
    rw [hend, Checked.ok_bind, if_neg (by omega), hstart.octetsBetween hpoint m.ascii_text, Checked.ok_bind,
      hexponent, Checked.ok_bind]
    dsimp only
    rw [htext.slice hstop, Checked.ok_bind, decimalOfText?_text, any_text_eq_isNonzero]
    have hplace : ∀ negative, ((FloatForm.decimal m.mantissa (readExponent 'e' after).1).value.withSign
        negative).place = (m.mantissa.roundDecimal (readExponent 'e' after).1).value.place :=
      Rounded.place_withSign _
    refine .inr ⟨_, _, _, hread, rfl, hstop, ?_, ?_⟩
    · rw [hform, hminus]
    · unfold isRejected
      dsimp only
      rw [hform, Bool.not_false, Bool.true_and, beq_or_not_isNormal, hplace]
      · rfl
      · rw [hplace]
        exact placeOf_le _ _

/-! ## The strict reader -/

/-- `FloatLiteral.read?` in words. -/
def FloatScan.read? (t : Text) : Checked (Option FloatScan) := do
  let first ← blanksEndAt t 0
  let (negative, start) ← signAt t first
  match ← specialAt t start with
  | some (form, stop) => return some ⟨form.value.withSign negative, true, false, stop⟩
  | none =>
    match ← hexAt? negative t start with
    | some scan => return some scan
    | none => decimalAt? t first start

/-- `parseBinary64` in words. -/
def parseBinary64InWords (t : Text) : Checked (Except NumberError Binary64) := do
  match ← FloatScan.read? t with
  | none => return .error ⟨.noNumber, t⟩
  | some scan =>
    if scan.isRejected then return .error ⟨.outOfRange, t⟩ else endingInWords t scan.stop scan.value

theorem FloatScan.read?_spec (hsize : t.byteLength < 2 ^ 60) :
    (FloatLiteral.read? t = none ∧ read? t = .ok none) ∨
      ∃ l scan, FloatLiteral.read? t = some l ∧ read? t = .ok (some scan) ∧
        t.StandsAt scan.stop l.rest ∧ scan.Reads l.negative l.form := by
  obtain ⟨first, hblanks, hfirst⟩ := blanksEndAt_spec t.standsAt_zero hsize
  obtain ⟨start, hsign, hstart⟩ := signAt_spec hfirst hsize
  unfold FloatScan.read? FloatLiteral.read? FloatForm.read?
  simp only [hblanks, hsign, Checked.ok_bind]
  rcases specialAt_spec hstart hsize with
    ⟨hword, hspecial⟩ | ⟨form, rest, stop, hword, hspecial, hstop, hform⟩
  · simp only [hword, hspecial, Option.none_or, Checked.ok_bind]
    rcases hexAt?_spec (takeSign (skipBlanks t)).1 hstart hsize with
      ⟨hhex, hscan⟩ | ⟨form, rest, scan, hhex, hscan, hstop, hreads⟩
    · simp only [hhex, hscan, Option.none_or, Checked.ok_bind]
      rcases decimalAt?_spec hfirst hstart hsize with
        ⟨hdecimal, hscan⟩ | ⟨form, rest, scan, hdecimal, hscan, hstop, hreads⟩
      · rw [hdecimal, hscan]
        exact .inl ⟨rfl, rfl⟩
      · rw [hdecimal, hscan]
        exact .inr ⟨⟨_, form, rest⟩, scan, rfl, rfl, hstop, hreads⟩
    · rw [hhex, hscan]
      exact .inr ⟨⟨_, form, rest⟩, scan, rfl, rfl, hstop, hreads⟩
  · rw [hword, hspecial]
    refine .inr ⟨⟨(takeSign (skipBlanks t)).1, form, rest⟩, ⟨_, true, false, stop⟩, rfl, rfl, hstop, rfl, ?_⟩
    rcases hform with rfl | rfl <;> rfl

/-- **`parseBinary64InWords` passes all checks**, and is `parseBinary64`. -/
theorem parseBinary64InWords_eq_ok (hsize : t.byteLength < 2 ^ 60) :
    parseBinary64InWords t = .ok (parseBinary64 t) := by
  unfold parseBinary64InWords parseBinary64 strictly
  rcases FloatScan.read?_spec hsize with ⟨hread, hscan⟩ | ⟨l, scan, hread, hscan, hstop, hreads⟩
  · rw [hread, hscan]
    rfl
  · rw [hread, hscan, Checked.ok_bind]
    dsimp only
    rw [hreads.isRejected_eq]
    by_cases hrejected : l.form.isOutOfRange = true
    · rw [if_pos hrejected, if_pos hrejected]
      rfl
    · rw [if_neg hrejected, if_neg hrejected, endingInWords_eq_ok hstop, hreads.value_eq]
      rfl

end NetKit
