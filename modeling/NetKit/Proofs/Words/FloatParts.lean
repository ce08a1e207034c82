import NetKit.Proofs.Number.FloatForms
import NetKit.Proofs.Words.HexDigits
import NetKit.Proofs.Words.Integer

/-!
# Parts of floating-point numbers in words — words, tags, exponents and mantissas by positions

A floating-point number is looked for in parts: a word in any case, a tag behind it, the digits on both sides of a
point, an exponent. Each part is asked for by positions, with every check, and each is stated against its part of
`FloatForm.read?`, as for integers.

`clampExponent` saturates an exponent, so that no number of digits can make it too large. Its magnitude is never more
than the largest one of a word, and the negative of that fits too (`exponentAt_spec`).

## Contents
- `wordAt`, `tagEndAt`, `specialAt`: words.
- `pushExponentDigit`, `exponentAt`: exponents.
- `fractionCountAt`, `mantissa_spec`: the digits of a mantissa.
- `HexScan.run_mantissa`: where the loop over hexadecimal digits stops.
-/

namespace NetKit

-- Powers are those of the core library, also where a theory of powers is imported.
attribute [local instance (high)] instPowNat

variable {t rest : Text} {pos : Nat}

/-! ## Words -/

/-- `word` stands at `pos`, in any case. -/
def wordAt (word t : Text) (pos : Nat) : Checked Bool := do
  let octets ← t.octetsFrom pos
  let stop ← natWord 64 (pos + word.length)
  return stop ≤ t.byteLength && (octets.take word.length).map Char.toLower == word

/-- The position behind a tag in parentheses, or `pos` if there is none. -/
def tagEndAt (t : Text) (pos : Nat) : Checked Nat := do
  if (← t.octetAt pos) = some '(' then
    let start ← natWord 64 (pos + 1)
    let inner := ((← t.octetsFrom start).takeWhile isTagChar).length
    if (← t.octetAt (← natWord 64 (start + inner))) = some ')' then natWord 64 (pos + (inner + 2))
    else return pos
  else return pos

/-- `readWord?` in words: the form, and the position behind it. -/
def specialAt (t : Text) (pos : Nat) : Checked (Option (FloatForm × Nat)) := do
  if ← wordAt "infinity".toList t pos then
    return some (.infinity, ← natWord 64 (pos + "infinity".toList.length))
  else if ← wordAt "inf".toList t pos then
    return some (.infinity, ← natWord 64 (pos + "inf".toList.length))
  else if ← wordAt "nan".toList t pos then
    return some (.nan, ← tagEndAt t (← natWord 64 (pos + "nan".toList.length)))
  else return none

theorem ascii_of_map_toLower {w word : Text} (hword : word.Ascii) (h : w.map Char.toLower = word) :
    w.Ascii := by
  intro c hc
  have hlower : c.toLower.toNat < 128 := hword _ (h ▸ List.mem_map_of_mem hc)
  exact Text.asciiKind_toLower hlower c (beq_self_eq_true _)

/-- **`wordAt` answers for the bytes what `stripWord?` answers for the characters.** -/
theorem wordAt_spec {word : Text} (h : t.StandsAt pos rest) (hsize : t.byteLength < 2 ^ 60)
    (hascii : word.Ascii) (hshort : word.length ≤ 8) :
    (wordAt word t pos = .ok false ∧ stripWord? word rest = none) ∨
      ∃ rest', wordAt word t pos = .ok true ∧ stripWord? word rest = some rest' ∧
        t.StandsAt (pos + word.length) rest' := by
  have hbytes := h.add_byteLength
  have hfits : natWord 64 (pos + word.length) = .ok (pos + word.length) := natWord_of_lt (by omega)
  have hword : wordAt word t pos = .ok (decide (pos + word.length ≤ t.byteLength) &&
      (rest.octets.take word.length).map Char.toLower == word) := by
    unfold wordAt
    rw [h.octetsFrom, hfits]
    rfl
  rw [hword]
  by_cases hsame : (rest.octets.take word.length).map Char.toLower = word
  · obtain ⟨rest', hrest, -⟩ := Text.exists_of_octets_eq_append (ascii_of_map_toLower hascii hsame)
      (List.take_append_drop word.length rest.octets).symm
    have hlength : (rest.octets.take word.length).length = word.length := by
      rw [← List.length_map Char.toLower, hsame]
    rw [hrest] at h
    have hstop := h.advance_ascii (ascii_of_map_toLower hascii hsame)
    rw [hlength] at hstop
    have hle := hstop.add_byteLength
    refine .inr ⟨rest', ?_, stripWord?_eq_some_iff.mpr ⟨_, hsame, hrest⟩, hstop⟩
    rw [decide_eq_true (by omega), hsame, beq_self_eq_true]
    rfl
  · refine .inl ⟨?_, ?_⟩
    · rw [beq_eq_false_iff_ne.mpr hsame, Bool.and_false]
    · rw [Option.eq_none_iff_forall_ne_some]
      intro rest' hstrip
      obtain ⟨w, hw, rfl⟩ := stripWord?_eq_some_iff.mp hstrip
      have hlength : word.length = w.length := by rw [← hw, List.length_map]
      apply hsame
      rw [Text.octets_append, (ascii_of_map_toLower hascii hw).octets_eq, hlength, List.take_left, hw]

theorem tagEndAt_spec (h : t.StandsAt pos rest) (hsize : t.byteLength < 2 ^ 60) :
    ∃ stop, tagEndAt t pos = .ok stop ∧ t.StandsAt stop (skipTag rest) := by
  have hopen : rest.octets.head? = some '(' ↔ rest.head? = some '(' :=
    Text.head?_octets_eq_some_iff (by decide)
  unfold tagEndAt
  simp only [h.octetAt, Checked.ok_bind, hopen]
  by_cases hhead : rest.head? = some '('
  · obtain ⟨tail, rfl⟩ := List.head?_eq_some_iff.mp hhead
    have hstart := h.tail (by decide)
    have hinner := hstart.pass Text.asciiKind_isTagChar
    have hclose : (Text.octets (tail.dropWhile isTagChar)).head? = some ')' ↔
        (tail.dropWhile isTagChar).head? = some ')' := Text.head?_octets_eq_some_iff (by decide)
    simp only [if_pos hhead, hstart.natWord hsize, hstart.octetsFrom, Checked.ok_bind,
      Text.takeWhile_octets Text.asciiKind_isTagChar, hinner.natWord hsize, hinner.octetAt, hclose]
    by_cases hclosed : (tail.dropWhile isTagChar).head? = some ')'
    · obtain ⟨rest', hrest⟩ := List.head?_eq_some_iff.mp hclosed
      rw [hrest] at hinner
      have hstop := hinner.tail (by decide)
      have hposition : pos + 1 + (tail.takeWhile isTagChar).length + 1 =
          pos + ((tail.takeWhile isTagChar).length + 2) := by omega
      have hskip : skipTag ('(' :: tail) = rest' := by
        unfold skipTag
        simp only [hrest]
      rw [hposition] at hstop
      rw [if_pos hclosed, hstop.natWord hsize, hskip]
      exact ⟨_, rfl, hstop⟩
    · rw [if_neg hclosed, skipTag_open hclosed]
      exact ⟨pos, rfl, h⟩
  · have hskip : skipTag rest = rest := by
      unfold skipTag
      split
      · exact absurd rfl hhead
      · rfl
    rw [if_neg hhead, hskip]
    exact ⟨pos, rfl, h⟩

/-- `specialAt` finds what `readWord?` finds; a word has a value of its own. -/
theorem specialAt_spec (h : t.StandsAt pos rest) (hsize : t.byteLength < 2 ^ 60) :
    (readWord? rest = none ∧ specialAt t pos = .ok none) ∨
      ∃ form rest' stop, readWord? rest = some (form, rest') ∧ specialAt t pos = .ok (some (form, stop)) ∧
        t.StandsAt stop rest' ∧ (form = .infinity ∨ form = .nan) := by
  have hinfinity := wordAt_spec h hsize (by decide : Text.Ascii "infinity".toList) (by decide)
  have hinf := wordAt_spec h hsize (by decide : Text.Ascii "inf".toList) (by decide)
  have hnan := wordAt_spec h hsize (by decide : Text.Ascii "nan".toList) (by decide)
  unfold specialAt readWord?
  rcases hinfinity with ⟨hword, hstrip⟩ | ⟨rest', hword, hstrip, hstop⟩
  · rw [hword, hstrip, Checked.ok_bind, if_neg Bool.false_ne_true]
    rcases hinf with ⟨hword, hstrip⟩ | ⟨rest', hword, hstrip, hstop⟩
    · rw [hword, hstrip, Checked.ok_bind, if_neg Bool.false_ne_true]
      rcases hnan with ⟨hword, hstrip⟩ | ⟨rest', hword, hstrip, hstop⟩
      · rw [hword, hstrip]
        exact .inl ⟨rfl, rfl⟩
      · obtain ⟨stop, htag, hrest⟩ := tagEndAt_spec hstop hsize
        refine .inr ⟨.nan, skipTag rest', stop, by rw [hstrip], ?_, hrest, .inr rfl⟩
        rw [hword, Checked.ok_bind, if_pos rfl, hstop.natWord hsize, Checked.ok_bind, htag]
        rfl
    · refine .inr ⟨.infinity, rest', _, by rw [hstrip], ?_, hstop, .inl rfl⟩
      rw [hword, Checked.ok_bind, if_pos rfl, hstop.natWord hsize]
      rfl
  · refine .inr ⟨.infinity, rest', _, by rw [hstrip], ?_, hstop, .inl rfl⟩
    rw [hword, Checked.ok_bind, if_pos rfl, hstop.natWord hsize]
    rfl

/-! ## Exponents -/

/-- One more digit of an exponent; both the product and the sum saturate. -/
def pushExponentDigit (magnitude : Int) (c : Char) : Checked Int := do
  let digit ← natOfInt ((c.toNat : Int) - '0'.toNat)
  return clampExponent (clampExponent (magnitude * 10) + digit)

/-- `readExponent` in words: the exponent and the position behind it. -/
def exponentAt (marker : Char) (t : Text) (pos : Nat) : Checked (Int × Nat) := do
  if (← t.octetAt pos).any fun c => c.toLower == marker then
    let (negative, start) ← signAt t (← natWord 64 (pos + 1))
    let count ← Text.digitCountAt 10 t start
    if count = 0 then return (0, pos)
    else
      let stop ← natWord 64 (start + count)
      let magnitude ← (← t.octetsBetween start stop).foldlM pushExponentDigit 0
      return (← if negative then intWord (-magnitude) else pure magnitude, stop)
  else return (0, pos)

theorem saturatedValue_le (ds : Text) : saturatedValue ds ≤ exponentLimit := by
  rw [saturatedValue_eq_min]
  exact Nat.min_le_right _ _

theorem pushExponentDigit_eq_ok {c : Char} (hc : isDigit 10 c = true) (magnitude : Nat) :
    pushExponentDigit magnitude c = .ok (min (magnitude * 10 + digitValue c) exponentLimit : Nat) := by
  have hlow : '0'.toNat ≤ c.toNat := (isDigit_ten_iff.mp hc).1
  have hdigit : (c.toNat : Int) - '0'.toNat = (digitValue c : Nat) := by
    rw [digitValue_of_isDigit_ten hc, Int.ofNat_sub hlow]
  unfold pushExponentDigit
  rw [hdigit, natOfInt_natCast, Checked.ok_bind, Checked.pure_eq_ok]
  unfold clampExponent
  congr 1
  omega

/-- `pushExponentDigit` over all digits gives `saturatedValue`. -/
theorem foldlM_pushExponentDigit {ds : Text} (hds : ∀ c ∈ ds, isDigit 10 c = true) :
    ds.foldlM pushExponentDigit 0 = .ok (saturatedValue ds : Int) := by
  induction ds using List.reverseRecOn with
  | nil => rfl
  | append_singleton ds c ih =>
      obtain ⟨hinit, hlast⟩ := List.forall_mem_append.mp hds
      have hpush := pushExponentDigit_eq_ok (hlast c (List.mem_singleton_self c)) (saturatedValue ds)
      rw [List.foldlM_append, ih hinit, Checked.ok_bind, List.foldlM_cons, hpush]
      unfold saturatedValue
      rw [List.foldl_append]
      rfl

/-- **`exponentAt` reads what `readExponent` reads**, and negating it passes its check. -/
theorem exponentAt_spec {marker : Char} (hmarker : marker.toNat < 128) (h : t.StandsAt pos rest)
    (hsize : t.byteLength < 2 ^ 60) :
    ∃ stop, exponentAt marker t pos = .ok ((readExponent marker rest).1, stop) ∧
      t.StandsAt stop (readExponent marker rest).2 := by
  unfold exponentAt
  rw [h.octetAt, Checked.ok_bind, Text.any_head?_octets (Text.asciiKind_toLower hmarker)]
  cases rest with
  | nil => exact ⟨pos, rfl, h⟩
  | cons c tail =>
      rw [List.head?_cons, Option.any_some]
      by_cases hc : c.toLower = marker
      · have htail := h.tail (Text.asciiKind_toLower hmarker c (beq_iff_eq.mpr hc))
        obtain ⟨start, hsign, hstart⟩ := signAt_spec htail hsize
        have hcount := hstart.digitCountAt 10
        have hstop := hstart.digits 10
        unfold readExponent
        simp only [hc, beq_self_eq_true, if_true, htail.natWord hsize, hsign, hcount, Checked.ok_bind]
        rcases hspan : spanDigits 10 (takeSign tail).2 with ⟨ds, after⟩
        obtain ⟨hwhole, hdigits, -⟩ := spanDigits_eq_iff.mp hspan
        rw [hspan] at hstop
        rw [hwhole] at hstart
        cases ds with
        | nil => exact ⟨pos, rfl, h⟩
        | cons d ds =>
            have hoctets := hstart.octetsBetween hstop ((Text.asciiKind_isDigit 10).ascii hdigits)
            have hsome : (d :: ds).length ≠ 0 := Nat.succ_ne_zero ds.length
            have hle := saturatedValue_le (d :: ds)
            have hlimit : exponentLimit = 9223372036854775807 := by decide
            have hnegative : intWord (-(saturatedValue (d :: ds) : Int)) = .ok (-(saturatedValue (d :: ds) : Int)) :=
              intWord_of_mem (by omega) (by omega)
            refine ⟨start + (d :: ds).length, ?_, hstop⟩
            dsimp only at hstop ⊢
            rw [if_neg hsome, hstop.natWord hsize, Checked.ok_bind, hoctets, Checked.ok_bind,
              foldlM_pushExponentDigit hdigits, Checked.ok_bind]
            cases (takeSign tail).1 with
            | true =>
                rw [if_pos rfl, if_pos rfl, hnegative]
                rfl
            | false => rfl
      · have hnone : readExponent marker (c :: tail) = (0, c :: tail) := if_neg hc
        rw [if_neg (by simpa using hc), hnone]
        exact ⟨pos, rfl, h⟩

/-! ## Mantissas -/

/-- The count of digits behind a point, if there is a point. -/
def fractionCountAt (radix : Nat) (t : Text) (pos : Nat) : Checked (Option Nat) := do
  if (← t.octetAt pos) = some '.' then return some (← Text.digitCountAt radix t (← natWord 64 (pos + 1)))
  else return none

/-- `fractionCountAt` counts the digits behind a point, if there is a point. -/
theorem fractionCountAt_spec (radix : Nat) (h : t.StandsAt pos rest) (hsize : t.byteLength < 2 ^ 60) :
    (rest.head? ≠ some '.' ∧ fractionCountAt radix t pos = .ok none) ∨
      ∃ fraction rest', rest = '.' :: (fraction ++ rest') ∧ (∀ c ∈ fraction, isDigit radix c = true) ∧
        startsWithDigit radix rest' = false ∧ fractionCountAt radix t pos = .ok (some fraction.length) := by
  have hpoint : rest.octets.head? = some '.' ↔ rest.head? = some '.' :=
    Text.head?_octets_eq_some_iff (by decide)
  unfold fractionCountAt
  simp only [h.octetAt, Checked.ok_bind, hpoint]
  by_cases hhead : rest.head? = some '.'
  · obtain ⟨tail, rfl⟩ := List.head?_eq_some_iff.mp hhead
    have htail := h.tail (by decide)
    rcases hspan : spanDigits radix tail with ⟨fraction, rest'⟩
    obtain ⟨rfl, hdigits, hend⟩ := spanDigits_eq_iff.mp hspan
    refine .inr ⟨fraction, rest', rfl, hdigits, hend, ?_⟩
    rw [if_pos hhead, htail.natWord hsize, Checked.ok_bind, htail.digitCountAt, hspan]
    rfl
  · exact .inl ⟨hhead, if_neg hhead⟩

/-- `rest` does not go on with the mantissa. -/
structure MantissaEnds {radix : Nat} (m : NumeralMantissa radix) (rest : Text) : Prop where
  digit : startsWithDigit radix rest = false
  point : m.fraction = none → rest.head? ≠ some '.'

/-- `Mantissa.read?` fails without a digit on either side of the point. -/
theorem read?_eq_none {radix : Nat} {after : Text} (hspan : spanDigits radix t = ([], after))
    (hpoint : ∀ tail, after = '.' :: tail → (spanDigits radix tail).1 = []) :
    Mantissa.read? radix t = none := by
  unfold Mantissa.read?
  rw [hspan]
  split
  · next whole tail heq =>
      cases heq
      rcases hfraction : spanDigits radix tail with ⟨fraction, rest⟩
      have hnone := hpoint tail rfl
      rw [hfraction] at hnone
      cases hnone
      rfl
  · next heq =>
      cases heq
      rfl

/-- **The digits are counted on both sides of a point, if there is one**, and `Mantissa.read?` succeeds if
    there are any. -/
theorem mantissa_spec (radix : Nat) (h : t.StandsAt pos rest)
    (hsize : t.byteLength < 2 ^ 60) :
    ∃ whole fraction, Text.digitCountAt radix t pos = .ok whole ∧
      natWord 64 (pos + whole) = .ok (pos + whole) ∧
      fractionCountAt radix t (pos + whole) = .ok fraction ∧
      ((whole + fraction.getD 0 = 0 ∧ Mantissa.read? radix rest = none) ∨
        ∃ (m : NumeralMantissa radix) (rest' : Text), whole + fraction.getD 0 ≠ 0 ∧
          m.whole.length = whole ∧ m.fraction.map List.length = fraction ∧ rest = m.text ++ rest' ∧
          MantissaEnds m rest') := by
  have hcount := h.digitCountAt radix
  have hafter := h.digits radix
  rcases hspan : spanDigits radix rest with ⟨ws, after⟩
  obtain ⟨rfl, hws, hend⟩ := spanDigits_eq_iff.mp hspan
  rw [hspan] at hcount hafter
  rcases fractionCountAt_spec radix hafter hsize with
    ⟨hhead, hfraction⟩ | ⟨fs, rest', rfl, hfs, hend', hfraction⟩
  · refine ⟨ws.length, none, hcount, hafter.natWord hsize, hfraction, ?_⟩
    by_cases hnone : ws = []
    · subst hnone
      exact .inl ⟨rfl, read?_eq_none hspan fun tail htail => absurd (htail ▸ rfl) hhead⟩
    · refine .inr ⟨⟨ws, none, hws, List.forall_mem_nil _, by simpa using hnone⟩, after, ?_, rfl, rfl, ?_,
        hend, fun _ => hhead⟩
      · simpa using hnone
      · unfold NumeralMantissa.text
        rw [Option.elim_none, List.append_nil]
  · refine ⟨ws.length, some fs.length, hcount, hafter.natWord hsize, hfraction, ?_⟩
    by_cases hnone : ws ++ fs = []
    · obtain ⟨rfl, rfl⟩ := List.append_eq_nil_iff.mp hnone
      refine .inl ⟨rfl, read?_eq_none hspan fun tail htail => ?_⟩
      cases htail
      rw [List.nil_append, spanDigits_eq_iff.mpr ⟨(List.nil_append rest').symm, List.forall_mem_nil _, hend'⟩]
    · refine .inr ⟨⟨ws, some fs, hws, hfs, hnone⟩, rest', ?_, rfl, rfl, ?_, hend', fun h => by cases h⟩
      · rw [Option.getD_some, ← List.length_append]
        exact fun h => hnone (List.length_eq_zero_iff.mp h)
      · unfold NumeralMantissa.text
        rw [Option.elim_some, List.append_assoc, List.cons_append]

/-! ## The loop over hexadecimal digits -/

namespace NumeralMantissa

variable {radix : Nat}

theorem ascii_text (m : NumeralMantissa radix) : Text.Ascii m.text := by
  intro c hc
  rcases m.mem_text hc with hdigit | rfl
  · exact Text.asciiKind_isDigit radix c hdigit
  · decide

theorem point_not_mem_whole (m : NumeralMantissa 16) : '.' ∉ m.whole :=
  not_mem_of_digits (Nat.le_refl 16) m.isDigit_whole (by decide)

/-- The text of a mantissa is `PointedDigits`. -/
theorem pointedDigits_text (m : NumeralMantissa 16) : PointedDigits m.text := by
  refine ⟨fun c hc => m.mem_text hc, ?_⟩
  have hwhole := List.count_eq_zero.mpr m.point_not_mem_whole
  have hfraction : '.' ∉ m.fraction.getD [] :=
    not_mem_of_digits (Nat.le_refl 16) m.isDigit_fraction (by decide)
  unfold text
  rw [List.count_append, hwhole, Nat.zero_add]
  cases hm : m.fraction with
  | none => exact Nat.zero_le 1
  | some fraction =>
      rw [hm, Option.getD_some] at hfraction
      rw [Option.elim_some, List.count_cons_self, List.count_eq_zero.mpr hfraction]

theorem ofPointed_text (m : NumeralMantissa 16) : Mantissa.ofPointed m.text = m.mantissa :=
  Mantissa.ofPointed_append m.point_not_mem_whole m.fraction

end NumeralMantissa

namespace HexScan

/-- `run` stops at a byte that belongs to no mantissa. -/
theorem run_stops {s : HexScan} (hdigit : startsWithDigit 16 rest = false)
    (hpoint : s.afterPoint = false → rest.head? ≠ some '.') : run rest.octets s = .ok s := by
  have hbyte : rest.octets.head?.any (isDigit 16) = false :=
    (Text.any_head?_octets (Text.asciiKind_isDigit 16) rest).trans hdigit
  have hmark : rest.octets.head? = some '.' ↔ rest.head? = some '.' :=
    Text.head?_octets_eq_some_iff (by decide)
  rw [ne_eq, ← hmark] at hpoint
  cases hoctets : rest.octets with
  | nil => rfl
  | cons o os =>
      rw [hoctets, List.head?_cons, Option.any_some] at hbyte
      rw [hoctets, List.head?_cons] at hpoint
      have hnot : ¬(o = '.' ∧ s.afterPoint = false) := fun h => hpoint h.2 (congrArg some h.1)
      rw [run, step, if_neg hnot, if_neg (Bool.eq_false_iff.mp hbyte)]
      rfl

/-- **`run` reads a mantissa and stops behind it.** -/
theorem run_mantissa {m : NumeralMantissa 16} (hends : MantissaEnds m rest)
    (hlength : m.text.length < 2 ^ 60) (hpos : pos < 2 ^ 63) :
    run (Text.octets (m.text ++ rest)) (start pos) =
      .ok ⟨pos + m.text.length, m.mantissa.accumulate, decide ('.' ∈ m.text)⟩ := by
  rw [Text.octets_append, m.ascii_text.octets_eq, run_pointed m.pointedDigits_text hlength hpos,
    m.ofPointed_text]
  apply run_stops hends.digit
  intro hbefore
  apply hends.point
  have hnot : '.' ∉ m.text := of_decide_eq_false hbefore
  unfold NumeralMantissa.text at hnot
  cases hm : m.fraction with
  | none => rfl
  | some fraction =>
      rw [hm] at hnot
      exact absurd (List.mem_append_right _ List.mem_cons_self) hnot

end HexScan

end NetKit
