import NetKit.Number.FloatLiteral
import NetKit.Proofs.Number.DecimalMantissa

/-!
# Floating-point numerals — the written forms, and how they are read

`FloatLiteral.read?` takes what it can from the front of a text. This file goes the other way: it says
what a numeral is, part by part, as data that can be written (`text`) and that denotes something
(`value`), and shows that every part is read back from its text, whatever text follows that does not go
on with the part (`ScaleEnds`). Writing and denoting share no code with the reader; in particular
nothing is confined or rounded here.

## Contents
- `NumeralMantissa`, `NumeralExponent`: the parts after the sign.
- `NumeralMantissa.read?_text`, `NumeralExponent.readExponent_text`: reading a part back.
- `ScaleEnds`, `read_scaled`: a mantissa with its exponent, and what does not go on with them.
- `FloatLiteral.read?_of_form`: blanks and a sign before a form.
- `HexNumeral`, `HexNumeral.read?_text`: hexadecimal numerals.
- `DecimalNumeral`, `DecimalNumeral.read?_text`: decimal numerals.
-/

namespace NetKit

/-! ## Mantissas -/

/-- Digits with at most one point among or around them, and at least one digit. -/
structure NumeralMantissa (radix : Nat) where
  whole : Text
  fraction : Option Text
  isDigit_whole : ∀ c ∈ whole, isDigit radix c = true
  isDigit_fraction : ∀ c ∈ fraction.getD [], isDigit radix c = true
  digits_ne_nil : whole ++ fraction.getD [] ≠ []

namespace NumeralMantissa

variable {radix : Nat}

def text (m : NumeralMantissa radix) : Text :=
  m.whole ++ m.fraction.elim [] fun fraction => '.' :: fraction

theorem mem_text {m : NumeralMantissa radix} {c : Char} (hc : c ∈ m.text) :
    isDigit radix c = true ∨ c = '.' := by
  rcases List.mem_append.mp hc with hwhole | hfraction
  · exact .inl (m.isDigit_whole c hwhole)
  · cases hm : m.fraction with
    | none => rw [hm] at hfraction; cases hfraction
    | some fraction =>
        rw [hm] at hfraction
        rcases List.mem_cons.mp hfraction with hpoint | hdigit
        · exact .inr hpoint
        · exact .inl (m.isDigit_fraction c (hm ▸ hdigit))

/-- The digits on both sides of the point, whether it is written or not. -/
def mantissa (m : NumeralMantissa radix) : Mantissa := ⟨m.whole, m.fraction.getD []⟩

theorem isDigit_digits (m : NumeralMantissa radix) :
    ∀ c ∈ m.mantissa.digits, isDigit radix c = true :=
  List.forall_mem_append.mpr ⟨m.isDigit_whole, m.isDigit_fraction⟩

theorem length_digits_le (m : NumeralMantissa radix) :
    m.mantissa.digits.length ≤ m.text.length := by
  unfold Mantissa.digits mantissa text
  rw [List.length_append, List.length_append]
  cases m.fraction with
  | none => exact Nat.le_refl _
  | some fraction => exact Nat.add_le_add_left (Nat.le_succ _) _

/-- The point is no digit of any radix. -/
theorem startsWithDigit_point (hradix : radix ≤ 16) (t : Text) :
    startsWithDigit radix ('.' :: t) = false := by
  rw [startsWithDigit_cons]
  apply Bool.eq_false_iff.mpr
  intro hpoint
  exact absurd (isDigit_mono hradix hpoint) (by decide)

/-- **`Mantissa.read?` inverts `text`**, unless more digits follow, or a point that `m` lacks. -/
theorem read?_text (m : NumeralMantissa radix) (hradix : radix ≤ 16) {rest : Text}
    (hdigit : startsWithDigit radix rest = false)
    (hpoint : m.fraction = none → rest.head? ≠ some '.') :
    Mantissa.read? radix (m.text ++ rest) = some (m.mantissa, rest) := by
  obtain ⟨whole, fraction, hwhole, hfraction, hsome⟩ := m
  unfold Mantissa.read? text mantissa
  cases fraction with
  | none =>
      have hne : whole.isEmpty = false := by
        cases whole with
        | nil => exact absurd rfl hsome
        | cons c whole => rfl
      rw [Option.elim_none, List.append_nil, spanDigits_append_of_digits hwhole hdigit]
      split
      · next heq =>
          -- the text after the digits cannot start with a point
          cases heq
          exact absurd rfl (hpoint rfl)
      · next heq =>
          cases heq
          rw [hne]
          rfl
  | some fraction =>
      have hne : (whole.isEmpty && fraction.isEmpty) = false := by
        cases whole with
        | nil =>
            cases fraction with
            | nil => exact absurd rfl hsome
            | cons c fraction => rfl
        | cons c whole => rfl
      have hspan : spanDigits radix (fraction ++ rest) = (fraction, rest) :=
        spanDigits_append_of_digits hfraction hdigit
      rw [Option.elim_some, List.append_assoc, List.cons_append,
        spanDigits_append_of_digits hwhole (startsWithDigit_point hradix _)]
      simp only [hspan, hne, Bool.false_eq_true, if_false]
      rfl

end NumeralMantissa

/-! ## Exponents -/

/-- `marker` in either case, a sign or none, and at least one decimal digit. -/
structure NumeralExponent (marker : Char) where
  letter : Char
  sign : NumeralSign
  digits : Text
  letter_eq : letter = marker ∨ letter = marker.toUpper
  isDigit_digits : ∀ c ∈ digits, isDigit 10 c = true
  digits_ne_nil : digits ≠ []

namespace NumeralExponent

variable {marker : Char}

def text (x : NumeralExponent marker) : Text := x.letter :: (x.sign.text ++ x.digits)

theorem mem_text {x : NumeralExponent marker} {c : Char} (hc : c ∈ x.text) :
    (c = marker ∨ c = marker.toUpper) ∨ (c = '+' ∨ c = '-') ∨ isDigit 10 c = true := by
  rcases List.mem_cons.mp hc with rfl | hc
  · exact .inl x.letter_eq
  · rcases List.mem_append.mp hc with hsign | hdigit
    · exact .inr (.inl (NumeralSign.mem_text hsign))
    · exact .inr (.inr (x.isDigit_digits c hdigit))

/-- The exponent that `x` denotes, without a bound. -/
def value (x : NumeralExponent marker) : Int :=
  if x.sign.isMinus then -(digitsValue 10 x.digits : Int) else digitsValue 10 x.digits

/-- **`readExponent` inverts `text`** up to `saturate`, unless more digits follow. -/
theorem readExponent_text (x : NumeralExponent marker) (hlower : marker.toLower = marker)
    (hupper : marker.toUpper.toLower = marker) {rest : Text}
    (hrest : startsWithDigit 10 rest = false) :
    readExponent marker (x.text ++ rest) = (saturate x.value, rest) := by
  obtain ⟨letter, sign, digits, hletter, hdigits, hne⟩ := x
  have hmarker : letter.toLower = marker := by
    rcases hletter with rfl | rfl
    · exact hlower
    · exact hupper
  cases digits with
  | nil => exact absurd rfl hne
  | cons c digits =>
      have hc := isDigit_mono (by decide : 10 ≤ 16) (hdigits c (List.mem_cons_self ..))
      have hminus : c ≠ '-' := by rintro rfl; exact absurd hc (by decide)
      have hplus : c ≠ '+' := by rintro rfl; exact absurd hc (by decide)
      have hspan : spanDigits 10 (c :: (digits ++ rest)) = (c :: digits, rest) :=
        spanDigits_append_of_digits hdigits hrest
      unfold readExponent text value
      simp only [List.cons_append, List.append_assoc, hmarker, if_true,
        sign.takeSign_text hminus hplus, hspan, saturatedValue_eq_min]
      -- the reader confines the digits and then negates
      unfold saturate
      cases sign.isMinus with
      | false => simp only [Bool.false_eq_true, if_false]; congr 1; omega
      | true => simp only [if_true]; congr 1; omega

end NumeralExponent

/-! ## What may follow -/

section Blanks

variable {after : Text}

theorem startsWithDigit_blanks {radix : Nat} (hradix : radix ≤ 16)
    (hafter : ∀ c ∈ after, isBlank c = true) : startsWithDigit radix after = false := by
  cases after with
  | nil => rfl
  | cons c after =>
      rw [startsWithDigit_cons]
      apply Bool.eq_false_iff.mpr
      intro hdigit
      have hblank := hafter c (List.mem_cons_self ..)
      rw [isBlank_eq_false_of_isDigit (isDigit_mono hradix hdigit)] at hblank
      cases hblank

theorem head_blanks_ne {mark : Char} (hmark : isBlank mark = false)
    (hafter : ∀ c ∈ after, isBlank c = true) : after.head? ≠ some mark := by
  intro hhead
  rw [hafter mark (List.mem_of_head? hhead)] at hmark
  cases hmark

theorem isBlank_iff {c : Char} : isBlank c = true ↔
    c = ' ' ∨ c = '\t' ∨ c = '\n' ∨ c = '\x0b' ∨ c = '\x0c' ∨ c = '\r' := by
  simp only [isBlank, Bool.or_eq_true, decide_eq_true_eq, or_assoc]

/-- `Char.toLower` fixes blanks. -/
theorem toLower_of_isBlank {c : Char} (h : isBlank c = true) : c.toLower = c := by
  rcases isBlank_iff.mp h with rfl | rfl | rfl | rfl | rfl | rfl <;> decide

/-- `readExponent` takes nothing from blanks. -/
theorem readExponent_blanks {marker : Char} (hmarker : isBlank marker = false)
    (hafter : ∀ c ∈ after, isBlank c = true) : readExponent marker after = (0, after) := by
  cases after with
  | nil => rfl
  | cons c after =>
      have hblank := hafter c (List.mem_cons_self ..)
      have hne : c.toLower ≠ marker := by
        rw [toLower_of_isBlank hblank]
        rintro rfl
        rw [hblank] at hmarker
        cases hmarker
      exact if_neg hne

end Blanks

/-! ## Mantissas with exponents -/

/-- A letter that can mark an exponent, as it is no digit of `radix`. -/
structure ExponentMarker (radix : Nat) (marker : Char) : Prop where
  radix_le : radix ≤ 16
  lower : marker.toLower = marker
  upper : marker.toUpper.toLower = marker
  isDigit_eq_false : isDigit radix marker = false ∧ isDigit radix marker.toUpper = false
  ne_point : marker ≠ '.' ∧ marker.toUpper ≠ '.'
  isBlank_eq_false : isBlank marker = false

theorem exponentMarker_p : ExponentMarker 16 'p' := by constructor <;> decide

theorem exponentMarker_e : ExponentMarker 10 'e' := by constructor <;> decide

section Scaled

variable {radix : Nat} {marker : Char}

/-- `rest` continues neither the mantissa nor the exponent. -/
def ScaleEnds (m : NumeralMantissa radix) : Option (NumeralExponent marker) → Text → Prop
  | none, rest => startsWithDigit radix rest = false ∧
      (m.fraction = none → rest.head? ≠ some '.') ∧ readExponent marker rest = (0, rest)
  | some _, rest => startsWithDigit 10 rest = false

/-- Blanks satisfy `ScaleEnds`. -/
theorem scaleEnds_blanks (hmarker : ExponentMarker radix marker) (m : NumeralMantissa radix)
    (x : Option (NumeralExponent marker)) {after : Text} (hafter : ∀ c ∈ after, isBlank c = true) :
    ScaleEnds m x after := by
  cases x with
  | none =>
      exact ⟨startsWithDigit_blanks hmarker.radix_le hafter, fun _ => head_blanks_ne (by decide) hafter,
        readExponent_blanks hmarker.isBlank_eq_false hafter⟩
  | some x => exact startsWithDigit_blanks (by decide) hafter

/-- **A mantissa and its exponent are read back** where `ScaleEnds` holds. -/
theorem read_scaled (hmarker : ExponentMarker radix marker) {m : NumeralMantissa radix}
    {x : Option (NumeralExponent marker)} {rest : Text} (hends : ScaleEnds m x rest) :
    Mantissa.read? radix (m.text ++ (x.elim [] NumeralExponent.text ++ rest)) =
        some (m.mantissa, x.elim [] NumeralExponent.text ++ rest) ∧
      readExponent marker (x.elim [] NumeralExponent.text ++ rest) =
        (saturate (x.elim 0 NumeralExponent.value), rest) := by
  cases x with
  | none =>
      obtain ⟨hdigit, hpoint, hexponent⟩ := hends
      exact ⟨m.read?_text hmarker.radix_le hdigit hpoint, hexponent⟩
  | some x =>
      have hletter : isDigit radix x.letter = false ∧ x.letter ≠ '.' := by
        rcases x.letter_eq with h | h
        · rw [h]; exact ⟨hmarker.isDigit_eq_false.1, hmarker.ne_point.1⟩
        · rw [h]; exact ⟨hmarker.isDigit_eq_false.2, hmarker.ne_point.2⟩
      exact ⟨m.read?_text hmarker.radix_le hletter.1 (fun _ hhead => hletter.2 (Option.some.inj hhead)),
        x.readExponent_text hmarker.lower hmarker.upper hends⟩

end Scaled

/-! ## Blanks and signs before a form -/

/-- `FloatLiteral.read?` reads a form behind blanks and a sign. -/
theorem FloatLiteral.read?_of_form {blanks tail rest : Text} {sign : NumeralSign} {c : Char}
    {form : FloatForm} (hblanks : ∀ c ∈ blanks, isBlank c = true) (hblank : isBlank c = false)
    (hsign : c ≠ '-' ∧ c ≠ '+') (hform : FloatForm.read? (c :: tail) = some (form, rest)) :
    FloatLiteral.read? (blanks ++ (sign.text ++ c :: tail)) = some ⟨sign.isMinus, form, rest⟩ := by
  unfold FloatLiteral.read?
  rw [skipBlanks_append hblanks, sign.skipBlanks_text hblank, sign.takeSign_text hsign.1 hsign.2]
  simp only [hform, Option.map_some]

/-! ## Hexadecimal numerals -/

/-- A sign or none, the mark of the radix, a mantissa, and an exponent of two or none. -/
structure HexNumeral where
  sign : NumeralSign
  mark : Char
  mantissa : NumeralMantissa 16
  exponent : Option (NumeralExponent 'p')
  mark_eq : mark = 'x' ∨ mark = 'X'

namespace HexNumeral

variable (n : HexNumeral)

def exponentText : Text := n.exponent.elim [] NumeralExponent.text

def text : Text := n.sign.text ++ '0' :: n.mark :: (n.mantissa.text ++ n.exponentText)

def negative : Bool := n.sign.isMinus

def exponentValue : Int := n.exponent.elim 0 NumeralExponent.value

/-- The number that `n` denotes, without its sign. -/
def value : ℚ := n.mantissa.mantissa.hexValue * 2 ^ n.exponentValue

variable {after : Text}

/-- `n.text` without the sign. -/
def body : Text := '0' :: n.mark :: (n.mantissa.text ++ n.exponentText)

theorem body_append (rest : Text) :
    n.body ++ rest = '0' :: n.mark :: (n.mantissa.text ++ (n.exponentText ++ rest)) := by
  unfold body
  rw [List.cons_append, List.cons_append, List.append_assoc]

/-- `FloatForm.read?` gives a hexadecimal numeral back where `ScaleEnds` holds. -/
theorem readForm_body {rest : Text} (hends : ScaleEnds n.mantissa n.exponent rest) :
    FloatForm.read? (n.body ++ rest) =
      some (.hex n.mantissa.mantissa (saturate n.exponentValue), rest) := by
  obtain ⟨hmantissa, hexponent⟩ := read_scaled exponentMarker_p hends
  have hmark : (n.mark = 'x' || n.mark = 'X') = true := by
    simpa using n.mark_eq
  rw [n.body_append]
  unfold FloatForm.read? readHex? exponentText exponentValue
  -- no word starts with a zero
  have hword : ∀ t, readWord? ('0' :: t) = none := fun _ => rfl
  simp only [hword, hmark, if_true, hmantissa, Option.map_some, hexponent, Option.none_or,
    Option.some_or]

/-- **`FloatLiteral.read?` gives a hexadecimal numeral between blanks back**, with its exponent confined. -/
theorem read?_text {before : Text} (hbefore : ∀ c ∈ before, isBlank c = true)
    (hafter : ∀ c ∈ after, isBlank c = true) :
    FloatLiteral.read? (before ++ (n.text ++ after)) =
      some ⟨n.negative, .hex n.mantissa.mantissa (saturate n.exponentValue), after⟩ := by
  have htext : n.text ++ after = n.sign.text ++ (n.body ++ after) := List.append_assoc ..
  rw [htext]
  exact FloatLiteral.read?_of_form hbefore (by decide) (by decide)
    (n.readForm_body (scaleEnds_blanks exponentMarker_p _ _ hafter))

end HexNumeral

/-! ## Decimal numerals -/

/-- A sign or none, a mantissa, and an exponent of ten or none. -/
structure DecimalNumeral where
  sign : NumeralSign
  mantissa : NumeralMantissa 10
  exponent : Option (NumeralExponent 'e')

/-- `readWord?` fails unless `c` is the first letter of a word. -/
theorem readWord?_eq_none {c : Char} {t : Text} (hi : c.toLower ≠ 'i') (hn : c.toLower ≠ 'n') :
    readWord? (c :: t) = none := by
  have hword : ∀ {w : Char} (word : Text), c.toLower ≠ w → stripWord? (w :: word) (c :: t) = none :=
    fun word hne => if_neg hne
  have hinfinity := hword "nfinity".toList hi
  have hinf := hword "nf".toList hi
  have hnan := hword "an".toList hn
  unfold readWord?
  simp only [show "infinity".toList = 'i' :: "nfinity".toList from rfl,
    show "inf".toList = 'i' :: "nf".toList from rfl, show "nan".toList = 'n' :: "an".toList from rfl,
    hinfinity, hinf, hnan]

/-- `readHex?` fails without an `x`. -/
theorem readHex?_eq_none {t : Text} (hlower : 'x' ∉ t) (hupper : 'X' ∉ t) : readHex? t = none := by
  unfold readHex?
  split
  · next x tail =>
      have hmem : x ∈ '0' :: x :: tail := List.mem_cons_of_mem _ (List.mem_cons_self ..)
      have hmark : ¬ (x = 'x' || x = 'X') = true := by
        rw [Bool.or_eq_true, decide_eq_true_eq, decide_eq_true_eq]
        rintro (rfl | rfl)
        · exact hlower hmem
        · exact hupper hmem
      rw [if_neg hmark]
  · rfl

namespace DecimalNumeral

variable (n : DecimalNumeral)

def exponentText : Text := n.exponent.elim [] NumeralExponent.text

def text : Text := n.sign.text ++ (n.mantissa.text ++ n.exponentText)

def negative : Bool := n.sign.isMinus

def exponentValue : Int := n.exponent.elim 0 NumeralExponent.value

/-- The number that `n` denotes, without its sign. -/
def value : ℚ := n.mantissa.mantissa.decimalValue * 10 ^ n.exponentValue

variable {after : Text}

/-- A decimal numeral has no `x`. -/
theorem mark_not_mem {mark : Char} (hmark : mark = 'x' ∨ mark = 'X')
    (hafter : ∀ c ∈ after, isBlank c = true) :
    mark ∉ n.mantissa.text ++ (n.exponentText ++ after) := by
  have hdigit : isDigit 10 mark = false := by rcases hmark with rfl | rfl <;> rfl
  intro hmem
  simp only [List.mem_append] at hmem
  rcases hmem with hmantissa | hexponent | hblank
  · rcases NumeralMantissa.mem_text hmantissa with h | rfl
    · rw [hdigit] at h; cases h
    · exact absurd hmark (by decide)
  · unfold exponentText at hexponent
    cases hx : n.exponent with
    | none => rw [hx] at hexponent; cases hexponent
    | some x =>
        rw [hx] at hexponent
        rcases NumeralExponent.mem_text hexponent with (rfl | rfl) | (rfl | rfl) | h
        iterate 4 exact absurd hmark (by decide)
        rw [hdigit] at h; cases h
  · have hnone : isBlank mark = false := by rcases hmark with rfl | rfl <;> rfl
    rw [hafter mark hblank] at hnone
    cases hnone

/-- A decimal mantissa starts with a digit or its point: with no blank, no sign and no letter. -/
theorem exists_text_cons (m : NumeralMantissa 10) :
    ∃ c t, m.text = c :: t ∧ isBlank c = false ∧ (c ≠ '-' ∧ c ≠ '+') ∧
      c.toLower ≠ 'i' ∧ c.toLower ≠ 'n' := by
  cases htext : m.text with
  | nil =>
      exfalso
      apply m.digits_ne_nil
      have hnil := m.length_digits_le
      rw [htext] at hnil
      exact List.length_eq_zero_iff.mp (Nat.le_zero.mp hnil)
  | cons c t =>
      refine ⟨c, t, rfl, ?_⟩
      rcases NumeralMantissa.mem_text (htext ▸ List.mem_cons_self ..) with hc | rfl
      · have hne : ∀ {mark : Char}, isDigit 10 mark = false → c ≠ mark := by
          rintro mark hmark rfl
          rw [hc] at hmark
          cases hmark
        rw [toLower_of_isDigit hc]
        exact ⟨isBlank_eq_false_of_isDigit (isDigit_mono (by decide) hc), ⟨hne rfl, hne rfl⟩, hne rfl,
          hne rfl⟩
      · decide

/-- `n.text` without the sign. -/
def body : Text := n.mantissa.text ++ n.exponentText

theorem body_append (rest : Text) :
    n.body ++ rest = n.mantissa.text ++ (n.exponentText ++ rest) :=
  List.append_assoc ..

/-- `body` starts with no blank, no sign and no letter. -/
theorem exists_body_cons : ∃ c t, n.body = c :: t ∧ isBlank c = false ∧ (c ≠ '-' ∧ c ≠ '+') ∧
    c.toLower ≠ 'i' ∧ c.toLower ≠ 'n' := by
  obtain ⟨c, t, htext, hc⟩ := exists_text_cons n.mantissa
  refine ⟨c, t ++ n.exponentText, ?_, hc⟩
  unfold body
  rw [htext, List.cons_append]

/-- `FloatForm.read?` gives a decimal numeral back where `ScaleEnds` holds, unless it is taken for
    hexadecimal. -/
theorem readForm_body {rest : Text} (hends : ScaleEnds n.mantissa n.exponent rest)
    (hhex : readHex? (n.body ++ rest) = none) : FloatForm.read? (n.body ++ rest) =
      some (.decimal n.mantissa.mantissa (saturate n.exponentValue), rest) := by
  obtain ⟨hmantissa, hexponent⟩ := read_scaled exponentMarker_e hends
  have hdecimal : readDecimal? (n.body ++ rest) =
      some (.decimal n.mantissa.mantissa (saturate n.exponentValue), rest) := by
    rw [n.body_append]
    unfold readDecimal? exponentText exponentValue
    simp only [hmantissa, Option.map_some, hexponent]
  obtain ⟨c, t, hbody, -, -, hi, hn⟩ := n.exists_body_cons
  have hword : readWord? (n.body ++ rest) = none := by
    rw [hbody, List.cons_append]
    exact readWord?_eq_none hi hn
  unfold FloatForm.read?
  rw [hword, hhex, hdecimal]
  rfl

/-- **`FloatLiteral.read?` gives a decimal numeral between blanks back**, with its exponent confined. -/
theorem read?_text {before : Text} (hbefore : ∀ c ∈ before, isBlank c = true)
    (hafter : ∀ c ∈ after, isBlank c = true) :
    FloatLiteral.read? (before ++ (n.text ++ after)) =
      some ⟨n.negative, .decimal n.mantissa.mantissa (saturate n.exponentValue), after⟩ := by
  have hhex : readHex? (n.body ++ after) = none := by
    rw [n.body_append]
    exact readHex?_eq_none (n.mark_not_mem (.inl rfl) hafter) (n.mark_not_mem (.inr rfl) hafter)
  have hform := n.readForm_body (scaleEnds_blanks exponentMarker_e _ _ hafter) hhex
  have htext : n.text ++ after = n.sign.text ++ (n.body ++ after) := List.append_assoc ..
  obtain ⟨c, t, hbody, hblank, hsign, -⟩ := n.exists_body_cons
  rw [hbody] at hform
  rw [htext, hbody]
  exact FloatLiteral.read?_of_form hbefore hblank hsign hform

end DecimalNumeral

end NetKit
