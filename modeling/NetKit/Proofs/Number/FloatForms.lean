import NetKit.Proofs.Number.DecimalFloat

/-!
# Float forms — the four kinds of numeral, and that nothing else is read

`FloatForm.read?` tries words, then the hexadecimal form, then the decimal form. Here stands what there is
to be found: a `FloatNumeral` is a word in any case, `nan` perhaps with a tag behind it, or a hexadecimal or
a decimal numeral. Whatever `FloatForm.read?` takes from the front of a text is such a numeral, and the
form that it answers is the form of this numeral (`FloatNumeral.exists_of_readForm`). That it takes as much as it
can is not said here.

## Contents
- `stripWord?_eq_some_iff`, `exists_tag_skipTag`, `skipTag_tagText`: words and tags.
- `FloatNumeral`: numerals, what they denote, and whether they are out of range.
- `exists_mantissa_of_read`, `exists_scaled_of_read`: mantissas and exponents that are read.
- `FloatNumeral.exists_of_readForm`: forms that are read.
-/

namespace NetKit

/-! ## Words and tags -/

section Words

variable {word w t rest : Text}

/-- `stripWord?` takes `word` in any case, and goes on with `more`. -/
theorem stripWord?_append (h : w.map Char.toLower = word) (more t : Text) :
    stripWord? (word ++ more) (w ++ t) = stripWord? more t := by
  subst h
  induction w with
  | nil => rfl
  | cons c w ih => exact (if_pos rfl).trans ih

/-- **`stripWord?` succeeds exactly on texts that start with `word` in some case.** -/
theorem stripWord?_eq_some_iff : stripWord? word t = some rest ↔
    ∃ w, w.map Char.toLower = word ∧ t = w ++ rest := by
  constructor
  · intro h
    induction word generalizing t with
    | nil =>
        cases h
        exact ⟨[], rfl, rfl⟩
    | cons letter word ih =>
        cases t with
        | nil => cases h
        | cons c t =>
            unfold stripWord? at h
            split at h
            · next hc =>
                obtain ⟨w, hw, rfl⟩ := ih h
                exact ⟨c :: w, by rw [List.map_cons, hc, hw], rfl⟩
            · cases h
  · rintro ⟨w, hw, rfl⟩
    have hstrip := stripWord?_append hw [] rest
    rw [List.append_nil] at hstrip
    exact hstrip

/-- A tag in parentheses, or nothing. -/
def tagText : Option Text → Text
  | none => []
  | some tag => '(' :: (tag ++ [')'])

/-- `skipTag` skips a `tagText`. -/
theorem exists_tag_skipTag (t : Text) : ∃ tag : Option Text,
    (∀ c ∈ tag.getD [], isTagChar c = true) ∧ t = tagText tag ++ skipTag t := by
  have hnone : ∃ tag : Option Text, (∀ c ∈ tag.getD [], isTagChar c = true) ∧ t = tagText tag ++ t :=
    ⟨none, List.forall_mem_nil _, rfl⟩
  unfold skipTag
  split
  · next tail =>
      split
      · next rest hdrop =>
          refine ⟨some (tail.takeWhile isTagChar),
            fun c hc => List.all_eq_true.mp List.all_takeWhile c hc, ?_⟩
          have htail : tail.takeWhile isTagChar ++ ')' :: rest = tail := by
            rw [← hdrop, List.takeWhile_append_dropWhile]
          unfold tagText
          rw [List.cons_append, List.append_assoc, List.singleton_append, htail]
      · exact hnone
  · exact hnone

/-- `skipTag` skips every closed tag. -/
theorem skipTag_tagText {tag : Text} (htag : ∀ c ∈ tag, isTagChar c = true) (rest : Text) :
    skipTag (tagText (some tag) ++ rest) = rest := by
  have hdrop : (tag ++ ')' :: rest).dropWhile isTagChar = ')' :: rest := by
    rw [List.dropWhile_append_of_pos htag]
    exact List.dropWhile_cons_of_neg (by decide)
  unfold tagText skipTag
  rw [List.cons_append, List.append_assoc, List.singleton_append]
  simp only [hdrop]

/-- `skipTag` skips no open tag. -/
theorem skipTag_open {tail : Text} (hopen : (tail.dropWhile isTagChar).head? ≠ some ')') :
    skipTag ('(' :: tail) = '(' :: tail := by
  unfold skipTag
  simp only
  split
  · next hdrop =>
      rw [hdrop] at hopen
      exact absurd rfl hopen
  · rfl

end Words

/-! ## Numerals -/

/-- A floating-point numeral: a word in any case, `nan` perhaps with a tag, or a hexadecimal or a decimal
    numeral. -/
inductive FloatNumeral where
  | infinity (sign : NumeralSign) (word : Text)
      (hword : word.map Char.toLower = "infinity".toList ∨ word.map Char.toLower = "inf".toList)
  | nan (sign : NumeralSign) (word : Text) (tag : Option Text)
      (hword : word.map Char.toLower = "nan".toList) (htag : ∀ c ∈ tag.getD [], isTagChar c = true)
  | hex (n : HexNumeral)
  | decimal (n : DecimalNumeral)

namespace FloatNumeral

def sign : FloatNumeral → NumeralSign
  | infinity sign .. => sign
  | nan sign .. => sign
  | hex n => n.sign
  | decimal n => n.sign

/-- The text of a numeral without its sign. -/
def body : FloatNumeral → Text
  | infinity _ word _ => word
  | nan _ word tag .. => word ++ tagText tag
  | hex n => n.body
  | decimal n => n.body

def text (n : FloatNumeral) : Text := n.sign.text ++ n.body

/-- What a word says, or the rounding of the number, with the sign. -/
def value : FloatNumeral → Binary64
  | infinity sign .. => Binary64.infinity.withSign sign.isMinus
  | nan sign .. => Binary64.nan.withSign sign.isMinus
  | hex n => n.rounded.value.withSign n.negative
  | decimal n => n.rounded.value.withSign n.negative

/-- The test of `FloatForm.isOutOfRange` on the numeral; words pass it. -/
def isRejected : FloatNumeral → Bool
  | infinity .. => false
  | nan .. => false
  | hex n => n.isRejected
  | decimal n => n.isRejected

def isInfinity : FloatNumeral → Bool
  | infinity .. => true
  | nan .. => false
  | hex _ => false
  | decimal _ => false

def isNan : FloatNumeral → Bool
  | infinity .. => false
  | nan .. => true
  | hex _ => false
  | decimal _ => false

/-- The answer of `FloatForm.read?` for the numeral. -/
def form : FloatNumeral → FloatForm
  | infinity .. => .infinity
  | nan .. => .nan
  | hex n => .hex n.mantissa.mantissa (saturate n.exponentValue)
  | decimal n => .decimal n.mantissa.mantissa (saturate n.exponentValue)

theorem isOutOfRange_form (n : FloatNumeral) : n.form.isOutOfRange = n.isRejected := by
  cases n <;> rfl

theorem value_form (n : FloatNumeral) : n.form.value.withSign n.sign.isMinus = n.value := by
  cases n <;> rfl

/-- A letter of `infinity` or `nan` is no blank and no sign. -/
theorem isBlank_eq_false_of_toLower {c letter : Char} (hletter : letter = 'i' ∨ letter = 'n')
    (hc : c.toLower = letter) : isBlank c = false ∧ c ≠ '-' ∧ c ≠ '+' := by
  rcases eq_or_eq_toUpper_of_toLower_eq hc with rfl | rfl <;> rcases hletter with rfl | rfl <;> decide

/-- A word in any case has a first letter. -/
theorem exists_cons_of_map_toLower {word tail : Text} {letter : Char}
    (h : word.map Char.toLower = letter :: tail) : ∃ c w, word = c :: w ∧ c.toLower = letter := by
  obtain ⟨c, w, hword, hc, -⟩ := List.map_eq_cons_iff.mp h
  exact ⟨c, w, hword, hc⟩

/-- `body` starts with no blank and no sign. -/
theorem exists_body_cons (n : FloatNumeral) :
    ∃ c t, n.body = c :: t ∧ isBlank c = false ∧ c ≠ '-' ∧ c ≠ '+' := by
  cases n with
  | infinity sign word hword =>
      obtain ⟨c, w, rfl, hc⟩ : ∃ c w, word = c :: w ∧ c.toLower = 'i' :=
        hword.elim exists_cons_of_map_toLower exists_cons_of_map_toLower
      exact ⟨c, w, rfl, isBlank_eq_false_of_toLower (.inl rfl) hc⟩
  | nan sign word tag hword htag =>
      obtain ⟨c, w, rfl, hc⟩ := exists_cons_of_map_toLower hword
      exact ⟨c, w ++ tagText tag, rfl, isBlank_eq_false_of_toLower (.inr rfl) hc⟩
  | hex n => exact ⟨'0', _, rfl, by decide⟩
  | decimal n =>
      obtain ⟨c, t, hbody, hblank, hsign, -⟩ := n.exists_body_cons
      exact ⟨c, t, hbody, hblank, hsign⟩

end FloatNumeral

/-! ## Whatever is read is a numeral -/

section Sound

variable {radix : Nat} {marker : Char} {t rest : Text}

/-- `Mantissa.read?` answers a `NumeralMantissa` that stands there. -/
theorem exists_mantissa_of_read {m : Mantissa} (h : Mantissa.read? radix t = some (m, rest)) :
    ∃ n : NumeralMantissa radix, t = n.text ++ rest ∧ n.mantissa = m := by
  unfold Mantissa.read? at h
  split at h
  · next whole tail hspan =>
      obtain ⟨htext, hwhole, -⟩ := spanDigits_eq_iff.mp hspan
      split at h
      next fraction rest' hspan' =>
        obtain ⟨htail, hfraction, -⟩ := spanDigits_eq_iff.mp hspan'
        split at h
        · cases h
        · next hsome =>
            cases h
            -- a point alone is no mantissa
            have hne : whole ++ fraction ≠ [] := by
              intro hnil
              obtain ⟨rfl, rfl⟩ := List.append_eq_nil_iff.mp hnil
              exact hsome rfl
            refine ⟨⟨whole, some fraction, hwhole, hfraction, hne⟩, ?_, rfl⟩
            unfold NumeralMantissa.text
            rw [htext, htail, Option.elim_some, List.append_assoc, List.cons_append]
  · next whole rest' hpoint hspan =>
      obtain ⟨htext, hwhole, -⟩ := spanDigits_eq_iff.mp hspan
      split at h
      · cases h
      · next hsome =>
          cases h
          have hne : whole ++ [] ≠ [] := by
            rw [List.append_nil]
            rintro rfl
            exact hsome rfl
          refine ⟨⟨whole, none, hwhole, List.forall_mem_nil _, hne⟩, ?_, rfl⟩
          unfold NumeralMantissa.text
          rw [htext, Option.elim_none, List.append_nil]

/-- A `NumeralExponent` stands there, or `readExponent` takes nothing. -/
theorem exists_exponent_or_read (marker : Char) (t : Text) :
    (∃ (x : NumeralExponent marker) (rest : Text), t = x.text ++ rest ∧
      startsWithDigit 10 rest = false) ∨ readExponent marker t = (0, t) := by
  cases t with
  | nil => exact .inr rfl
  | cons c tail =>
      by_cases hc : c.toLower = marker
      · obtain ⟨sign, htail, -⟩ := exists_sign_takeSign tail
        cases hspan : spanDigits 10 (takeSign tail).2 with
        | mk ds rest =>
            cases ds with
            | nil =>
                right
                unfold readExponent
                simp only [hc, if_true, hspan]
            | cons d ds =>
                left
                obtain ⟨hbody, hdigits, hrest⟩ := spanDigits_eq_iff.mp hspan
                refine ⟨⟨c, sign, d :: ds, eq_or_eq_toUpper_of_toLower_eq hc, hdigits,
                  List.cons_ne_nil _ _⟩, rest, ?_, hrest⟩
                unfold NumeralExponent.text
                rw [List.cons_append, List.append_assoc, ← hbody, ← htail]
      · exact .inr (if_neg hc)

/-- **A mantissa with an exponent is read only where they are written.** -/
theorem exists_scaled_of_read (hmarker : ExponentMarker radix marker) {m : Mantissa} {tail : Text}
    {e : Int} (hmantissa : Mantissa.read? radix t = some (m, tail))
    (hexponent : readExponent marker tail = (e, rest)) :
    ∃ (n : NumeralMantissa radix) (x : Option (NumeralExponent marker)),
      t = n.text ++ (x.elim [] NumeralExponent.text ++ rest) ∧
      n.mantissa = m ∧ saturate (x.elim 0 NumeralExponent.value) = e := by
  obtain ⟨n, htext, hvalue⟩ := exists_mantissa_of_read hmantissa
  rcases exists_exponent_or_read marker tail with ⟨x, rest', rfl, hrest⟩ | hnone
  · rw [x.readExponent_text hmarker.lower hmarker.upper hrest] at hexponent
    cases hexponent
    exact ⟨n, some x, htext, hvalue, rfl⟩
  · rw [hnone] at hexponent
    cases hexponent
    exact ⟨n, none, htext, hvalue, rfl⟩

theorem HexNumeral.exists_of_read {form : FloatForm} (sign : NumeralSign)
    (h : readHex? t = some (form, rest)) : ∃ n : HexNumeral, n.sign = sign ∧
      t = n.body ++ rest ∧ (FloatNumeral.hex n).form = form := by
  unfold readHex? at h
  split at h
  · next mark tail =>
      split at h
      · next hmark =>
          obtain ⟨⟨m, tail'⟩, hmantissa, hform⟩ := Option.map_eq_some_iff.mp h
          cases hexponent : readExponent 'p' tail' with
          | mk e rest' =>
              simp only [hexponent] at hform
              cases hform
              obtain ⟨n, x, rfl, rfl, rfl⟩ :=
                exists_scaled_of_read exponentMarker_p hmantissa hexponent
              exact ⟨⟨sign, mark, n, x, by simpa using hmark⟩, rfl, by rw [body_append]; rfl, rfl⟩
      · cases h
  · cases h

theorem DecimalNumeral.exists_of_read {form : FloatForm} (sign : NumeralSign)
    (h : readDecimal? t = some (form, rest)) : ∃ n : DecimalNumeral, n.sign = sign ∧
      t = n.body ++ rest ∧ (FloatNumeral.decimal n).form = form := by
  obtain ⟨⟨m, tail⟩, hmantissa, hform⟩ := Option.map_eq_some_iff.mp h
  cases hexponent : readExponent 'e' tail with
  | mk e rest' =>
      simp only [hexponent] at hform
      cases hform
      obtain ⟨n, x, rfl, rfl, rfl⟩ := exists_scaled_of_read exponentMarker_e hmantissa hexponent
      exact ⟨⟨sign, n, x⟩, rfl, by rw [body_append]; rfl, rfl⟩

theorem FloatNumeral.exists_of_readWord {form : FloatForm} (sign : NumeralSign)
    (h : readWord? t = some (form, rest)) : ∃ n : FloatNumeral, n.sign = sign ∧
      t = n.body ++ rest ∧ n.form = form := by
  unfold readWord? at h
  split at h
  · next rest' hstrip =>
      cases h
      obtain ⟨w, hw, rfl⟩ := stripWord?_eq_some_iff.mp hstrip
      exact ⟨.infinity sign w (.inl hw), rfl, rfl, rfl⟩
  · next rest' _ hstrip =>
      cases h
      obtain ⟨w, hw, rfl⟩ := stripWord?_eq_some_iff.mp hstrip
      exact ⟨.infinity sign w (.inr hw), rfl, rfl, rfl⟩
  · next rest' _ _ hstrip =>
      cases h
      obtain ⟨w, hw, rfl⟩ := stripWord?_eq_some_iff.mp hstrip
      obtain ⟨tag, htag, hrest⟩ := exists_tag_skipTag rest'
      refine ⟨.nan sign w tag hw htag, rfl, ?_, rfl⟩
      show w ++ rest' = (w ++ tagText tag) ++ skipTag rest'
      rw [List.append_assoc, ← hrest]
  · cases h

/-- **`FloatForm.read?` answers a `FloatNumeral` that stands there.** -/
theorem FloatNumeral.exists_of_readForm {form : FloatForm} (sign : NumeralSign)
    (h : FloatForm.read? t = some (form, rest)) : ∃ n : FloatNumeral, n.sign = sign ∧
      t = n.body ++ rest ∧ n.form = form := by
  unfold FloatForm.read? at h
  rcases Option.or_eq_some_iff.mp h with hword | ⟨-, h⟩
  · exact exists_of_readWord sign hword
  · rcases Option.or_eq_some_iff.mp h with hhex | ⟨-, hdecimal⟩
    · obtain ⟨n, hn⟩ := HexNumeral.exists_of_read sign hhex
      exact ⟨.hex n, hn⟩
    · obtain ⟨n, hn⟩ := DecimalNumeral.exists_of_read sign hdecimal
      exact ⟨.decimal n, hn⟩

end Sound

end NetKit
