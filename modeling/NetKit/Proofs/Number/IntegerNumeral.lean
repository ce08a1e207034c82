import NetKit.Proofs.Numeral

/-!
# Integer numerals — the longest one that a text starts with is what is read

`IntegerLiteral.read?` chooses a radix by looking at two or three characters, and then takes digits for
as long as there are any. What that amounts to is said here without looking ahead: a numeral is a mark
and digits (`IntegerDigits`), a text starts with a numeral after blanks and a sign (`IntegerHeads`), and
of all numerals that it starts with the longest one counts (`LongestInteger`). So `0x` without a digit is
zero, not because anything looks for a digit, but because `0x` is no numeral and `0` is one.

The longest numeral settles everything. Its magnitude is a natural number without a bound; whether the
word type can hold it is asked first, what follows it second (`strictAnswer`).

## Contents
- `IntegerDigits`, `IntegerHeads`, `LongestInteger`: numerals at the start of a text.
- `readInteger_of_digits`, `exists_heads_of_readInteger`, `readInteger_of_longest`: what is read.
- `strictAnswer`, `parseInteger_eq_strictAnswer`: both readers on every text.
- `IntegerDenotes`, `parseUInt64_eq_ok_iff`: texts that are read as an unsigned number.
- `isNumberChar_of_parseUInt64`: such a text has none of the marks that divide an address.
-/

namespace NetKit

/-! ## Numerals -/

/-- The digits of an integer with the mark of their radix, and the magnitude that they denote. -/
inductive IntegerDigits : Text → Nat → Prop where
  | hex {mark : Char} {ds : Text} (hmark : mark = 'x' ∨ mark = 'X')
      (hdigits : ∀ c ∈ ds, isDigit 16 c = true) (hsome : ds ≠ []) :
      IntegerDigits ('0' :: mark :: ds) (digitsValue 16 ds)
  | octal {ds : Text} (hdigits : ∀ c ∈ ds, isDigit 8 c = true) :
      IntegerDigits ('0' :: ds) (digitsValue 8 ('0' :: ds))
  | decimal {first : Char} {ds : Text} (hfirst : first ≠ '0')
      (hdigits : ∀ c ∈ first :: ds, isDigit 10 c = true) :
      IntegerDigits (first :: ds) (digitsValue 10 (first :: ds))

/-- `t` is blanks, `sign`, the digits of `magnitude` and `rest`. -/
def IntegerHeads (t : Text) (sign : NumeralSign) (magnitude : Nat) (rest : Text) : Prop :=
  ∃ blanks digits, (∀ c ∈ blanks, isBlank c = true) ∧ IntegerDigits digits magnitude ∧
    t = blanks ++ (sign.text ++ (digits ++ rest))

/-- The `IntegerHeads` of `t` with the shortest `rest`. -/
structure LongestInteger (t : Text) (sign : NumeralSign) (magnitude : Nat) (rest : Text) : Prop where
  heads : IntegerHeads t sign magnitude rest
  longest : ∀ sign' magnitude' rest', IntegerHeads t sign' magnitude' rest' →
    rest.length ≤ rest'.length

/-- `magnitude` with the sign. -/
def NumeralSign.apply (sign : NumeralSign) (magnitude : Nat) : Int :=
  if sign.isMinus then -(magnitude : Int) else magnitude

theorem NumeralSign.apply_minus (magnitude : Nat) :
    NumeralSign.minus.apply magnitude = -(magnitude : Int) := rfl

/-- Some of `rest` makes a longer numeral of `digits`. -/
def GoesOn (digits rest : Text) : Prop :=
  ∃ more rest' magnitude, more ≠ [] ∧ rest = more ++ rest' ∧ IntegerDigits (digits ++ more) magnitude

namespace IntegerDigits

variable {digits rest : Text} {magnitude : Nat}

/-- `IntegerDigits` start with a decimal digit. -/
theorem exists_cons (h : IntegerDigits digits magnitude) :
    ∃ c ds, digits = c :: ds ∧ isDigit 10 c = true := by
  cases h with
  | hex => exact ⟨'0', _, rfl, rfl⟩
  | octal => exact ⟨'0', _, rfl, rfl⟩
  | decimal hfirst hdigits => exact ⟨_, _, rfl, hdigits _ (List.mem_cons_self ..)⟩

/-- `IntegerDigits` have hexadecimal digits only, but for the mark. -/
theorem isDigit_or_mark (h : IntegerDigits digits magnitude) {c : Char} (hc : c ∈ digits) :
    isDigit 16 c = true ∨ c = 'x' ∨ c = 'X' := by
  cases h with
  | hex hmark hdigits =>
      rcases List.mem_cons.mp hc with rfl | hc
      · exact .inl rfl
      · rcases List.mem_cons.mp hc with rfl | hc
        · exact .inr hmark
        · exact .inl (hdigits c hc)
  | octal hdigits =>
      rcases List.mem_cons.mp hc with rfl | hc
      · exact .inl rfl
      · exact .inl (isDigit_mono (by decide) (hdigits c hc))
  | decimal _ hdigits => exact .inl (isDigit_mono (by decide) (hdigits c hc))

theorem isBlank_eq_false (h : IntegerDigits digits magnitude) {c : Char} (hc : c ∈ digits) :
    isBlank c = false := by
  rcases h.isDigit_or_mark hc with hdigit | rfl | rfl
  · exact isBlank_eq_false_of_isDigit hdigit
  · decide
  · decide

/-- Blanks do not continue a numeral. -/
theorem not_goesOn_blanks (hblanks : ∀ c ∈ rest, isBlank c = true) : ¬GoesOn digits rest := by
  rintro ⟨more, rest', magnitude', hmore, rfl, h⟩
  obtain ⟨c, more, rfl⟩ := List.exists_cons_of_ne_nil hmore
  have hc := hblanks c (List.mem_append_left _ (List.mem_cons_self ..))
  rw [h.isBlank_eq_false (List.mem_append_right _ (List.mem_cons_self ..))] at hc
  cases hc

/-- Where `GoesOn` fails, no digit follows. -/
theorem startsWithDigit_of_not_goesOn {radix : Nat} (hends : ¬GoesOn digits rest)
    (hdigit : ∀ c, isDigit radix c = true → ∃ magnitude, IntegerDigits (digits ++ [c]) magnitude) :
    startsWithDigit radix rest = false := by
  cases rest with
  | nil => rfl
  | cons c rest =>
      rw [startsWithDigit_cons]
      apply Bool.eq_false_iff.mpr
      intro hc
      obtain ⟨magnitude', h⟩ := hdigit c hc
      exact hends ⟨[c], rest, magnitude', List.cons_ne_nil _ _, rfl, h⟩

end IntegerDigits

/-! ## What is read -/

/-- Without a leading `0` the radix is ten. -/
theorem radixOf_cons {c : Char} {t : Text} (hc : c ≠ '0') : radixOf (c :: t) = (10, c :: t) := by
  unfold radixOf
  split
  · next h => exact absurd (List.cons.inj h).1 hc
  · next h => exact absurd (List.cons.inj h).1 hc
  · rfl

/-- `t` is the `x` of a hexadecimal mark, and a digit behind it. -/
def StartsWithMark (t : Text) : Prop :=
  ∃ x tail, t = x :: tail ∧ (x = 'x' ∨ x = 'X') ∧ startsWithDigit 16 tail = true

/-- `radixOf` skips a hexadecimal mark. -/
theorem radixOf_mark {x : Char} {tail : Text} (hx : x = 'x' ∨ x = 'X')
    (htail : startsWithDigit 16 tail = true) : radixOf ('0' :: x :: tail) = (16, tail) := by
  have hmark : (x = 'x' || x = 'X') = true := by simpa using hx
  unfold radixOf
  simp only [hmark, htail, Bool.and_self, if_true]

/-- `radixOf` takes a `0` without a mark for an octal digit. -/
theorem radixOf_zero {t : Text} (hmark : ¬StartsWithMark t) : radixOf ('0' :: t) = (8, '0' :: t) := by
  cases t with
  | nil => rfl
  | cons x tail =>
      have hnot : ¬((x = 'x' || x = 'X') && startsWithDigit 16 tail) = true := by
        intro h
        simp only [Bool.and_eq_true, Bool.or_eq_true, decide_eq_true_eq] at h
        exact hmark ⟨x, tail, rfl, h⟩
      unfold radixOf
      simp only [if_neg hnot]

/-- `radixOf` and `spanDigits` take `digits` whole where `GoesOn` fails. -/
theorem IntegerDigits.read {digits rest : Text} {magnitude : Nat}
    (h : IntegerDigits digits magnitude) (hends : ¬GoesOn digits rest) :
    ∃ radix ds, radixOf (digits ++ rest) = (radix, ds ++ rest) ∧
      spanDigits radix (ds ++ rest) = (ds, rest) ∧ ds ≠ [] ∧ digitsValue radix ds = magnitude := by
  cases h with
  | @hex mark ds hmark hdigits hsome =>
      have hrest : startsWithDigit 16 rest = false := by
        apply startsWithDigit_of_not_goesOn hends
        intro c hc
        have hdigits' : ∀ d ∈ ds ++ [c], isDigit 16 d = true :=
          List.forall_mem_append.mpr ⟨hdigits, List.forall_mem_singleton.mpr hc⟩
        exact ⟨_, .hex hmark hdigits' (List.concat_ne_nil c ds)⟩
      refine ⟨16, ds, radixOf_mark hmark ?_, spanDigits_append_of_digits hdigits hrest, hsome, rfl⟩
      obtain ⟨d, ds, rfl⟩ := List.exists_cons_of_ne_nil hsome
      exact hdigits d (List.mem_cons_self ..)
  | @octal ds hdigits =>
      have hzero : ∀ d ∈ '0' :: ds, isDigit 8 d = true := List.forall_mem_cons.mpr ⟨rfl, hdigits⟩
      have hrest : startsWithDigit 8 rest = false := by
        apply startsWithDigit_of_not_goesOn hends
        intro c hc
        have hdigits' : ∀ d ∈ ds ++ [c], isDigit 8 d = true :=
          List.forall_mem_append.mpr ⟨hdigits, List.forall_mem_singleton.mpr hc⟩
        exact ⟨_, .octal hdigits'⟩
      refine ⟨8, '0' :: ds, radixOf_zero ?_, spanDigits_append_of_digits hzero hrest,
        List.cons_ne_nil _ _, rfl⟩
      rintro ⟨x, tail, heq, hx, htail⟩
      cases ds with
      | nil =>
          -- the mark and the digit behind it would make the zero a hexadecimal numeral
          subst heq
          cases tail with
          | nil => cases htail
          | cons d tail =>
              have hd : ∀ c ∈ [d], isDigit 16 c = true := List.forall_mem_singleton.mpr htail
              exact hends ⟨[x, d], tail, _, List.cons_ne_nil _ _, rfl,
                .hex hx hd (List.cons_ne_nil _ _)⟩
      | cons d ds =>
          have hd : isDigit 8 d = true := hdigits d (List.mem_cons_self ..)
          rw [(List.cons.inj heq).1] at hd
          rcases hx with rfl | rfl <;> exact absurd hd (by decide)
  | @decimal first ds hfirst hdigits =>
      have hrest : startsWithDigit 10 rest = false := by
        apply startsWithDigit_of_not_goesOn hends
        intro c hc
        have hdigits' : ∀ d ∈ first :: (ds ++ [c]), isDigit 10 d = true :=
          List.forall_mem_append.mpr ⟨hdigits, List.forall_mem_singleton.mpr hc⟩
        exact ⟨_, .decimal hfirst hdigits'⟩
      exact ⟨10, first :: ds, radixOf_cons hfirst, spanDigits_append_of_digits hdigits hrest,
        List.cons_ne_nil _ _, rfl⟩

/-- `IntegerLiteral.read?` takes a numeral whole where `GoesOn` fails. -/
theorem readInteger_of_digits {blanks digits rest : Text} {sign : NumeralSign} {magnitude : Nat}
    (hblanks : ∀ c ∈ blanks, isBlank c = true) (h : IntegerDigits digits magnitude)
    (hends : ¬GoesOn digits rest) :
    IntegerLiteral.read? (blanks ++ (sign.text ++ (digits ++ rest))) =
      some ⟨sign.isMinus, magnitude, rest⟩ := by
  obtain ⟨radix, ds, hradix, hspan, hsome, hvalue⟩ := h.read hends
  obtain ⟨c, tail, rfl, hc⟩ := h.exists_cons
  have hc16 := isDigit_mono (by decide : 10 ≤ 16) hc
  have hminus : c ≠ '-' := by rintro rfl; exact absurd hc (by decide)
  have hplus : c ≠ '+' := by rintro rfl; exact absurd hc (by decide)
  obtain ⟨d, ds, rfl⟩ := List.exists_cons_of_ne_nil hsome
  unfold IntegerLiteral.read?
  rw [skipBlanks_append hblanks, List.cons_append,
    sign.skipBlanks_text (isBlank_eq_false_of_isDigit hc16), sign.takeSign_text hminus hplus,
    ← List.cons_append]
  simp only [hradix, hspan, hvalue]

/-- What `radixOf` and `spanDigits` take are `IntegerDigits`. -/
theorem exists_digits_of_radixOf {t ds rest : Text} (hsome : ds ≠ [])
    (h : spanDigits (radixOf t).1 (radixOf t).2 = (ds, rest)) :
    ∃ digits, IntegerDigits digits (digitsValue (radixOf t).1 ds) ∧ t = digits ++ rest := by
  obtain ⟨d, ds, rfl⟩ := List.exists_cons_of_ne_nil hsome
  obtain ⟨hbody, hdigits, -⟩ := spanDigits_eq_iff.mp h
  cases t with
  | nil => cases hbody
  | cons c t =>
      by_cases hc : c = '0'
      · subst hc
        by_cases hmark : StartsWithMark t
        · obtain ⟨x, tail, rfl, hx, htail⟩ := hmark
          rw [radixOf_mark hx htail] at hbody hdigits ⊢
          have hbody' : tail = d :: ds ++ rest := hbody
          exact ⟨'0' :: x :: d :: ds, .hex hx hdigits hsome, by rw [hbody']; rfl⟩
        · rw [radixOf_zero hmark] at hbody hdigits ⊢
          obtain ⟨rfl, -⟩ := List.cons.inj hbody
          exact ⟨'0' :: ds, .octal (List.forall_mem_cons.mp hdigits).2, hbody⟩
      · rw [radixOf_cons hc] at hbody hdigits ⊢
        obtain ⟨rfl, -⟩ := List.cons.inj hbody
        exact ⟨c :: ds, .decimal hc hdigits, hbody⟩

/-- **`IntegerLiteral.read?` answers `IntegerHeads`.** -/
theorem exists_heads_of_readInteger {t : Text} {l : IntegerLiteral}
    (h : IntegerLiteral.read? t = some l) :
    ∃ sign, IntegerHeads t sign l.magnitude l.rest ∧ l.negative = sign.isMinus := by
  obtain ⟨sign, hsign, hminus⟩ := exists_sign_takeSign (skipBlanks t)
  unfold IntegerLiteral.read? at h
  simp only at h
  split at h
  · cases h
  · next ds rest hsome hspan =>
      cases h
      obtain ⟨digits, hdigits, hbody⟩ := exists_digits_of_radixOf hsome hspan
      refine ⟨sign, ⟨t.takeWhile isBlank, digits, ?_, hdigits, ?_⟩, hminus⟩
      · exact fun c hc => List.all_eq_true.mp List.all_takeWhile c hc
      · rw [← hbody, ← hsign]
        exact List.takeWhile_append_dropWhile.symm

/-! ## The longest numeral -/

variable {t rest : Text} {sign : NumeralSign} {magnitude : Nat}

/-- `IntegerHeads` come with a `LongestInteger`. -/
theorem IntegerHeads.exists_longest (h : IntegerHeads t sign magnitude rest) :
    ∃ sign magnitude rest, LongestInteger t sign magnitude rest := by
  let P (a : NumeralSign × Nat) := IntegerHeads t a.1 a.2
  have hP : P (sign, magnitude) rest := h
  obtain ⟨⟨sign, magnitude⟩, rest, hheads, hlongest⟩ := exists_shortest_rest hP
  exact ⟨sign, magnitude, rest, hheads, fun sign' magnitude' => hlongest (sign', magnitude')⟩

/-- The `LongestInteger` does not go on. -/
theorem LongestInteger.exists_digits (h : LongestInteger t sign magnitude rest) :
    ∃ blanks digits, (∀ c ∈ blanks, isBlank c = true) ∧ IntegerDigits digits magnitude ∧
      t = blanks ++ (sign.text ++ (digits ++ rest)) ∧ ¬GoesOn digits rest := by
  obtain ⟨⟨blanks, digits, hblanks, hdigits, rfl⟩, hlongest⟩ := h
  refine ⟨blanks, digits, hblanks, hdigits, rfl, ?_⟩
  rintro ⟨more, rest', magnitude', hmore, rfl, hdigits'⟩
  have hle := hlongest sign magnitude' rest'
    ⟨blanks, digits ++ more, hblanks, hdigits', by rw [List.append_assoc]⟩
  have hpos := List.length_pos_iff.mpr hmore
  rw [List.length_append] at hle
  omega

/-- **`IntegerLiteral.read?` answers the `LongestInteger`.** -/
theorem readInteger_of_longest (h : LongestInteger t sign magnitude rest) :
    IntegerLiteral.read? t = some ⟨sign.isMinus, magnitude, rest⟩ := by
  obtain ⟨blanks, digits, hblanks, hdigits, rfl, hends⟩ := h.exists_digits
  exact readInteger_of_digits hblanks hdigits hends

/-- `IntegerLiteral.read?` fails exactly without `IntegerHeads`. -/
theorem readInteger_eq_none_iff :
    IntegerLiteral.read? t = none ↔ ∀ sign magnitude rest, ¬IntegerHeads t sign magnitude rest := by
  constructor
  · intro hnone sign magnitude rest hheads
    obtain ⟨sign', magnitude', rest', hlongest⟩ := hheads.exists_longest
    rw [readInteger_of_longest hlongest] at hnone
    cases hnone
  · intro hno
    cases hread : IntegerLiteral.read? t with
    | none => rfl
    | some l =>
        obtain ⟨sign, hheads, -⟩ := exists_heads_of_readInteger hread
        exact absurd hheads (hno _ _ _)

/-- The answer of `IntegerLiteral.read?` is the `LongestInteger`. -/
theorem longest_of_readInteger {l : IntegerLiteral} (h : IntegerLiteral.read? t = some l) :
    ∃ sign, LongestInteger t sign l.magnitude l.rest ∧ l.negative = sign.isMinus := by
  obtain ⟨_, hheads, -⟩ := exists_heads_of_readInteger h
  obtain ⟨sign, magnitude, rest, hlongest⟩ := hheads.exists_longest
  rw [readInteger_of_longest hlongest] at h
  cases h
  exact ⟨sign, hlongest, rfl⟩

/-! ## Both readers -/

/-- The answer of a strict reader to a literal: whether it `fits` its type is asked first, whether `rest` is
    blank second. -/
def strictAnswer {α : Type} (t rest : Text) (fits : Prop) [Decidable fits] (value : α) :
    Except NumberError α :=
  if fits then
    if rest.all isBlank then .ok value else .error ⟨.trailing, t⟩
  else .error ⟨.outOfRange, t⟩

theorem map_endingAfter {α β : Type} (f : α → β) (input rest : Text) (value : α) :
    (endingAfter input rest value).map f =
      if rest.all isBlank then .ok (f value) else .error ⟨.trailing, input⟩ := by
  unfold endingAfter
  split <;> rfl

/-- `UInt64.ofInt` is a residue modulo `2 ^ 64`. -/
theorem natCast_toNat_ofInt (v : Int) : ((UInt64.ofInt v).toNat : Int) = v % 2 ^ 64 := by
  have hword : (UInt64.ofInt v).toNat = (v % 2 ^ 64).toNat % 2 ^ 64 := UInt64.toNat_ofNat'
  rw [hword]
  omega

/-- A minus sign negates in the ring of words. -/
theorem toNat_ofInt_apply (sign : NumeralSign) (hfits : magnitude < 2 ^ 64) :
    (UInt64.ofInt (sign.apply magnitude)).toNat =
      if sign.isMinus then (2 ^ 64 - magnitude) % 2 ^ 64 else magnitude := by
  have hword := natCast_toNat_ofInt (sign.apply magnitude)
  unfold NumeralSign.apply at hword ⊢
  cases hminus : sign.isMinus with
  | false =>
      simp only [hminus, Bool.false_eq_true, if_false] at hword ⊢
      omega
  | true =>
      simp only [hminus, if_true] at hword ⊢
      omega

theorem parseUInt64_of_longest (h : LongestInteger t sign magnitude rest) :
    (parseUInt64 t).map UInt64.toNat = strictAnswer t rest (magnitude < 2 ^ 64)
      (if sign.isMinus then (2 ^ 64 - magnitude) % 2 ^ 64 else magnitude) := by
  unfold parseUInt64 strictly strictAnswer
  rw [readInteger_of_longest h]
  by_cases hfits : magnitude < 2 ^ 64
  · have hsize : ¬UInt64.size ≤ magnitude := Nat.not_le.mpr hfits
    simp only [if_neg hsize, if_pos hfits, map_endingAfter]
    rw [← toNat_ofInt_apply sign hfits]
    rfl
  · have hsize : UInt64.size ≤ magnitude := Nat.not_lt.mp hfits
    simp only [if_pos hsize, if_neg hfits]
    rfl

theorem parseInt64_of_longest (h : LongestInteger t sign magnitude rest) :
    (parseInt64 t).map Int64.toInt = strictAnswer t rest
      (-2 ^ 63 ≤ sign.apply magnitude ∧ sign.apply magnitude ≤ 2 ^ 63 - 1)
      (sign.apply magnitude) := by
  unfold parseInt64 strictly strictAnswer
  rw [readInteger_of_longest h]
  have hvalue : IntegerLiteral.value ⟨sign.isMinus, magnitude, rest⟩ = sign.apply magnitude := rfl
  simp only [hvalue, Int64.toInt_minValue, Int64.toInt_maxValue]
  by_cases hfits : -2 ^ 63 ≤ sign.apply magnitude ∧ sign.apply magnitude ≤ 2 ^ 63 - 1
  · rw [if_pos hfits, if_neg (by omega), map_endingAfter,
      Int64.toInt_ofInt_of_le (by omega) (by omega)]
  · rw [if_neg hfits, if_pos (by omega)]
    rfl

/-- Without `IntegerHeads` both readers answer `noNumber`. -/
theorem parseInteger_of_no_heads (h : ∀ sign magnitude rest, ¬IntegerHeads t sign magnitude rest) :
    parseUInt64 t = .error ⟨.noNumber, t⟩ ∧ parseInt64 t = .error ⟨.noNumber, t⟩ := by
  unfold parseUInt64 parseInt64 strictly
  rw [readInteger_eq_none_iff.mpr h]
  exact ⟨rfl, rfl⟩

/-- **Integers are read as the longest numeral says.** A text without `IntegerHeads` is rejected. Any other
    has a `LongestInteger`, and its magnitude, without a bound, decides: `parseUInt64` takes magnitudes
    below `2 ^ 64` and negates modulo `2 ^ 64`, `parseInt64` takes the numbers from `-2 ^ 63` to
    `2 ^ 63 - 1`. What does not fit is out of range whatever follows, and what fits must be followed by
    blanks only. Every error keeps the complete text. -/
theorem parseInteger_eq_strictAnswer (t : Text) :
    ((∀ sign magnitude rest, ¬IntegerHeads t sign magnitude rest) →
      parseUInt64 t = .error ⟨.noNumber, t⟩ ∧ parseInt64 t = .error ⟨.noNumber, t⟩) ∧
    ((∃ sign magnitude rest, IntegerHeads t sign magnitude rest) →
      ∃ sign magnitude rest, LongestInteger t sign magnitude rest) ∧
    ∀ sign magnitude rest, LongestInteger t sign magnitude rest →
      (parseUInt64 t).map UInt64.toNat = strictAnswer t rest (magnitude < 2 ^ 64)
        (if sign.isMinus then (2 ^ 64 - magnitude) % 2 ^ 64 else magnitude) ∧
      (parseInt64 t).map Int64.toInt = strictAnswer t rest
        (-2 ^ 63 ≤ sign.apply magnitude ∧ sign.apply magnitude ≤ 2 ^ 63 - 1)
        (sign.apply magnitude) := by
  refine ⟨parseInteger_of_no_heads, ?_, ?_⟩
  · rintro ⟨sign, magnitude, rest, h⟩
    exact h.exists_longest
  · intro sign magnitude rest h
    exact ⟨parseUInt64_of_longest h, parseInt64_of_longest h⟩

/-- A sign that no digit follows is no number. Of `-0x8000000000000001`, which an `Int64` cannot hold, the
    other reader complains of what follows. -/
theorem parseInteger_eq_strictAnswer_trailing :
    parseInt64 "- 1".toList = .error ⟨.noNumber, "- 1".toList⟩ ∧
      LongestInteger " -0x8000000000000001:".toList .minus 0x8000000000000001 [':'] ∧
      (parseUInt64 " -0x8000000000000001:".toList).map UInt64.toNat =
        .error ⟨.trailing, " -0x8000000000000001:".toList⟩ ∧
      (parseInt64 " -0x8000000000000001:".toList).map Int64.toInt =
        .error ⟨.outOfRange, " -0x8000000000000001:".toList⟩ := by
  have hnone := readInteger_eq_none_iff.mp (by decide : IntegerLiteral.read? "- 1".toList = none)
  have hread : IntegerLiteral.read? " -0x8000000000000001:".toList =
      some ⟨true, 0x8000000000000001, [':']⟩ := by decide
  obtain ⟨sign, hlongest, hminus⟩ := longest_of_readInteger hread
  have hsign : sign = .minus := of_decide_eq_true hminus.symm
  subst hsign
  simp only at hlongest
  obtain ⟨hunsigned, hsigned⟩ := (parseInteger_eq_strictAnswer _).2.2 _ _ _ hlongest
  have hfits : 0x8000000000000001 < 2 ^ 64 := by omega
  have hfollowed : ¬[':'].all isBlank = true := by decide
  have hlow : ¬(-2 ^ 63 ≤ NumeralSign.minus.apply 0x8000000000000001 ∧
      NumeralSign.minus.apply 0x8000000000000001 ≤ 2 ^ 63 - 1) := by
    rw [NumeralSign.apply_minus]
    omega
  unfold strictAnswer at hunsigned hsigned
  rw [if_pos hfits, if_neg hfollowed] at hunsigned
  rw [if_neg hlow] at hsigned
  exact ⟨((parseInteger_eq_strictAnswer _).1 hnone).2, hlongest, hunsigned, hsigned⟩

/-! ## Texts that are numbers -/

/-- `t` is a numeral with blanks around it, and denotes `v`. -/
def IntegerDenotes (t : Text) (v : Int) : Prop :=
  ∃ sign magnitude rest, IntegerHeads t sign magnitude rest ∧ (∀ c ∈ rest, isBlank c = true) ∧
    v = sign.apply magnitude

/-- `IntegerLiteral.read?` answers a numeral between blanks. -/
theorem IntegerHeads.readInteger (h : IntegerHeads t sign magnitude rest)
    (hrest : ∀ c ∈ rest, isBlank c = true) :
    IntegerLiteral.read? t = some ⟨sign.isMinus, magnitude, rest⟩ := by
  obtain ⟨blanks, digits, hblanks, hdigits, rfl⟩ := h
  exact readInteger_of_digits hblanks hdigits (IntegerDigits.not_goesOn_blanks hrest)

/-- `IntegerDenotes` is functional. -/
theorem IntegerDenotes.unique {v v' : Int} (h : IntegerDenotes t v) (h' : IntegerDenotes t v') :
    v = v' := by
  obtain ⟨sign, magnitude, rest, hheads, hrest, rfl⟩ := h
  obtain ⟨sign', magnitude', rest', hheads', hrest', rfl⟩ := h'
  have hread := hheads.readInteger hrest
  rw [hheads'.readInteger hrest'] at hread
  exact (congrArg (fun l => (l.map IntegerLiteral.value).getD 0) hread).symm

theorem IntegerLiteral.natAbs_value (l : IntegerLiteral) : l.value.natAbs = l.magnitude := by
  unfold value
  split
  · rw [Int.natAbs_neg, Int.natAbs_natCast]
  · rw [Int.natAbs_natCast]

theorem NumeralSign.natAbs_apply (sign : NumeralSign) (magnitude : Nat) :
    (sign.apply magnitude).natAbs = magnitude :=
  IntegerLiteral.natAbs_value ⟨sign.isMinus, magnitude, []⟩

/-- A literal with a blank rest denotes its value. -/
theorem denotes_of_readInteger {l : IntegerLiteral} (h : IntegerLiteral.read? t = some l)
    (hrest : ∀ c ∈ l.rest, isBlank c = true) : IntegerDenotes t l.value := by
  obtain ⟨sign, hheads, hminus⟩ := exists_heads_of_readInteger h
  refine ⟨sign, l.magnitude, l.rest, hheads, hrest, ?_⟩
  unfold IntegerLiteral.value NumeralSign.apply
  rw [hminus]

/-- **`parseUInt64` accepts magnitudes below `2 ^ 64`**, and takes them modulo `2 ^ 64`. -/
theorem parseUInt64_eq_ok_iff {n : UInt64} :
    parseUInt64 t = .ok n ↔
      ∃ v : Int, IntegerDenotes t v ∧ v.natAbs < 2 ^ 64 ∧ (n.toNat : Int) = v % 2 ^ 64 := by
  constructor
  · intro h
    unfold parseUInt64 strictly at h
    split at h
    · cases h
    · next l hread =>
        split at h
        · cases h
        · next hfits =>
            unfold endingAfter at h
            split at h
            · next hrest =>
                cases h
                refine ⟨l.value, denotes_of_readInteger hread (List.all_eq_true.mp hrest), ?_,
                  natCast_toNat_ofInt _⟩
                rw [l.natAbs_value]
                exact Nat.not_le.mp hfits
            · cases h
  · rintro ⟨v, ⟨sign, magnitude, rest, hheads, hrest, rfl⟩, hfits, hn⟩
    rw [sign.natAbs_apply] at hfits
    have hsize : ¬UInt64.size ≤ magnitude := Nat.not_le.mpr hfits
    have hword : UInt64.ofInt (sign.apply magnitude) = n := by
      apply UInt64.toNat_inj.mp
      have := natCast_toNat_ofInt (sign.apply magnitude)
      omega
    unfold parseUInt64 strictly endingAfter
    rw [hheads.readInteger hrest]
    simp only [if_neg hsize, List.all_eq_true.mpr hrest, if_true]
    exact congrArg Except.ok hword

/-- **`parseUInt64` inverts `Nat.toDigits 10`.** -/
theorem parseUInt64_toDigits {n : Nat} (hn : n < 2 ^ 64) :
    parseUInt64 (Nat.toDigits 10 n) = .ok (UInt64.ofNat n) := by
  have hdigits : IntegerDigits (Nat.toDigits 10 n) n := by
    -- zero is written with a leading zero, which announces another radix
    by_cases hzero : n = 0
    · subst hzero
      exact .octal (by simp)
    · obtain ⟨c, ds, hds⟩ := List.exists_cons_of_ne_nil (Nat.toDigits_ne_nil (b := 10) (n := n))
      have hhead := head_toDigits_ne_zero (by decide : 1 < 10) hzero
      have hall : ∀ d ∈ Nat.toDigits 10 n, isDigit 10 d = true := fun d hd =>
        isDigit_of_mem_toDigits (by decide) (by decide) hd
      have hvalue := digitsValue_toDigits (by decide : 1 < 10) (by decide) n
      rw [hds, List.head?_cons] at hhead
      rw [hds] at hall hvalue ⊢
      have h := IntegerDigits.decimal (fun hc => hhead (congrArg some hc)) hall
      rw [hvalue] at h
      exact h
  have hdenotes : IntegerDenotes (Nat.toDigits 10 n) n :=
    ⟨.none, n, [], ⟨[], _, by simp, hdigits, (List.append_nil _).symm⟩, by simp, rfl⟩
  refine parseUInt64_eq_ok_iff.mpr ⟨n, hdenotes, by rwa [Int.natAbs_natCast], ?_⟩
  rw [UInt64.toNat_ofNat']
  omega

/-! ## The characters of a number -/

/-- The characters in and around a number. -/
def isNumberChar (c : Char) : Bool :=
  isBlank c || isDigit 16 c || c = '+' || c = '-' || c = 'x' || c = 'X'

/-- `IntegerDenotes` has `isNumberChar`s only. -/
theorem IntegerDenotes.isNumberChar {v : Int} (h : IntegerDenotes t v) {c : Char} (hc : c ∈ t) :
    isNumberChar c = true := by
  obtain ⟨sign, magnitude, rest, ⟨blanks, digits, hblanks, hdigits, rfl⟩, hrest, -⟩ := h
  simp only [List.mem_append] at hc
  rcases hc with hc | hc | hc | hc
  · simp [NetKit.isNumberChar, hblanks c hc]
  · rcases NumeralSign.mem_text hc with rfl | rfl <;> rfl
  · rcases hdigits.isDigit_or_mark hc with hdigit | rfl | rfl
    · simp [NetKit.isNumberChar, hdigit]
    · rfl
    · rfl
  · simp [NetKit.isNumberChar, hrest c hc]

/-- A text that `parseUInt64` accepts has `isNumberChar`s only. -/
theorem isNumberChar_of_parseUInt64 {n : UInt64} (h : parseUInt64 t = .ok n) {c : Char}
    (hc : c ∈ t) : isNumberChar c = true := by
  obtain ⟨v, hdenotes, -⟩ := parseUInt64_eq_ok_iff.mp h
  exact hdenotes.isNumberChar hc

end NetKit
