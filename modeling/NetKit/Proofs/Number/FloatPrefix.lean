import NetKit.Proofs.Number.FloatForms
import NetKit.Proofs.Number.IntegerNumeral

/-!
# Float prefixes — the longest numeral that a text starts with is what is read

`FloatLiteral.read?` takes what it can of a word, of a hexadecimal or of a decimal form, and looks ahead in
several places. What this amounts to is said here without any order and without looking ahead: a text
starts with a `FloatNumeral` after blanks (`FloatHeads`), and of all numerals that it starts with the longest one
counts (`LongestFloat`). So `inf` is taken of `info`, `0` of `0x.`, `1` of `1e+` and `nan` of `nan(1`, as nothing
longer is a numeral.

The longest numeral settles everything: whether it is in range is asked first, what follows it second.

## Contents
- `FloatHeads`, `LongestFloat`: numerals at the start of a text.
- `exists_longer_scaled`, `DecimalNumeral.body_of_readHex`: what goes on with a numeral.
- `FloatNumeral.Greedy`, `FloatNumeral.readForm_of_greedy`, `readFloat_of_longest`: what is read.
- `FloatNumeral.Unfinished`, `FloatNumeral.Unfinished.readForm`: what is left over.
- `parseBinary64_of_longest`, `parseBinary64_longest`: the strict reader on every text.
-/

namespace NetKit

open Binary64

/-! ## Numerals at the start of a text -/

/-- `t` is blanks, `n.text` and `rest`. -/
def FloatHeads (t : Text) (n : FloatNumeral) (rest : Text) : Prop :=
  ∃ blanks, (∀ c ∈ blanks, isBlank c = true) ∧ t = blanks ++ (n.text ++ rest)

/-- The `FloatHeads` of `t` with the shortest `rest`. -/
structure LongestFloat (t : Text) (n : FloatNumeral) (rest : Text) : Prop where
  heads : FloatHeads t n rest
  longest : ∀ n' rest', FloatHeads t n' rest' → rest.length ≤ rest'.length

/-! ## What goes on -/

section Longer

variable {radix : Nat} {marker : Char} {rest : Text}

namespace NumeralMantissa

/-- `m` with one more digit. -/
def snoc (m : NumeralMantissa radix) (c : Char) (hc : isDigit radix c = true) :
    NumeralMantissa radix :=
  have hdigits : ∀ {ds : Text}, (∀ d ∈ ds, isDigit radix d = true) →
      ∀ d ∈ ds ++ [c], isDigit radix d = true :=
    fun h => List.forall_mem_append.mpr ⟨h, List.forall_mem_singleton.mpr hc⟩
  match m with
  | ⟨whole, none, hwhole, hfraction, _⟩ =>
    ⟨whole ++ [c], none, hdigits hwhole, hfraction, by simp⟩
  | ⟨whole, some fraction, hwhole, hfraction, _⟩ =>
    ⟨whole, some (fraction ++ [c]), hwhole, hdigits hfraction, by simp⟩

theorem text_snoc (m : NumeralMantissa radix) (c : Char) (hc : isDigit radix c = true) :
    (m.snoc c hc).text = m.text ++ [c] := by
  obtain ⟨whole, fraction, hwhole, hfraction, hsome⟩ := m
  cases fraction with
  | none => simp [snoc, text]
  | some fraction => simp [snoc, text]

/-- A mantissa without a point can be given one. -/
theorem exists_text_point (m : NumeralMantissa radix) (hm : m.fraction = none) :
    ∃ m' : NumeralMantissa radix, m'.text = m.text ++ ['.'] := by
  obtain ⟨whole, fraction, hwhole, hfraction, hsome⟩ := m
  cases hm
  exact ⟨⟨whole, some [], hwhole, hfraction, hsome⟩, by simp [text]⟩

end NumeralMantissa

/-- **Where `ScaleEnds` fails, some longer mantissa and exponent stand there.** -/
theorem exists_longer_scaled {m : NumeralMantissa radix} {x : Option (NumeralExponent marker)}
    (hgoesOn : ¬ScaleEnds m x rest) :
    ∃ (m' : NumeralMantissa radix) (x' : Option (NumeralExponent marker)) (rest' : Text),
      m.text ++ (x.elim [] NumeralExponent.text ++ rest) =
        m'.text ++ (x'.elim [] NumeralExponent.text ++ rest') ∧ rest'.length < rest.length := by
  cases x with
  | some x =>
      cases rest with
      | nil => exact absurd rfl hgoesOn
      | cons c rest =>
          have hc : isDigit 10 c = true := Bool.not_eq_false _ ▸ hgoesOn
          have hdigits : ∀ d ∈ x.digits ++ [c], isDigit 10 d = true :=
            List.forall_mem_append.mpr ⟨x.isDigit_digits, List.forall_mem_singleton.mpr hc⟩
          refine ⟨m, some ⟨x.letter, x.sign, x.digits ++ [c], x.letter_eq, hdigits, by simp⟩, rest, ?_,
            Nat.lt_succ_self _⟩
          simp [NumeralExponent.text]
  | none =>
      -- without an exponent the mantissa goes on with a digit or a point, or the exponent begins
      by_cases hdigit : startsWithDigit radix rest = false
      · by_cases hpoint : m.fraction = none → rest.head? ≠ some '.'
        · -- what is left is an exponent
          have hexponent : readExponent marker rest ≠ (0, rest) :=
            fun h => hgoesOn ⟨hdigit, hpoint, h⟩
          obtain ⟨x, rest', rfl, -⟩ := (exists_exponent_or_read marker rest).resolve_right hexponent
          refine ⟨m, some x, rest', rfl, ?_⟩
          rw [List.length_append]
          exact Nat.lt_add_of_pos_left (Nat.succ_pos _)
        · obtain ⟨hnone, hhead⟩ := Classical.not_imp.mp hpoint
          obtain ⟨m', hm'⟩ := m.exists_text_point hnone
          cases rest with
          | nil => exact absurd (fun h => nomatch h) hhead
          | cons c rest =>
              obtain rfl : c = '.' := Option.some.inj (Decidable.not_not.mp hhead)
              refine ⟨m', none, rest, ?_, Nat.lt_succ_self _⟩
              rw [hm']
              simp
      · cases rest with
        | nil => exact absurd rfl hdigit
        | cons c rest =>
            have hc : isDigit radix c = true := Bool.not_eq_false _ ▸ hdigit
            refine ⟨m.snoc c hc, none, rest, ?_, Nat.lt_succ_self _⟩
            rw [m.text_snoc]
            simp

end Longer

/-- Of decimal numerals only `0` goes on to something that `readHex?` accepts. -/
theorem DecimalNumeral.body_of_readHex {n : DecimalNumeral} {rest : Text} {r : FloatForm × Text}
    (h : readHex? (n.body ++ rest) = some r) : n.body = ['0'] ∧
      ∃ mark tail, rest = mark :: tail ∧ (mark = 'x' ∨ mark = 'X') ∧
        (Mantissa.read? 16 tail).isSome = true := by
  obtain ⟨c, t, hbody, -⟩ := n.exists_body_cons
  unfold readHex? at h
  split at h
  · next mark tail heq =>
      split at h
      · next hmark =>
          have hmark' : mark = 'x' ∨ mark = 'X' := by simpa using hmark
          have hnot : mark ∉ n.body := by
            have hnot := n.mark_not_mem hmark' (List.forall_mem_nil _)
            rw [List.append_nil] at hnot
            exact hnot
          rw [hbody] at heq hnot ⊢
          cases t with
          | nil =>
              obtain ⟨rfl, rfl⟩ := List.cons.inj heq
              have hread : (Mantissa.read? 16 tail).isSome = true := by
                obtain ⟨r, hr, -⟩ := Option.map_eq_some_iff.mp h
                exact Option.isSome_of_eq_some hr
              exact ⟨rfl, mark, tail, rfl, hmark', hread⟩
          | cons d t =>
              -- the second character would be the mark
              obtain ⟨-, heq⟩ := List.cons.inj heq
              obtain ⟨rfl, -⟩ := List.cons.inj heq
              exact absurd (List.mem_cons_of_mem _ List.mem_cons_self) hnot
      · cases h
  · cases h

namespace FloatNumeral

/-- No numeral of the same sign takes more of the text. -/
def Greedy (n : FloatNumeral) (rest : Text) : Prop :=
  ∀ (n' : FloatNumeral) (rest' : Text), n'.sign = n.sign → n.body ++ rest = n'.body ++ rest' →
    rest.length ≤ rest'.length

variable {rest : Text}

theorem readForm_infinity {sign : NumeralSign} {word : Text}
    (hword : word.map Char.toLower = "infinity".toList ∨ word.map Char.toLower = "inf".toList)
    (hgreedy : (infinity sign word hword).Greedy rest) :
    FloatForm.read? (word ++ rest) = some (.infinity, rest) := by
  have hread : readWord? (word ++ rest) = some (.infinity, rest) := by
    unfold readWord?
    rcases hword with hlong | hshort
    · have hstrip : stripWord? "infinity".toList (word ++ rest) = some rest :=
        stripWord?_eq_some_iff.mpr ⟨word, hlong, rfl⟩
      rw [hstrip]
    · have hlong : stripWord? "infinity".toList (word ++ rest) = none := by
        cases hmore : stripWord? "inity".toList rest with
        | none => exact (stripWord?_append hshort "inity".toList rest).trans hmore
        | some rest' =>
            -- the whole word stands there
            obtain ⟨w, hw, rfl⟩ := stripWord?_eq_some_iff.mp hmore
            have hwhole : (word ++ w).map Char.toLower = "infinity".toList := by
              rw [List.map_append, hshort, hw]
              rfl
            have hle := hgreedy (.infinity sign (word ++ w) (.inl hwhole)) rest' rfl
              (List.append_assoc ..).symm
            have hlength : w.length = 5 := by
              rw [← List.length_map Char.toLower, hw]
              rfl
            rw [List.length_append] at hle
            omega
      have hstrip : stripWord? "inf".toList (word ++ rest) = some rest :=
        stripWord?_eq_some_iff.mpr ⟨word, hshort, rfl⟩
      rw [hlong, hstrip]
  unfold FloatForm.read?
  rw [hread]
  rfl

/-- `FloatForm.read?` reads the letters of `nan` as the word, and skips what `skipTag` skips. -/
theorem readForm_nan {word : Text} (hword : word.map Char.toLower = "nan".toList) (t : Text) :
    FloatForm.read? (word ++ t) = some (.nan, skipTag t) := by
  obtain ⟨c, w, hcons, hc⟩ := exists_cons_of_map_toLower hword
  have hother : ∀ tail, stripWord? ('i' :: tail) (word ++ t) = none := by
    intro tail
    rw [hcons, List.cons_append]
    exact if_neg (fun h => absurd (hc.symm.trans h) (by decide))
  have hstrip : stripWord? "nan".toList (word ++ t) = some t :=
    stripWord?_eq_some_iff.mpr ⟨word, hword, rfl⟩
  have hread : readWord? (word ++ t) = some (.nan, skipTag t) := by
    unfold readWord?
    rw [hstrip, show "infinity".toList = 'i' :: "nfinity".toList from rfl,
      show "inf".toList = 'i' :: "nf".toList from rfl, hother, hother]
  unfold FloatForm.read?
  rw [hread]
  rfl

/-- **`FloatForm.read?` answers the `Greedy` numeral.** -/
theorem readForm_of_greedy {n : FloatNumeral} (hgreedy : n.Greedy rest) :
    FloatForm.read? (n.body ++ rest) = some (n.form, rest) := by
  cases n with
  | infinity sign word hword => exact readForm_infinity hword hgreedy
  | nan sign word tag hword htag =>
      have hskip : skipTag (tagText tag ++ rest) = rest := by
        cases tag with
        | some tag => exact skipTag_tagText htag rest
        | none =>
            obtain ⟨tag, htag', hrest⟩ := exists_tag_skipTag rest
            cases tag with
            | none => exact hrest.symm
            | some tag =>
                -- a closed tag would be taken
                have hle := hgreedy (.nan sign word (some tag) hword htag') (skipTag rest) rfl (by
                  show (word ++ []) ++ rest = (word ++ tagText (some tag)) ++ skipTag rest
                  rw [List.append_nil, List.append_assoc, ← hrest])
                have hlength := congrArg List.length hrest
                unfold tagText at hlength
                simp only [List.length_append, List.length_cons] at hlength
                omega
      show FloatForm.read? ((word ++ tagText tag) ++ rest) = some (.nan, rest)
      rw [List.append_assoc, readForm_nan hword, hskip]
  | hex n =>
      apply n.readForm_body
      by_contra hgoesOn
      obtain ⟨m, x, rest', htext, hlt⟩ := exists_longer_scaled hgoesOn
      have hle := hgreedy (.hex { n with mantissa := m, exponent := x }) rest' rfl (by
        show n.body ++ rest = HexNumeral.body _ ++ rest'
        rw [n.body_append, HexNumeral.body_append]
        exact congrArg (fun t => '0' :: n.mark :: t) htext)
      omega
  | decimal n =>
      apply n.readForm_body
      · by_contra hgoesOn
        obtain ⟨m, x, rest', htext, hlt⟩ := exists_longer_scaled hgoesOn
        have hle := hgreedy (.decimal { n with mantissa := m, exponent := x }) rest' rfl (by
          show n.body ++ rest = DecimalNumeral.body _ ++ rest'
          rw [n.body_append, DecimalNumeral.body_append]
          exact htext)
        omega
      · cases hhex : readHex? (n.body ++ rest) with
        | none => rfl
        | some r =>
            -- a hexadecimal numeral takes more than the zero
            obtain ⟨form, rest'⟩ := r
            obtain ⟨m, hsign, htext, -⟩ := HexNumeral.exists_of_read n.sign hhex
            have hle := hgreedy (.hex m) rest' hsign htext
            obtain ⟨hzero, -⟩ := DecimalNumeral.body_of_readHex hhex
            have hlength := congrArg List.length htext
            rw [hzero, List.length_append, m.body_append] at hlength
            simp only [List.length_append, List.length_cons, List.length_nil] at hlength
            omega

end FloatNumeral

/-! ## The longest numeral -/

section Longest

variable {t rest : Text} {n : FloatNumeral}

/-- `FloatHeads` come with a `LongestFloat`. -/
theorem FloatHeads.exists_longest (h : FloatHeads t n rest) : ∃ n rest, LongestFloat t n rest := by
  obtain ⟨n, rest, hheads, hlongest⟩ := exists_shortest_rest h
  exact ⟨n, rest, hheads, hlongest⟩

/-- `FloatLiteral.read?` behind blanks and a sign is `FloatForm.read?`. -/
theorem readFloat_of_readForm {blanks : Text} (hblanks : ∀ c ∈ blanks, isBlank c = true)
    (hform : FloatForm.read? (n.body ++ rest) = some (n.form, rest)) :
    FloatLiteral.read? (blanks ++ (n.text ++ rest)) = some ⟨n.sign.isMinus, n.form, rest⟩ := by
  -- the body starts with neither a blank nor a sign, so blanks and sign end where they should
  obtain ⟨c, tail, hbody, hblank, hsign⟩ := n.exists_body_cons
  have htext : n.text ++ rest = n.sign.text ++ (n.body ++ rest) := List.append_assoc ..
  rw [hbody] at hform
  rw [htext, hbody]
  exact FloatLiteral.read?_of_form hblanks hblank hsign hform

/-- **`FloatLiteral.read?` answers the `LongestFloat`.** -/
theorem readFloat_of_longest (h : LongestFloat t n rest) :
    FloatLiteral.read? t = some ⟨n.sign.isMinus, n.form, rest⟩ := by
  obtain ⟨⟨blanks, hblanks, rfl⟩, hlongest⟩ := h
  refine readFloat_of_readForm hblanks (FloatNumeral.readForm_of_greedy ?_)
  intro n' rest' hsign hbody
  refine hlongest n' rest' ⟨blanks, hblanks, ?_⟩
  unfold FloatNumeral.text
  rw [List.append_assoc, List.append_assoc, hsign, hbody]

/-- **`FloatLiteral.read?` answers `FloatHeads`.** -/
theorem exists_heads_of_readFloat {l : FloatLiteral} (h : FloatLiteral.read? t = some l) :
    ∃ n, FloatHeads t n l.rest := by
  obtain ⟨sign, hsign, -⟩ := exists_sign_takeSign (skipBlanks t)
  unfold FloatLiteral.read? at h
  generalize takeSign (skipBlanks t) = taken at h hsign
  obtain ⟨negative, unsigned⟩ := taken
  obtain ⟨⟨form, rest⟩, hform, rfl⟩ := Option.map_eq_some_iff.mp h
  obtain ⟨n, hn, rfl, -⟩ := FloatNumeral.exists_of_readForm sign hform
  refine ⟨n, t.takeWhile isBlank, fun c hc => List.all_eq_true.mp List.all_takeWhile c hc, ?_⟩
  unfold FloatNumeral.text
  rw [List.append_assoc, hn, ← hsign]
  exact List.takeWhile_append_dropWhile.symm

/-- `FloatLiteral.read?` fails exactly without `FloatHeads`. -/
theorem readFloat_eq_none_iff :
    FloatLiteral.read? t = none ↔ ∀ n rest, ¬FloatHeads t n rest := by
  constructor
  -- of a numeral at the start the longest one would be read
  · intro hnone n rest hheads
    obtain ⟨n, rest, hlongest⟩ := hheads.exists_longest
    rw [readFloat_of_longest hlongest] at hnone
    cases hnone
  · intro hno
    cases hread : FloatLiteral.read? t with
    | none => rfl
    | some l =>
        obtain ⟨n, hheads⟩ := exists_heads_of_readFloat hread
        exact absurd hheads (hno _ _)

/-- `FloatHeads` with the rest that `FloatLiteral.read?` leaves are the `LongestFloat`. -/
theorem FloatHeads.longest_of_read (h : FloatHeads t n rest) {l : FloatLiteral}
    (hread : FloatLiteral.read? t = some l) (hrest : l.rest = rest) : LongestFloat t n rest := by
  obtain ⟨n', rest', hlongest⟩ := h.exists_longest
  rw [readFloat_of_longest hlongest] at hread
  cases hread
  subst hrest
  exact ⟨h, hlongest.longest⟩

end Longest

/-! ## What is left over -/

/-- What seems to continue a numeral but does not: the mark of an exponent without digits, an open tag, and
    the mark of a hexadecimal numeral without digits. -/
inductive FloatNumeral.Unfinished : FloatNumeral → Text → Prop where
  | hexExponent {n : HexNumeral} {c : Char} {tail : Text} (hnone : n.exponent = none)
      (hc : c = 'p' ∨ c = 'P')
      (hdigit : ∀ (sign : NumeralSign) (u : Text), tail = sign.text ++ u → startsWithDigit 10 u = false) :
      Unfinished (.hex n) (c :: tail)
  | decimalExponent {n : DecimalNumeral} {c : Char} {tail : Text} (hnone : n.exponent = none)
      (hc : c = 'e' ∨ c = 'E')
      (hdigit : ∀ (sign : NumeralSign) (u : Text), tail = sign.text ++ u → startsWithDigit 10 u = false) :
      Unfinished (.decimal n) (c :: tail)
  | tag {sign : NumeralSign} {word tail : Text} {hword : word.map Char.toLower = "nan".toList}
      {htag : ∀ c ∈ (none : Option Text).getD [], isTagChar c = true}
      (hopen : (tail.dropWhile isTagChar).head? ≠ some ')') :
      Unfinished (.nan sign word none hword htag) ('(' :: tail)
  | mark {n : DecimalNumeral} {c : Char} {tail : Text} (hzero : n.body = ['0'])
      (hc : c = 'x' ∨ c = 'X') (hdigit : startsWithDigit 16 tail = false)
      (hpoint : ∀ u, tail = '.' :: u → startsWithDigit 16 u = false) :
      Unfinished (.decimal n) (c :: tail)

section Unfinished

variable {n : FloatNumeral} {rest : Text}

/-- `readExponent` takes nothing without a digit. -/
theorem readExponent_of_no_digit {marker c : Char} {tail : Text}
    (hdigit : ∀ (sign : NumeralSign) (u : Text), tail = sign.text ++ u → startsWithDigit 10 u = false) :
    readExponent marker (c :: tail) = (0, c :: tail) := by
  refine (exists_exponent_or_read marker (c :: tail)).resolve_left ?_
  rintro ⟨x, rest, htext, -⟩
  obtain ⟨d, ds, hds⟩ := List.exists_cons_of_ne_nil x.digits_ne_nil
  have htail : tail = x.sign.text ++ (x.digits ++ rest) :=
    (List.cons.inj htext).2.trans (List.append_assoc ..)
  have hd : isDigit 10 d = true := x.isDigit_digits d (hds ▸ List.mem_cons_self)
  have hnot := hdigit x.sign _ htail
  rw [hds, List.cons_append, startsWithDigit_cons, hd] at hnot
  cases hnot

/-- `Mantissa.read?` fails without a digit. -/
theorem mantissa_read_of_no_digit {radix : Nat} {tail : Text} (hdigit : startsWithDigit radix tail = false)
    (hpoint : ∀ u, tail = '.' :: u → startsWithDigit radix u = false) :
    Mantissa.read? radix tail = none := by
  have hspan : ∀ {u : Text}, startsWithDigit radix u = false → spanDigits radix u = ([], u) :=
    fun h => spanDigits_append_of_digits (List.forall_mem_nil _) h
  unfold Mantissa.read?
  rw [hspan hdigit]
  split
  · next tail' heq =>
      obtain ⟨rfl, rfl⟩ := Prod.mk.inj heq
      rw [hspan (hpoint _ rfl)]
      rfl
  · next heq =>
      obtain ⟨rfl, rfl⟩ := Prod.mk.inj heq
      rfl

/-- `ScaleEnds` holds before a character that is no digit and no point, if `readExponent` takes nothing. -/
theorem scaleEnds_cons {radix : Nat} {marker : Char} (m : NumeralMantissa radix) {c : Char} {tail : Text}
    (hc : isDigit radix c = false ∧ c ≠ '.') (hexponent : readExponent marker (c :: tail) = (0, c :: tail)) :
    ScaleEnds m (none : Option (NumeralExponent marker)) (c :: tail) :=
  ⟨hc.1, fun _ hhead => hc.2 (Option.some.inj hhead), hexponent⟩

/-- **`FloatForm.read?` takes the numeral and leaves what is `Unfinished`.** -/
theorem FloatNumeral.Unfinished.readForm (h : n.Unfinished rest) :
    FloatForm.read? (n.body ++ rest) = some (n.form, rest) := by
  cases h with
  | @hexExponent n c tail hnone hc hdigit =>
      have hletter : isDigit 16 c = false ∧ c ≠ '.' := by rcases hc with rfl | rfl <;> decide
      refine n.readForm_body ?_
      rw [hnone]
      exact scaleEnds_cons _ hletter (readExponent_of_no_digit hdigit)
  | @decimalExponent n c tail hnone hc hdigit =>
      have hletter : isDigit 10 c = false ∧ c ≠ '.' := by rcases hc with rfl | rfl <;> decide
      refine n.readForm_body ?_ ?_
      · rw [hnone]
        exact scaleEnds_cons _ hletter (readExponent_of_no_digit hdigit)
      · cases hhex : readHex? (n.body ++ c :: tail) with
        | none => rfl
        | some r =>
            obtain ⟨-, mark, tail', heq, hmark, -⟩ := DecimalNumeral.body_of_readHex hhex
            obtain ⟨rfl, -⟩ := List.cons.inj heq
            rcases hc with rfl | rfl <;> exact absurd hmark (by decide)
  | @tag sign word tail hword htag hopen =>
      show FloatForm.read? ((word ++ []) ++ '(' :: tail) = some (.nan, '(' :: tail)
      rw [List.append_nil, readForm_nan hword, skipTag_open hopen]
  | @mark n c tail hzero hc hdigit hpoint =>
      have hletter : isDigit 10 c = false ∧ c ≠ '.' := by rcases hc with rfl | rfl <;> decide
      have hmarker : c.toLower ≠ 'e' := by rcases hc with rfl | rfl <;> decide
      -- the letter of an exponent would stand in the numeral, which is only a zero
      have hnone : n.exponent = none := by
        cases hx : n.exponent with
        | none => rfl
        | some x =>
            have hmem : x.letter ∈ n.body := by
              unfold DecimalNumeral.body DecimalNumeral.exponentText
              rw [hx]
              exact List.mem_append_right _ List.mem_cons_self
            rw [hzero, List.mem_singleton] at hmem
            rcases x.letter_eq with hletter | hletter <;> rw [hmem] at hletter <;>
              exact absurd hletter (by decide)
      refine n.readForm_body ?_ ?_
      · rw [hnone]
        exact scaleEnds_cons _ hletter (if_neg hmarker)
      · cases hhex : readHex? (n.body ++ c :: tail) with
        | none => rfl
        | some r =>
            obtain ⟨-, mark, tail', heq, -, hread⟩ := DecimalNumeral.body_of_readHex hhex
            obtain ⟨-, rfl⟩ := List.cons.inj heq
            rw [mantissa_read_of_no_digit hdigit hpoint] at hread
            cases hread

/-- What is `Unfinished` is not blank. -/
theorem FloatNumeral.Unfinished.all_isBlank (h : n.Unfinished rest) : rest.all isBlank = false := by
  have hcons : ∀ {c : Char} (tail : Text), isBlank c = false → (c :: tail).all isBlank = false := by
    intro c tail hc
    rw [List.all_cons, hc, Bool.false_and]
  cases h with
  | hexExponent hnone hc hdigit => rcases hc with rfl | rfl <;> exact hcons _ (by decide)
  | decimalExponent hnone hc hdigit => rcases hc with rfl | rfl <;> exact hcons _ (by decide)
  | tag hopen => exact hcons _ (by decide)
  | mark hzero hc hdigit hpoint => rcases hc with rfl | rfl <;> exact hcons _ (by decide)

/-- `FloatHeads` with something `Unfinished` behind them are the `LongestFloat`. -/
theorem FloatHeads.longest_of_unfinished {t : Text} (h : FloatHeads t n rest)
    (hunfinished : n.Unfinished rest) : LongestFloat t n rest := by
  obtain ⟨blanks, hblanks, rfl⟩ := h
  have hread := readFloat_of_readForm hblanks hunfinished.readForm
  exact FloatHeads.longest_of_read ⟨blanks, hblanks, rfl⟩ hread rfl

end Unfinished

/-! ## The strict reader -/

section Reader

variable {t rest : Text} {n : FloatNumeral}

theorem parseBinary64_of_longest (h : LongestFloat t n rest) :
    parseBinary64 t = strictAnswer t rest (n.isRejected = false) n.value := by
  have hvalue : FloatLiteral.value ⟨n.sign.isMinus, n.form, rest⟩ = n.value := n.value_form
  unfold parseBinary64 strictly strictAnswer endingAfter
  rw [readFloat_of_longest h]
  simp only [n.isOutOfRange_form, hvalue]
  cases n.isRejected with
  | false => rfl
  | true => rfl

theorem parseBinary64_eq_noNumber_iff :
    parseBinary64 t = .error ⟨.noNumber, t⟩ ↔ ∀ n rest, ¬FloatHeads t n rest := by
  rw [← readFloat_eq_none_iff]
  unfold parseBinary64 strictly endingAfter
  cases FloatLiteral.read? t with
  | none => exact ⟨fun _ => rfl, fun _ => rfl⟩
  | some l =>
      simp only
      constructor
      · intro h
        split at h
        · cases h
        · split at h <;> cases h
      · intro h
        cases h

/-- A rounding that does not overflow is finite. -/
theorem Rounded.place_lt_of_not_overflows {r : Rounded} (h : r.overflows = false) :
    r.value.place < infinityPlace := by
  have hle : r.value.place ≤ infinityPlace := placeOf_le _ _
  have hne : r.value.place ≠ infinityPlace := by
    unfold overflows at h
    exact ne_of_beq_false h
  omega

/-- A numeral that passes the range test is infinite or `nan` only if it is spelled so. -/
theorem FloatNumeral.value_of_not_isRejected (h : n.isRejected = false) :
    (n.value.place = infinityPlace ↔ n.isInfinity = true) ∧ n.value.isNaN = n.isNan := by
  have hfinite : ∀ {r : Rounded} {negative : Bool}, r.overflows = false →
      ((r.value.withSign negative).place = infinityPlace ↔ false = true) ∧
        (r.value.withSign negative).isNaN = false := by
    intro r negative hr
    have hlt := Rounded.place_lt_of_not_overflows hr
    unfold isNaN
    rw [Rounded.place_withSign]
    exact ⟨⟨fun h => absurd h (Nat.ne_of_lt hlt), fun h => nomatch h⟩,
      decide_eq_false (Nat.not_lt_of_gt hlt)⟩
  cases n with
  | infinity sign word hword => cases sign <;> exact ⟨⟨fun _ => rfl, fun _ => rfl⟩, rfl⟩
  | nan sign word tag hword htag =>
      have hplace : (Binary64.nan.withSign sign.isMinus).place ≠ infinityPlace := by
        cases sign <;> decide
      exact ⟨⟨fun h => absurd h hplace, fun h => nomatch h⟩, by cases sign <;> rfl⟩
  | hex n => exact hfinite (Bool.or_eq_false_iff.mp h).1
  | decimal n => exact hfinite (Bool.or_eq_false_iff.mp h).1

end Reader

/-- **Floating-point numbers are read as the longest numeral says.** `parseBinary64` answers `noNumber`
    exactly without `FloatHeads`. Any other text has a `LongestFloat`. A number that is out of range is
    rejected whatever follows, which a word never is; otherwise the value of the numeral is given if only
    blanks follow. So an infinite value or one that is no number has been spelled as a word. A mark of an
    exponent without digits, an open tag and a hexadecimal mark without digits are left over, and rejected
    as such. -/
theorem parseBinary64_longest (t : Text) :
    (parseBinary64 t = .error ⟨.noNumber, t⟩ ↔ ∀ n rest, ¬FloatHeads t n rest) ∧
    ((∃ n rest, FloatHeads t n rest) → ∃ n rest, LongestFloat t n rest) ∧
    (∀ n rest, LongestFloat t n rest →
      parseBinary64 t = strictAnswer t rest (n.isRejected = false) n.value ∧
      ∀ v, parseBinary64 t = .ok v →
        (v.place = infinityPlace ↔ n.isInfinity = true) ∧ v.isNaN = n.isNan) ∧
    ∀ n rest, FloatHeads t n rest → n.Unfinished rest → LongestFloat t n rest ∧
      parseBinary64 t = .error ⟨if n.isRejected then .outOfRange else .trailing, t⟩ := by
  refine ⟨parseBinary64_eq_noNumber_iff, fun ⟨n, rest, h⟩ => h.exists_longest, ?_, ?_⟩
  · intro n rest h
    have hparse := parseBinary64_of_longest h
    refine ⟨hparse, fun v hv => ?_⟩
    rw [hparse] at hv
    unfold strictAnswer at hv
    split at hv
    · next hrejected =>
        split at hv
        · cases hv
          exact FloatNumeral.value_of_not_isRejected hrejected
        · cases hv
    · cases hv
  · intro n rest h hunfinished
    have hlongest := h.longest_of_unfinished hunfinished
    refine ⟨hlongest, ?_⟩
    rw [parseBinary64_of_longest hlongest]
    unfold strictAnswer
    rw [hunfinished.all_isBlank]
    cases n.isRejected with
    | false => rfl
    | true => rfl

/-- A word, a number beyond the range of the format, and a zero. -/
def FloatNumeral.shortInfinity : FloatNumeral := .infinity .minus "iNf".toList (.inr rfl)

def FloatNumeral.tooLarge : FloatNumeral := .decimal
  ⟨.none, ⟨"1".toList, none, List.all_eq_true.mp rfl, List.forall_mem_nil _, by decide⟩,
    some ⟨'E', .plus, "400".toList, .inr rfl, List.all_eq_true.mp rfl, by decide⟩⟩

def FloatNumeral.zero : FloatNumeral := .decimal
  ⟨.none, ⟨"0".toList, none, List.all_eq_true.mp rfl, List.forall_mem_nil _, by decide⟩, none⟩

/-- What follows does not save a number that is out of range; and `0x` without digits is `0` with `x` left
    over. -/
theorem parseBinary64_longest_leftover :
    (∀ n rest, ¬FloatHeads "+e5".toList n rest) ∧
    (LongestFloat " -iNf\t".toList .shortInfinity ['\t'] ∧
      parseBinary64 " -iNf\t".toList = .ok ⟨true, infinityPlace, by decide⟩) ∧
    (LongestFloat "1E+400inf".toList .tooLarge "inf".toList ∧
      parseBinary64 "1E+400inf".toList = .error ⟨.outOfRange, "1E+400inf".toList⟩) ∧
    FloatHeads "0x.p1".toList .zero "x.p1".toList ∧ FloatNumeral.zero.Unfinished "x.p1".toList ∧
      parseBinary64 "0x.p1".toList = .error ⟨.trailing, "0x.p1".toList⟩ := by
  have hnone : parseBinary64 "+e5".toList = .error ⟨.noNumber, "+e5".toList⟩ := by decide
  have hword : LongestFloat " -iNf\t".toList .shortInfinity ['\t'] :=
    FloatHeads.longest_of_read ⟨[' '], List.all_eq_true.mp rfl, rfl⟩
      (by decide : _ = some ⟨true, .infinity, ['\t']⟩) rfl
  have hlarge : LongestFloat "1E+400inf".toList .tooLarge "inf".toList :=
    FloatHeads.longest_of_read ⟨[], List.forall_mem_nil _, rfl⟩
      (by decide : _ = some ⟨false, .decimal ⟨['1'], []⟩ 400, "inf".toList⟩) rfl
  have hzero : FloatHeads "0x.p1".toList .zero "x.p1".toList := ⟨[], List.forall_mem_nil _, rfl⟩
  have hunfinished : FloatNumeral.zero.Unfinished "x.p1".toList := by
    refine .mark rfl (.inl rfl) rfl fun u hu => ?_
    obtain ⟨-, rfl⟩ := List.cons.inj hu
    rfl
  obtain ⟨hwordAnswer, -⟩ := (parseBinary64_longest _).2.2.1 _ _ hword
  obtain ⟨hlargeAnswer, -⟩ := (parseBinary64_longest _).2.2.1 _ _ hlarge
  obtain ⟨-, hzeroAnswer⟩ := (parseBinary64_longest _).2.2.2 _ _ hzero hunfinished
  have hrejected : FloatNumeral.tooLarge.isRejected = true := by decide +kernel
  have haccepted : FloatNumeral.zero.isRejected = false := by decide +kernel
  rw [strictAnswer, hrejected] at hlargeAnswer
  rw [haccepted] at hzeroAnswer
  exact ⟨(parseBinary64_longest _).1.mp hnone, ⟨hword, hwordAnswer⟩, ⟨hlarge, hlargeAnswer⟩, hzero,
    hunfinished, hzeroAnswer⟩

end NetKit
