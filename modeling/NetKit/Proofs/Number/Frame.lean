import NetKit.Proofs.Number.FloatPrefix

/-!
# Frames of numbers — blanks and a sign, the same for every syntax

`parseUInt64`, `parseInt64` and `parseBinary64` read in one frame: blanks, a sign, the number, blanks. What stands
in the frame is read by code that has little in common, and the sign takes effect in different places. Still the
frame acts alike on all of it, and on texts that are no number, or too large a one, or one with something behind it.

Two facts carry this. No numeral has a blank in it, so blanks behind a text make no numeral longer, and what is
left over is left over with the blanks behind it (`IntegerHeads.append_blanks_iff`, `FloatHeads.append_blanks_iff`).
And blanks and a sign are taken before anything else is looked at (`takeSign_framed`).

## Contents
- `exists_rest_of_blanks`, `FloatNumeral.isBlank_eq_false`: numerals and blanks.
- `readInteger_append_blanks`, `readFloat_append_blanks`: blanks behind a text.
- `Unframed`, `readInteger_framed`, `readFloat_framed`: a text in a frame.
- `outcome`, `judged`: what a strict reader comes to.
- `ReadsSame`, `ReadsOpposite`, `ReadsAs`: the sign.
- `parse_framed`: the strict readers in a frame.
-/

namespace NetKit

/-! ## No numeral has a blank in it -/

/-- What is blank and has no blank is empty. -/
theorem eq_nil_of_blanks {extra : Text} (hblank : ∀ c ∈ extra, isBlank c = true)
    (hnone : ∀ c ∈ extra, isBlank c = false) : extra = [] := by
  apply List.eq_nil_iff_forall_not_mem.mpr
  intro c hc
  have hno := hnone c hc
  rw [hblank c hc] at hno
  cases hno

/-- A part without a blank that stands in `t ++ after`, with `after` blank, stands in `t`. -/
theorem exists_rest_of_blanks {start body rest t after : Text} (hsome : body ≠ [])
    (hbody : ∀ c ∈ body, isBlank c = false) (hafter : ∀ c ∈ after, isBlank c = true)
    (h : t ++ after = start ++ (body ++ rest)) :
    ∃ rest', rest = rest' ++ after ∧ t = start ++ (body ++ rest') := by
  rw [← List.append_assoc] at h
  rcases List.append_eq_append_iff.mp h with ⟨extra, hstart, rfl⟩ | ⟨rest', rfl, rfl⟩
  · have hextra : ∀ c ∈ extra, isBlank c = true := (List.forall_mem_append.mp hafter).1
    -- blanks reach neither over a part of the numeral nor over all of it
    rcases List.append_eq_append_iff.mp hstart with ⟨part, rfl, rfl⟩ | ⟨part, rfl, rfl⟩
    · obtain rfl := eq_nil_of_blanks hextra (List.forall_mem_append.mp hbody).2
      exact ⟨[], rfl, by simp only [List.append_nil]⟩
    · exact absurd (eq_nil_of_blanks (List.forall_mem_append.mp hextra).2 hbody) hsome
  · exact ⟨rest', rfl, List.append_assoc ..⟩

theorem isBlank_eq_false_of_map_toLower {word letters : Text} (h : word.map Char.toLower = letters)
    (hletters : letters.any isBlank = false) : ∀ c ∈ word, isBlank c = false := by
  intro c hc
  apply Bool.eq_false_iff.mpr
  intro hblank
  have hmem : c.toLower ∈ letters := h ▸ List.mem_map_of_mem hc
  rw [toLower_of_isBlank hblank] at hmem
  exact List.any_eq_false.mp hletters c hmem hblank

theorem isBlank_eq_false_of_isTagChar {c : Char} (h : isTagChar c = true) : isBlank c = false := by
  apply Bool.eq_false_iff.mpr
  intro hblank
  rcases isBlank_iff.mp hblank with rfl | rfl | rfl | rfl | rfl | rfl <;> exact absurd h (by decide)

section Numerals

variable {radix : Nat} {marker : Char} {c : Char}

theorem NumeralMantissa.isBlank_eq_false {m : NumeralMantissa radix} (hradix : radix ≤ 16)
    (hc : c ∈ m.text) : isBlank c = false := by
  rcases NumeralMantissa.mem_text hc with hdigit | rfl
  · exact isBlank_eq_false_of_isDigit (isDigit_mono hradix hdigit)
  · decide

theorem NumeralExponent.isBlank_eq_false {x : NumeralExponent marker}
    (hmarker : isBlank marker = false ∧ isBlank marker.toUpper = false) (hc : c ∈ x.text) :
    isBlank c = false := by
  rcases NumeralExponent.mem_text hc with (rfl | rfl) | (rfl | rfl) | hdigit
  · exact hmarker.1
  · exact hmarker.2
  · decide
  · decide
  · exact isBlank_eq_false_of_isDigit (isDigit_mono (by decide) hdigit)

/-- A mantissa and its exponent have no blank. -/
theorem isBlank_eq_false_of_scaled {m : NumeralMantissa radix} {x : Option (NumeralExponent marker)}
    (hradix : radix ≤ 16) (hmarker : isBlank marker = false ∧ isBlank marker.toUpper = false)
    (hc : c ∈ m.text ++ x.elim [] NumeralExponent.text) : isBlank c = false := by
  rcases List.mem_append.mp hc with hc | hc
  · exact NumeralMantissa.isBlank_eq_false hradix hc
  · cases x with
    | none => cases hc
    | some x => exact NumeralExponent.isBlank_eq_false hmarker hc

end Numerals

/-- **No numeral has a blank in it.** -/
theorem FloatNumeral.isBlank_eq_false (n : FloatNumeral) : ∀ c ∈ n.body, isBlank c = false := by
  cases n with
  | infinity sign word hword =>
      rcases hword with hword | hword <;>
        exact isBlank_eq_false_of_map_toLower hword rfl
  | nan sign word tag hword htag =>
      intro c hc
      rcases List.mem_append.mp hc with hc | hc
      · exact isBlank_eq_false_of_map_toLower hword rfl c hc
      · cases tag with
        | none => cases hc
        | some tag =>
            rcases List.mem_cons.mp hc with rfl | hc
            · decide
            · rcases List.mem_append.mp hc with hc | hc
              · exact isBlank_eq_false_of_isTagChar (htag c hc)
              · rw [List.mem_singleton.mp hc]
                decide
  | hex n =>
      intro c hc
      rcases List.mem_cons.mp hc with rfl | hc
      · decide
      · rcases List.mem_cons.mp hc with rfl | hc
        · rcases n.mark_eq with h | h <;> rw [h] <;> decide
        · exact isBlank_eq_false_of_scaled (by decide) (by decide) hc
  | decimal n =>
      intro c hc
      exact isBlank_eq_false_of_scaled (by decide) (by decide) hc

/-! ## Blanks behind a text -/

section Behind

variable {t after rest : Text} {sign : NumeralSign} {magnitude : Nat}

/-- `IntegerHeads` of a text are those of the text with blanks behind it. -/
theorem IntegerHeads.append_blanks_iff (hafter : ∀ c ∈ after, isBlank c = true) :
    IntegerHeads (t ++ after) sign magnitude rest ↔
      ∃ rest', rest = rest' ++ after ∧ IntegerHeads t sign magnitude rest' := by
  constructor
  · rintro ⟨blanks, digits, hblanks, hdigits, htext⟩
    obtain ⟨c, ds, rfl, -⟩ := hdigits.exists_cons
    rw [← List.append_assoc blanks] at htext
    obtain ⟨rest', rfl, rfl⟩ := exists_rest_of_blanks (List.cons_ne_nil _ _)
      (fun _ => hdigits.isBlank_eq_false) hafter htext
    exact ⟨rest', rfl, blanks, _, hblanks, hdigits, List.append_assoc ..⟩
  · rintro ⟨rest', rfl, blanks, digits, hblanks, hdigits, rfl⟩
    exact ⟨blanks, digits, hblanks, hdigits, by simp only [List.append_assoc]⟩

theorem LongestInteger.append_blanks (hafter : ∀ c ∈ after, isBlank c = true)
    (h : LongestInteger t sign magnitude rest) : LongestInteger (t ++ after) sign magnitude (rest ++ after) := by
  refine ⟨(IntegerHeads.append_blanks_iff hafter).mpr ⟨rest, rfl, h.heads⟩, ?_⟩
  intro sign' magnitude' rest' hheads
  obtain ⟨rest', rfl, hheads'⟩ := (IntegerHeads.append_blanks_iff hafter).mp hheads
  rw [List.length_append, List.length_append]
  exact Nat.add_le_add_right (h.longest _ _ _ hheads') _

/-- **`IntegerLiteral.read?` leaves blanks behind a text over** with what it leaves over anyway, and nothing
    else changes. -/
theorem readInteger_append_blanks (hafter : ∀ c ∈ after, isBlank c = true) :
    IntegerLiteral.read? (t ++ after) =
      (IntegerLiteral.read? t).map fun l => { l with rest := l.rest ++ after } := by
  cases hread : IntegerLiteral.read? t with
  | none =>
      apply readInteger_eq_none_iff.mpr
      intro sign magnitude rest hheads
      obtain ⟨rest', -, hheads⟩ := (IntegerHeads.append_blanks_iff hafter).mp hheads
      exact readInteger_eq_none_iff.mp hread _ _ _ hheads
  | some l =>
      obtain ⟨sign, hlongest, hnegative⟩ := longest_of_readInteger hread
      rw [readInteger_of_longest (hlongest.append_blanks hafter), ← hnegative]
      rfl

theorem FloatHeads.append_blanks_iff {n : FloatNumeral} (hafter : ∀ c ∈ after, isBlank c = true) :
    FloatHeads (t ++ after) n rest ↔ ∃ rest', rest = rest' ++ after ∧ FloatHeads t n rest' := by
  constructor
  · rintro ⟨blanks, hblanks, htext⟩
    have hsome : n.body ≠ [] := by
      obtain ⟨c, tail, hbody, -⟩ := n.exists_body_cons
      exact hbody ▸ List.cons_ne_nil _ _
    unfold FloatNumeral.text at htext
    rw [List.append_assoc, ← List.append_assoc blanks] at htext
    obtain ⟨rest', rfl, rfl⟩ := exists_rest_of_blanks hsome n.isBlank_eq_false hafter htext
    exact ⟨rest', rfl, blanks, hblanks, by unfold FloatNumeral.text; simp only [List.append_assoc]⟩
  · rintro ⟨rest', rfl, blanks, hblanks, rfl⟩
    exact ⟨blanks, hblanks, by simp only [List.append_assoc]⟩

theorem LongestFloat.append_blanks {n : FloatNumeral} (hafter : ∀ c ∈ after, isBlank c = true)
    (h : LongestFloat t n rest) : LongestFloat (t ++ after) n (rest ++ after) := by
  refine ⟨(FloatHeads.append_blanks_iff hafter).mpr ⟨rest, rfl, h.heads⟩, ?_⟩
  intro n' rest' hheads
  obtain ⟨rest', rfl, hheads'⟩ := (FloatHeads.append_blanks_iff hafter).mp hheads
  rw [List.length_append, List.length_append]
  exact Nat.add_le_add_right (h.longest _ _ hheads') _

theorem readFloat_append_blanks (hafter : ∀ c ∈ after, isBlank c = true) :
    FloatLiteral.read? (t ++ after) =
      (FloatLiteral.read? t).map fun l => { l with rest := l.rest ++ after } := by
  cases hread : FloatLiteral.read? t with
  | none =>
      apply readFloat_eq_none_iff.mpr
      intro n rest hheads
      obtain ⟨rest', -, hheads⟩ := (FloatHeads.append_blanks_iff hafter).mp hheads
      exact readFloat_eq_none_iff.mp hread _ _ hheads
  | some l =>
      obtain ⟨n, hheads⟩ := exists_heads_of_readFloat hread
      obtain ⟨n, rest, hlongest⟩ := hheads.exists_longest
      rw [readFloat_of_longest hlongest] at hread
      cases hread
      exact readFloat_of_longest (hlongest.append_blanks hafter)

end Behind

/-! ## A text in a frame -/

/-- `t` starts with no blank and no sign. -/
def Unframed (t : Text) : Prop := ∀ c, t.head? = some c → isBlank c = false ∧ c ≠ '-' ∧ c ≠ '+'

section Framed

variable {before t after : Text}

/-- `skipBlanks` and `takeSign` take the frame off an `Unframed` text. -/
theorem takeSign_framed (hbefore : ∀ c ∈ before, isBlank c = true) (sign : NumeralSign) (ht : Unframed t) :
    takeSign (skipBlanks (before ++ (sign.text ++ t))) = (sign.isMinus, t) := by
  rw [skipBlanks_append hbefore]
  cases t with
  | nil => cases sign <;> rfl
  | cons c t =>
      obtain ⟨hblank, hminus, hplus⟩ := ht c rfl
      rw [sign.skipBlanks_text hblank, sign.takeSign_text hminus hplus]

theorem takeSign_unframed (ht : Unframed t) : takeSign (skipBlanks t) = (false, t) :=
  takeSign_framed (List.forall_mem_nil _) .none ht

/-- `IntegerLiteral.read?` reads a framed text as the text, with the sign and the rest of the frame. -/
theorem readInteger_framed (hbefore : ∀ c ∈ before, isBlank c = true)
    (hafter : ∀ c ∈ after, isBlank c = true) (sign : NumeralSign) (ht : Unframed t) :
    IntegerLiteral.read? (before ++ (sign.text ++ (t ++ after))) =
      (IntegerLiteral.read? t).map fun l => ⟨sign.isMinus, l.magnitude, l.rest ++ after⟩ := by
  have hfront : IntegerLiteral.read? (before ++ (sign.text ++ t)) =
      (IntegerLiteral.read? t).map fun l => { l with negative := sign.isMinus } := by
    unfold IntegerLiteral.read?
    rw [takeSign_framed hbefore sign ht, takeSign_unframed ht]
    simp only
    split <;> rfl
  rw [← List.append_assoc, ← List.append_assoc, List.append_assoc before,
    readInteger_append_blanks hafter, hfront, Option.map_map]
  rfl

/-- `FloatLiteral.read?` reads a framed text as the text, with the sign and the rest of the frame. -/
theorem readFloat_framed (hbefore : ∀ c ∈ before, isBlank c = true)
    (hafter : ∀ c ∈ after, isBlank c = true) (sign : NumeralSign) (ht : Unframed t) :
    FloatLiteral.read? (before ++ (sign.text ++ (t ++ after))) =
      (FloatLiteral.read? t).map fun l => ⟨sign.isMinus, l.form, l.rest ++ after⟩ := by
  have hfront : FloatLiteral.read? (before ++ (sign.text ++ t)) =
      (FloatLiteral.read? t).map fun l => { l with negative := sign.isMinus } := by
    unfold FloatLiteral.read?
    rw [takeSign_framed hbefore sign ht, takeSign_unframed ht, Option.map_map]
    rfl
  rw [← List.append_assoc, ← List.append_assoc, List.append_assoc before,
    readFloat_append_blanks hafter, hfront, Option.map_map]
  rfl

end Framed

/-! ## The strict readers -/

/-- The answer of a strict reader without the text that an error keeps. -/
def outcome {α : Type} (result : Except NumberError α) : Except NumberFault α :=
  result.mapError NumberError.fault

theorem outcome_eq_ok_iff {α : Type} {result : Except NumberError α} {value : α} :
    outcome result = .ok value ↔ result = .ok value := by
  cases result with
  | error e => simp [outcome, Except.mapError]
  | ok v => simp [outcome, Except.mapError]

/-- The `outcome` for a literal: whether it `fits` its type is asked first, whether `rest` is blank second. -/
def judged {α : Type} (fits : Prop) [Decidable fits] (rest : Text) (value : α) : Except NumberFault α :=
  if fits then if rest.all isBlank then .ok value else .error .trailing else .error .outOfRange

section Judged

variable {α β : Type} {fits : Prop} [Decidable fits] {rest after : Text} {value : α}

theorem judged_append_blanks (hafter : ∀ c ∈ after, isBlank c = true) :
    judged fits (rest ++ after) value = judged fits rest value := by
  unfold judged
  rw [List.all_append, List.all_eq_true.mpr hafter, Bool.and_true]

theorem map_judged (f : α → β) : (judged fits rest value).map f = judged fits rest (f value) := by
  unfold judged
  split
  · split <;> rfl
  · rfl

theorem judged_eq_ok {value' : α} (h : judged fits rest value = .ok value') : fits ∧ value = value' := by
  unfold judged at h
  split at h
  · next hfits =>
      split at h
      · cases h; exact ⟨hfits, rfl⟩
      · cases h
  · cases h

theorem judged_ne_outOfRange (h : judged fits rest value ≠ .error .outOfRange) : fits := by
  by_contra hnot
  exact h (if_neg hnot)

/-- `judged` depends on `rest` alone for what fits. -/
theorem judged_of_fits {fits' : Prop} [Decidable fits'] (h : fits) (h' : fits') :
    judged fits rest value = judged fits' rest value := by
  unfold judged
  rw [if_pos h, if_pos h']

end Judged

section Outcome

variable {t : Text}

theorem outcome_endingAfter {α : Type} (rest : Text) (value : α) :
    outcome (endingAfter t rest value) = if rest.all isBlank then .ok value else .error .trailing := by
  unfold endingAfter
  split <;> rfl

/-- The `outcome` of `strictly` is `judged` of the literal. -/
theorem outcome_strictly {ω α : Type} {literal : Option ω} {outside fits : ω → Prop} [DecidablePred outside]
    [DecidablePred fits] {rest : ω → Text} {value : ω → α} (hfits : ∀ l, outside l ↔ ¬fits l) :
    outcome (strictly t literal outside rest value) =
      literal.elim (.error .noNumber) fun l => judged (fits l) (rest l) (value l) := by
  unfold strictly judged
  cases literal with
  | none => rfl
  | some l =>
      by_cases hl : fits l
      · have hinside : ¬outside l := fun houtside => (hfits l).mp houtside hl
        simp only [if_neg hinside, Option.elim_some, if_pos hl, outcome_endingAfter]
      · simp only [if_pos ((hfits l).mpr hl), Option.elim_some, if_neg hl]
        rfl

theorem outcome_parseUInt64 : outcome (parseUInt64 t) = (IntegerLiteral.read? t).elim (.error .noNumber)
    fun l => judged (l.magnitude < UInt64.size) l.rest (UInt64.ofInt l.value) :=
  outcome_strictly fun _ => Nat.not_lt.symm

theorem outcome_parseInt64 : outcome (parseInt64 t) = (IntegerLiteral.read? t).elim (.error .noNumber)
    fun l => judged (-2 ^ 63 ≤ l.value ∧ l.value < 2 ^ 63) l.rest (Int64.ofInt l.value) := by
  apply outcome_strictly
  intro l
  rw [Int64.toInt_minValue, Int64.toInt_maxValue]
  omega

theorem outcome_parseBinary64 : outcome (parseBinary64 t) = (FloatLiteral.read? t).elim (.error .noNumber)
    fun l => judged (l.form.isOutOfRange = false) l.rest l.value :=
  outcome_strictly fun l => (Bool.not_eq_false l.form.isOutOfRange).symm.to_iff

end Outcome

/-- `t` and `u` have the same `outcome` for all readers. -/
structure ReadsSame (t u : Text) : Prop where
  unsigned : outcome (parseUInt64 u) = outcome (parseUInt64 t)
  signed : outcome (parseInt64 u) = outcome (parseInt64 t)
  float : outcome (parseBinary64 u) = outcome (parseBinary64 t)

/-- All readers take `u` for the negative of `t`, or refuse both for the same fault. Words are negated
    modulo `2 ^ 64`; a `Binary64` has its sign reversed, and `nan` stays so. That `t` is out of range as an
    `Int64` says nothing of `u`, as there is one number more below zero than above. -/
structure ReadsOpposite (t u : Text) : Prop where
  unsigned : outcome (parseUInt64 u) = (outcome (parseUInt64 t)).map fun n => -n
  signed : outcome (parseInt64 t) ≠ .error .outOfRange →
    outcome (parseInt64 u) = (outcome (parseInt64 t)).map fun n => -n
  toInt_neg : ∀ n, parseInt64 t = .ok n → (-n).toInt = -n.toInt
  float : outcome (parseBinary64 u) = (outcome (parseBinary64 t)).map Binary64.neg
  nan : ∀ x, parseBinary64 t = .ok x → x.isNaN = true → ∃ y, parseBinary64 u = .ok y ∧ y.isNaN = true

/-! ### Signs -/

/-- The outcomes for a text in which `integer` and `float` were read behind `sign`, or nothing was. -/
structure ReadsAs (u : Text) (sign : NumeralSign) (integer : Option IntegerLiteral)
    (float : Option FloatLiteral) : Prop where
  unsigned : outcome (parseUInt64 u) = integer.elim (.error .noNumber) fun l =>
    judged (l.magnitude < UInt64.size) l.rest (UInt64.ofInt (sign.apply l.magnitude))
  signed : outcome (parseInt64 u) = integer.elim (.error .noNumber) fun l =>
    judged (-2 ^ 63 ≤ sign.apply l.magnitude ∧ sign.apply l.magnitude < 2 ^ 63) l.rest
      (Int64.ofInt (sign.apply l.magnitude))
  float : outcome (parseBinary64 u) = float.elim (.error .noNumber) fun l =>
    judged (l.form.isOutOfRange = false) l.rest (l.form.value.withSign sign.isMinus)

section Signs

variable {t u : Text} {sign : NumeralSign} {integer : Option IntegerLiteral} {float : Option FloatLiteral}

theorem NumeralSign.apply_of_not_isMinus (hsign : sign.isMinus = false) (magnitude : Nat) :
    sign.apply magnitude = NumeralSign.none.apply magnitude := by
  unfold apply
  rw [hsign]
  rfl

theorem NumeralSign.apply_none (magnitude : Nat) : NumeralSign.none.apply magnitude = magnitude := rfl

/-- A sign other than minus changes no outcome. -/
theorem ReadsAs.same (h : ReadsAs t .none integer float) (h' : ReadsAs u sign integer float)
    (hsign : sign.isMinus = false) : ReadsSame t u where
  unsigned := by
    rw [h.unsigned, h'.unsigned]
    simp only [NumeralSign.apply_of_not_isMinus hsign]
  signed := by
    rw [h.signed, h'.signed]
    simp only [NumeralSign.apply_of_not_isMinus hsign]
  float := by
    rw [h.float, h'.float, hsign]
    rfl

/-- A minus sign negates. -/
theorem ReadsAs.opposite (h : ReadsAs t .none integer float) (h' : ReadsAs u .minus integer float) :
    ReadsOpposite t u := by
  have hfloat : outcome (parseBinary64 u) = (outcome (parseBinary64 t)).map Binary64.neg := by
    rw [h.float, h'.float]
    cases float with
    | none => rfl
    | some l => exact (map_judged Binary64.neg).symm
  constructor
  case unsigned =>
    rw [h.unsigned, h'.unsigned]
    cases integer with
    | none => rfl
    | some l =>
        rw [Option.elim_some, Option.elim_some, map_judged, NumeralSign.apply_minus, NumeralSign.apply_none,
          UInt64.ofInt_neg]
  case signed =>
    intro hrange
    rw [h.signed] at hrange
    rw [h.signed, h'.signed]
    cases integer with
    | none => rfl
    | some l =>
        rw [Option.elim_some] at hrange
        have hfits := judged_ne_outOfRange hrange
        -- the negative of a number that fits has room to spare
        have hfits' : -2 ^ 63 ≤ NumeralSign.minus.apply l.magnitude ∧
            NumeralSign.minus.apply l.magnitude < 2 ^ 63 := by
          rw [NumeralSign.apply_minus]
          rw [NumeralSign.apply_none] at hfits
          omega
        rw [Option.elim_some, Option.elim_some, map_judged, judged_of_fits hfits' hfits,
          NumeralSign.apply_minus, NumeralSign.apply_none, Int64.ofInt_neg]
  case toInt_neg =>
    intro n hn
    rw [← outcome_eq_ok_iff, h.signed] at hn
    cases integer with
    | none => cases hn
    | some l =>
        rw [Option.elim_some] at hn
        obtain ⟨hfits, rfl⟩ := judged_eq_ok hn
        rw [NumeralSign.apply_none] at hfits ⊢
        rw [← Int64.ofInt_neg, Int64.toInt_ofInt_of_le (by omega) (by omega),
          Int64.toInt_ofInt_of_le (by omega) (by omega)]
  case float => exact hfloat
  case nan =>
    intro x hx hnan
    rw [outcome_eq_ok_iff.mpr hx] at hfloat
    exact ⟨x.neg, outcome_eq_ok_iff.mp hfloat, hnan⟩

end Signs

/-! ### Frames -/

section Frames

variable {before t after : Text}

/-- What was read of `t` decides everything but the sign, in whichever frame `t` stands. -/
theorem readsAs_framed (hbefore : ∀ c ∈ before, isBlank c = true) (hafter : ∀ c ∈ after, isBlank c = true)
    (sign : NumeralSign) (ht : Unframed t) : ReadsAs (before ++ (sign.text ++ (t ++ after))) sign
      (IntegerLiteral.read? t) (FloatLiteral.read? t) where
  unsigned := by
    rw [outcome_parseUInt64, readInteger_framed hbefore hafter sign ht]
    cases IntegerLiteral.read? t with
    | none => rfl
    | some l => exact judged_append_blanks hafter
  signed := by
    rw [outcome_parseInt64, readInteger_framed hbefore hafter sign ht]
    cases IntegerLiteral.read? t with
    | none => rfl
    | some l => exact judged_append_blanks hafter
  float := by
    rw [outcome_parseBinary64, readFloat_framed hbefore hafter sign ht]
    cases FloatLiteral.read? t with
    | none => rfl
    | some l => exact judged_append_blanks hafter

/-- An `Unframed` text stands in an empty frame. -/
theorem readsAs_unframed (ht : Unframed t) :
    ReadsAs t .none (IntegerLiteral.read? t) (FloatLiteral.read? t) := by
  have hframe : [] ++ (NumeralSign.none.text ++ (t ++ [])) = t := List.append_nil t
  have h := readsAs_framed (List.forall_mem_nil _) (List.forall_mem_nil _) .none ht
  rwa [hframe] at h

/-- **Blanks and a sign act alike on every number syntax.** An `Unframed` text `ReadsSame` with blanks
    around it, and with a plus sign before it; with a minus sign it `ReadsOpposite`. If it is no number, or
    too large a one, or not all of one, it is so in the frame as well. -/
theorem parse_framed (hbefore : ∀ c ∈ before, isBlank c = true) (hafter : ∀ c ∈ after, isBlank c = true)
    (ht : Unframed t) :
    ReadsSame t (before ++ (t ++ after)) ∧ ReadsSame t (before ++ '+' :: (t ++ after)) ∧
      ReadsOpposite t (before ++ '-' :: (t ++ after)) :=
  ⟨(readsAs_unframed ht).same (readsAs_framed hbefore hafter .none ht) rfl,
    (readsAs_unframed ht).same (readsAs_framed hbefore hafter .plus ht) rfl,
    (readsAs_unframed ht).opposite (readsAs_framed hbefore hafter .minus ht)⟩

/-- The negative of a hexadecimal number, of what is not a number, and a word with a tag that is not closed. -/
theorem parse_framed_minus :
    (Unframed "0x10".toList ∧ parseUInt64 "\t-0x10\n".toList = .ok 0xfffffffffffffff0 ∧
      parseInt64 "\t-0x10\n".toList = .ok (-16)) ∧
    (Unframed "nan".toList ∧ parseBinary64 "\t-nan\n".toList = .ok Binary64.nan.neg) ∧
    Unframed "nan(1".toList ∧ outcome (parseBinary64 "\t+nan(1\n".toList) = .error .trailing := by
  have hbefore : ∀ c ∈ "\t".toList, isBlank c = true := List.all_eq_true.mp rfl
  have hafter : ∀ c ∈ "\n".toList, isBlank c = true := List.all_eq_true.mp rfl
  have hhead : ∀ {c : Char} {t : Text}, (isBlank c = false ∧ c ≠ '-' ∧ c ≠ '+') → Unframed (c :: t) := by
    rintro c t h d hd
    exact Option.some.inj hd ▸ h
  have hnumber : Unframed "0x10".toList := hhead (by decide)
  have hword : Unframed "nan".toList := hhead (by decide)
  have hopen : Unframed "nan(1".toList := hhead (by decide)
  have hunsigned : outcome (parseUInt64 "0x10".toList) = .ok 16 := by rfl
  have hsigned : outcome (parseInt64 "0x10".toList) = .ok 16 := by rfl
  have hnan : outcome (parseBinary64 "nan".toList) = .ok Binary64.nan := by rfl
  have htrailing : outcome (parseBinary64 "nan(1".toList) = .error .trailing := by rfl
  obtain ⟨-, -, hnegative⟩ := parse_framed hbefore hafter hnumber
  obtain ⟨-, -, hnegativeWord⟩ := parse_framed hbefore hafter hword
  obtain ⟨-, hplus, -⟩ := parse_framed hbefore hafter hopen
  have hrange : outcome (parseInt64 "0x10".toList) ≠ .error .outOfRange := by
    rw [hsigned]
    exact fun h => nomatch h
  exact ⟨⟨hnumber, outcome_eq_ok_iff.mp (hnegative.unsigned.trans (congrArg _ hunsigned)),
      outcome_eq_ok_iff.mp ((hnegative.signed hrange).trans (congrArg _ hsigned))⟩,
    ⟨hword, outcome_eq_ok_iff.mp (hnegativeWord.float.trans (congrArg _ hnan))⟩,
    hopen, hplus.float.trans htrailing⟩

end Frames

end NetKit
