import Mathlib.Logic.Function.Basic
import NetKit.Text.Escape

/-!
# Quoting — escaped text is printable, and shows by itself where it ends

`escapeByte` has one of three forms (`EscapedAs`), which begin differently: a backslash and a letter of
the table, `\x` and two digits, or a character that is neither a backslash nor a double quote. So
`unescape?` always knows which of them it reads, and the first double quote it finds outside an escape
is the one that closes the text. What stands behind that quote is never looked at.

All statements are about bytes, since a character outside ASCII is escaped byte by byte. They carry over
to texts because a text is determined by its UTF-8 bytes (`Text.utf8_injective`).

## Contents
- `Text.Printable`: one line of printable ASCII, as a property of texts.
- `EscapedAs`, `escapedAs_escapeByte`: the ways to escape a byte.
- `escape_printable`: what escaped text consists of.
- `unescape?_escape`, `escape_append_quote`: decoding, and that it leaves no choice.
- `escape_selfDelimiting`: all of it.
-/

namespace NetKit

/-! ## Printable text -/

/-- One line of printable ASCII: every character is between the space and `~`. -/
def Text.Printable (t : Text) : Prop := ∀ c ∈ t, ' ' ≤ c ∧ c ≤ '~'

theorem Text.all_printable_iff (t : Text) :
    (t.all fun c => decide (' ' ≤ c) && decide (c ≤ '~')) = true ↔ t.Printable := by
  simp [Printable]

-- A loop over the characters is evaluated in less depth than a quantifier over them.
instance (t : Text) : Decidable t.Printable := decidable_of_iff _ t.all_printable_iff

namespace Text

theorem printable_append {t u : Text} : Printable (t ++ u) ↔ Printable t ∧ Printable u :=
  List.forall_mem_append

theorem printable_cons {c : Char} {t : Text} :
    Printable (c :: t) ↔ (' ' ≤ c ∧ c ≤ '~') ∧ Printable t :=
  List.forall_mem_cons

theorem printable_nil : Printable [] := List.forall_mem_nil _

/-- `utf8` is injective. -/
theorem utf8_injective : Function.Injective utf8 := by
  intro t u h
  have hencoded : List.utf8Encode t = List.utf8Encode u := congrArg List.toByteArray h
  have hdecoded : some t.toArray = some u.toArray := by
    rw [← List.utf8Decode?_utf8Encode, hencoded, List.utf8Decode?_utf8Encode]
  simpa using hdecoded

end Text

/-! ## The ways to escape a byte -/

/-- The three forms of an escaped byte. -/
inductive EscapedAs (b : UInt8) : Text → Prop where
  | letter {c : Char} (hletter : escapeLetter? b = some c) : EscapedAs b ['\\', c]
  | plain (hletter : escapeLetter? b = none) (hprintable : isPrintable b = true) :
      EscapedAs b [Char.ofNat b.toNat]
  | hex (hletter : escapeLetter? b = none) : EscapedAs b ('\\' :: 'x' :: hexPair b)

theorem escapedAs_escapeByte (b : UInt8) : EscapedAs b (escapeByte b) := by
  unfold escapeByte
  split
  · next c hletter => exact .letter hletter
  · next hletter =>
      split
      · next hprintable => exact .plain hletter hprintable
      · exact .hex hletter

/-- `unescapeLetter?` inverts `escapeLetter?`. -/
theorem escapeLetter?_eq_some_iff {b : UInt8} {c : Char} :
    escapeLetter? b = some c ↔ unescapeLetter? c = some b := by
  unfold escapeLetter? unescapeLetter?
  constructor
  · intro h
    split at h <;> cases h <;> rfl
  · intro h
    split at h <;> cases h <;> rfl

/-- No letter of the table is the `x` of `\xNN`, and all are printable. -/
theorem letter_of_escapeLetter? {b : UInt8} {c : Char} (h : escapeLetter? b = some c) :
    c ≠ 'x' ∧ ' ' ≤ c ∧ c ≤ '~' := by
  unfold escapeLetter? at h
  split at h <;> cases h <;> decide

theorem toNat_ofNat_byte (b : UInt8) : (Char.ofNat b.toNat).toNat = b.toNat := by
  have hvalid : b.toNat.isValidChar := Or.inl (Nat.lt_trans b.toNat_lt (by decide))
  unfold Char.ofNat
  rw [dif_pos hvalid]
  rfl

/-- A byte that stands for itself is neither `"` nor a backslash. -/
theorem plain_ne {b : UInt8} (hletter : escapeLetter? b = none) :
    Char.ofNat b.toNat ≠ '"' ∧ Char.ofNat b.toNat ≠ '\\' := by
  have hbyte : ∀ c : Char, Char.ofNat b.toNat = c → b = UInt8.ofNat c.toNat := by
    intro c hc
    rw [← hc, toNat_ofNat_byte, UInt8.ofNat_toNat]
  constructor
  · intro hquote
    rw [hbyte _ hquote] at hletter
    cases hletter
  · intro hbackslash
    rw [hbyte _ hbackslash] at hletter
    cases hletter

/-! ## What escaped text consists of -/

theorem digitChar_printable {d : Nat} (hd : d < 16) :
    ' ' ≤ Nat.digitChar d ∧ Nat.digitChar d ≤ '~' := by
  have hall : ∀ d < 16, ' ' ≤ Nat.digitChar d ∧ Nat.digitChar d ≤ '~' := by decide
  exact hall d hd

theorem plain_printable {b : UInt8} (h : isPrintable b = true) :
    ' ' ≤ Char.ofNat b.toNat ∧ Char.ofNat b.toNat ≤ '~' := by
  unfold isPrintable at h
  rw [Bool.and_eq_true, decide_eq_true_eq, decide_eq_true_eq] at h
  have hlow : ' '.toNat ≤ (Char.ofNat b.toNat).toNat := by rw [toNat_ofNat_byte]; exact h.1
  have hhigh : (Char.ofNat b.toNat).toNat ≤ '~'.toNat := by rw [toNat_ofNat_byte]; exact h.2
  exact ⟨hlow, hhigh⟩

theorem EscapedAs.printable {b : UInt8} {shown : Text} (h : EscapedAs b shown) : shown.Printable := by
  have hb := b.toNat_lt
  cases h with
  | letter hletter =>
      simp only [Text.printable_cons, Text.printable_nil, and_true]
      exact ⟨by decide, (letter_of_escapeLetter? hletter).2⟩
  | plain _ hprintable =>
      simp only [Text.printable_cons, Text.printable_nil, and_true]
      exact plain_printable hprintable
  | hex =>
      simp only [hexPair, Text.printable_cons, Text.printable_nil, and_true]
      exact ⟨by decide, by decide, digitChar_printable (by omega), digitChar_printable (by omega)⟩

/-- **`escape` gives one line of printable ASCII.** -/
theorem escape_printable (t : Text) : (escape t).Printable := by
  intro c hc
  obtain ⟨b, -, hmem⟩ := List.mem_flatMap.mp hc
  exact (escapedAs_escapeByte b).printable c hmem

/-! ## Decoding -/

theorem hexDigit?_digitChar {d : Nat} (hd : d < 16) : hexDigit? (Nat.digitChar d) = some d := by
  have hall : ∀ d < 16, hexDigit? (Nat.digitChar d) = some d := by decide
  exact hall d hd

/-- `unescape?` takes an escaped byte for that byte, whatever follows. -/
theorem EscapedAs.unescape?_append {b : UInt8} {shown : Text} (h : EscapedAs b shown) (rest : Text) :
    unescape? (shown ++ rest) = (unescape? rest).map fun (bs, after) => (b :: bs, after) := by
  have hb := b.toNat_lt
  cases h with
  | @letter c hletter =>
      have hx : ∀ (h l : Char) (rest' : List Char), c = 'x' → rest = h :: l :: rest' → False := by
        intro _ _ _ hc _
        exact (letter_of_escapeLetter? hletter).1 hc
      show unescape? ('\\' :: c :: rest) = _
      rw [unescape?.eq_4 c rest hx, escapeLetter?_eq_some_iff.mp hletter]
  | plain hletter =>
      obtain ⟨hquote, hbackslash⟩ := plain_ne hletter
      show unescape? (Char.ofNat b.toNat :: rest) = _
      rw [unescape?.eq_5 _ rest hquote (fun _ _ _ hc _ => hbackslash hc)
        (fun _ _ hc _ => hbackslash hc), toNat_ofNat_byte, if_pos hb, UInt8.ofNat_toNat]
  | hex =>
      have hvalue : b.toNat / 16 * 16 + b.toNat % 16 = b.toNat := by omega
      show unescape? ('\\' :: 'x' :: Nat.digitChar (b.toNat / 16) ::
        Nat.digitChar (b.toNat % 16) :: rest) = _
      rw [unescape?.eq_3, hexDigit?_digitChar (by omega), hexDigit?_digitChar (by omega)]
      simp only [hvalue, UInt8.ofNat_toNat]

/-- **`unescape?` finds the closing quote and recovers the bytes.** -/
theorem unescape?_escape (t rest : Text) :
    unescape? (escape t ++ '"' :: rest) = some (t.utf8, rest) := by
  unfold escape
  induction t.utf8 with
  | nil => exact unescape?.eq_2 rest
  | cons b bs ih =>
      show unescape? (escapeByte b ++ escapeBytes bs ++ '"' :: rest) = _
      rw [List.append_assoc, (escapedAs_escapeByte b).unescape?_append, ih]
      rfl

/-- `escape` with a closing quote behind it is injective, also in what is behind the quote. -/
theorem escape_append_quote {t t' rest rest' : Text}
    (h : escape t ++ '"' :: rest = escape t' ++ '"' :: rest') : t = t' ∧ rest = rest' := by
  have hdecoded : some (t.utf8, rest) = some (t'.utf8, rest') := by
    rw [← unescape?_escape, h, unescape?_escape]
  simp only [Option.some.injEq, Prod.mk.injEq] at hdecoded
  exact ⟨Text.utf8_injective hdecoded.1, hdecoded.2⟩

/-! ## The whole property -/

/-- **Escaped text is printable and self-delimiting.** `escape` gives one line of printable ASCII.
    `unescape?`, which knows the table and that two digits follow `\x`, recovers its bytes up to the quote
    behind it, whatever stands there. Two quoted texts with anything behind them are the same only if the
    texts are, and what stands behind them. `escape` goes character by character. -/
theorem escape_selfDelimiting :
    (∀ t : Text, (escape t).Printable) ∧
    (∀ t rest : Text, unescape? (escape t ++ '"' :: rest) = some (t.utf8, rest)) ∧
    (∀ t t' rest rest' : Text, escape t ++ '"' :: rest = escape t' ++ '"' :: rest' →
      t = t' ∧ rest = rest') ∧
    ∀ t u : Text, escape (t ++ u) = escape t ++ escape u :=
  ⟨escape_printable, unescape?_escape, fun _ _ _ _ => escape_append_quote, escape_append⟩

/-- Two bytes outside ASCII and a double quote, and behind them a quote and a backslash. -/
theorem escape_selfDelimiting_accented :
    escape "é\"".toList ++ '"' :: "\"\\".toList = "\\xc3\\xa9\\\"\"\"\\".toList ∧
      ∀ t rest : Text, "\\xc3\\xa9\\\"\"\"\\".toList = escape t ++ '"' :: rest →
        "é\"".toList = t ∧ "\"\\".toList = rest := by
  have hquoted :
      escape "é\"".toList ++ '"' :: "\"\\".toList = "\\xc3\\xa9\\\"\"\"\\".toList := by decide
  refine ⟨hquoted, ?_⟩
  intro t rest h
  obtain ⟨-, -, hunique, -⟩ := escape_selfDelimiting
  exact hunique _ t _ rest (hquoted.trans h)

end NetKit
