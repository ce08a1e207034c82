import NetKit.Number.FloatLiteral
import NetKit.Proofs.Address.Faults
import NetKit.Proofs.Text.Escape

/-!
# Messages — what a failure to read says, and that no text can make it say something else

`ReadError.message` quotes the text that was read, and perhaps a second text and the message of a cause.
Whoever chose the text chose most of the message. Still the message is one line, and it tells which failure
it is of.

A message is taken apart from the left. Up to its first double quote it is a `Heading`, and the headings of
different faults are different (`Heading.text_injective`). The `quoted` text behind it ends where its escapes
say that it ends (`escape_append_quote`), so nothing in it can pass for the rest. What is behind the quote is
taken apart in the same way (`ReadError.message_injective`).

## Contents
- `ReadError`, `ReadError.Arises`: the failures of all readers, and the texts they arise from.
- `Heading`, `ReadError.message_eq`: how messages are put together.
- `ReadError.message_printable`, `ReadError.message_injective`: every message.
- `Address.Faulty.port_eq`, `Address.Faulty.scope_eq`, `ReadError.Arises.input_eq`: the texts that a
  failure keeps.
- `ReadError.message_unforgeable`: all of it.
-/

namespace NetKit

/-! ## Failures -/

/-- A failure of `Address.parse`, or of one of the three readers of numbers. -/
inductive ReadError where
  | address (error : AddressError)
  | number (error : NumberError)
  deriving DecidableEq, Repr

namespace ReadError

/-- `AddressError.message` or `NumberError.message`. -/
def message : ReadError → Text
  | address e => e.message
  | number e => e.message

/-- The field `input` of the failure: the text that was read. -/
def input : ReadError → Text
  | address e => e.input
  | number e => e.input

/-- The failures of a text: of `Address.parse` with any default port, or of a reader of numbers. -/
inductive Arises (interfaces : Interfaces) (t : Text) : ReadError → Prop where
  | address {defaultPort : UInt16} {e : AddressError}
      (h : (Address.parse interfaces t defaultPort).value = .error e) : Arises interfaces t (.address e)
  | uint64 {e : NumberError} (h : parseUInt64 t = .error e) : Arises interfaces t (.number e)
  | int64 {e : NumberError} (h : parseInt64 t = .error e) : Arises interfaces t (.number e)
  | binary64 {e : NumberError} (h : parseBinary64 t = .error e) : Arises interfaces t (.number e)

end ReadError

/-! ## How messages are put together -/

/-- What a message says before its first `quoted` text. -/
inductive Heading where
  | number (fault : NumberFault)
  | mismatchedBrackets
  | tooLong (family : Family)
  | notAnIpAddress
  | unexpectedText
  | invalidScope
  | invalidPort
  deriving DecidableEq, Repr

namespace Heading

/-- The wording of a `Heading`. -/
def text : Heading → Text
  | number fault => fault.summary ++ ": ".toList
  | mismatchedBrackets => "IPv6 address with mismatched brackets: ".toList
  | tooLong family => family.name ++ " address too long: ".toList
  | notAnIpAddress => "not a valid IP address: ".toList
  | unexpectedText => "unexpected text around bracketed IPv6 address: ".toList
  | invalidScope => "invalid IPv6 scope ".toList
  | invalidPort => "invalid port number in ".toList

/-- The range of `Heading`, as a list. -/
def all : List Heading :=
  [number .noNumber, number .outOfRange, number .trailing, mismatchedBrackets, tooLong .unspecified,
    tooLong .ipv4, tooLong .ipv6, notAnIpAddress, unexpectedText, invalidScope, invalidPort]

theorem mem_all (h : Heading) : h ∈ all := by
  cases h with
  | number fault => cases fault <;> decide
  | tooLong family => cases family <;> decide
  | _ => decide

/-- `Heading.text` is injective. -/
theorem text_injective {h h' : Heading} (heq : h.text = h'.text) : h = h' := by
  have hall : ∀ a ∈ all, ∀ b ∈ all, a.text = b.text → a = b := by decide +kernel
  exact hall h h.mem_all h' h'.mem_all heq

/-- `Heading.text` is printable and has no double quote, so no text is quoted in it. -/
theorem text_printable (h : Heading) : h.text.Printable ∧ '"' ∉ h.text := by
  have hall : ∀ a ∈ all, a.text.Printable ∧ '"' ∉ a.text := by decide +kernel
  exact hall h h.mem_all

end Heading

theorem quoted_append (t after : Text) : quoted t ++ after = '"' :: (escape t ++ '"' :: after) := by
  simp [quoted]

/-- A `quoted` text ends in one place, whatever follows it. -/
theorem quoted_append_inj {t t' after after' : Text} (h : quoted t ++ after = quoted t' ++ after') :
    t = t' ∧ after = after' := by
  rw [quoted_append, quoted_append, List.cons.injEq] at h
  exact escape_append_quote h.2

namespace ReadError

/-- The `Heading` of the failure's message. -/
def heading : ReadError → Heading
  | number e => .number e.fault
  | address e =>
    match e.fault with
    | .mismatchedBrackets => .mismatchedBrackets
    | .tooLong family => .tooLong family
    | .notAnIpAddress => .notAnIpAddress
    | .unexpectedText => .unexpectedText
    | .invalidScope _ _ => .invalidScope
    | .invalidPort _ => .invalidPort

/-- The text that the failure's message quotes first. -/
def firstQuoted : ReadError → Text
  | number e => e.input
  | address e =>
    match e.fault with
    | .invalidScope scope _ => scope
    | _ => e.input

/-- What the failure's message says behind `firstQuoted`. -/
def afterQuote : ReadError → Text
  | number _ => []
  | address e =>
    match e.fault with
    | .invalidScope _ cause => " in ".toList ++ quoted e.input ++ ": ".toList ++ cause.message
    | .invalidPort cause => ": ".toList ++ cause.message
    | _ => []

/-- `message` is a `Heading`, a `quoted` text, and the rest. -/
theorem message_eq (e : ReadError) :
    e.message = e.heading.text ++ (quoted e.firstQuoted ++ e.afterQuote) := by
  cases e with
  | number e =>
      unfold message NumberError.message heading Heading.text firstQuoted afterQuote
      rw [List.append_nil]
  | address e =>
      obtain ⟨fault, input⟩ := e
      unfold message AddressError.message heading Heading.text firstQuoted afterQuote
      cases fault with
      | invalidScope scope cause => simp only [List.append_assoc]
      | invalidPort cause => simp only [List.append_assoc]
      | _ => simp only [List.append_nil]

end ReadError

/-! ## Every message is printable -/

theorem quoted_printable (t : Text) : (quoted t).Printable := by
  unfold quoted
  rw [List.cons_append, Text.printable_cons, Text.printable_append]
  exact ⟨by decide, escape_printable t, by decide⟩

theorem NumberError.message_printable (e : NumberError) : e.message.Printable := by
  unfold NumberError.message
  rw [Text.printable_append]
  exact ⟨(Heading.number e.fault).text_printable.1, quoted_printable e.input⟩

theorem ScopeFault.message_printable (fault : ScopeFault) : fault.message.Printable := by
  cases fault with
  | number e => exact e.message_printable
  | lookup e => cases e <;> decide

namespace ReadError

theorem afterQuote_printable (e : ReadError) : e.afterQuote.Printable := by
  cases e with
  | number e => exact Text.printable_nil
  | address e =>
      obtain ⟨fault, input⟩ := e
      cases fault with
      | invalidScope scope cause =>
          simp only [afterQuote, Text.printable_append]
          exact ⟨⟨⟨by decide, quoted_printable input⟩, by decide⟩, cause.message_printable⟩
      | invalidPort cause =>
          simp only [afterQuote, Text.printable_append]
          exact ⟨by decide, cause.message_printable⟩
      | _ => exact Text.printable_nil

/-- **`message` is one line of printable ASCII**, whatever text it is about. -/
theorem message_printable (e : ReadError) : e.message.Printable := by
  rw [message_eq, Text.printable_append, Text.printable_append]
  exact ⟨e.heading.text_printable.1, quoted_printable _, e.afterQuote_printable⟩

/-! ## Every message tells its failure -/

/-- Equal messages have equal `heading`, `firstQuoted` and `afterQuote`. -/
theorem eq_of_message_eq {e e' : ReadError} (h : e.message = e'.message) :
    e.heading = e'.heading ∧ e.firstQuoted = e'.firstQuoted ∧ e.afterQuote = e'.afterQuote := by
  rw [message_eq, message_eq, quoted_append, quoted_append] at h
  obtain ⟨hheading, hrest⟩ := eq_of_first_mark h e.heading.text_printable.2 e'.heading.text_printable.2
  obtain ⟨hquoted, hafter⟩ := escape_append_quote hrest
  exact ⟨Heading.text_injective hheading, hquoted, hafter⟩

end ReadError

theorem NumberError.message_injective {e e' : NumberError} (h : e.message = e'.message) : e = e' := by
  have hmessage : (ReadError.number e).message = (ReadError.number e').message := h
  obtain ⟨hheading, hinput, -⟩ := ReadError.eq_of_message_eq hmessage
  obtain ⟨fault, input⟩ := e
  obtain ⟨fault', input'⟩ := e'
  cases hheading
  cases hinput
  rfl

/-- A `NumberError.message` quotes a text, and a `LookupError.message` does not. -/
theorem NumberError.message_ne_lookup (e : NumberError) (lookup : LookupError) :
    e.message ≠ lookup.message := by
  intro h
  have hquote : '"' ∈ e.message := by simp [NumberError.message, quoted]
  rw [h] at hquote
  cases lookup <;> exact absurd hquote (by decide)

theorem ScopeFault.message_injective {fault fault' : ScopeFault} (h : fault.message = fault'.message) :
    fault = fault' := by
  cases fault with
  | number e =>
      cases fault' with
      | number e' => exact congrArg number (NumberError.message_injective h)
      | lookup e' => exact absurd h (e.message_ne_lookup e')
  | lookup e =>
      cases fault' with
      | number e' => exact absurd h.symm (e'.message_ne_lookup e)
      | lookup e' => cases e <;> cases e' <;> first | rfl | exact absurd h (by decide)

theorem AddressError.message_injective {e e' : AddressError} (h : e.message = e'.message) :
    e = e' := by
  have hmessage : (ReadError.address e).message = (ReadError.address e').message := h
  obtain ⟨hheading, hfirst, hafter⟩ := ReadError.eq_of_message_eq hmessage
  obtain ⟨fault, input⟩ := e
  obtain ⟨fault', input'⟩ := e'
  cases fault with
  | invalidScope scope cause =>
      cases fault' with
      | invalidScope scope' cause' =>
          cases hfirst
          simp only [ReadError.afterQuote, List.append_assoc, List.append_cancel_left_eq] at hafter
          obtain ⟨rfl, hcause⟩ := quoted_append_inj hafter
          rw [ScopeFault.message_injective (List.append_cancel_left hcause)]
      | _ => cases hheading
  | invalidPort cause =>
      cases fault' with
      | invalidPort cause' =>
          cases hfirst
          rw [NumberError.message_injective (List.append_cancel_left hafter)]
      | _ => cases hheading
  | _ =>
      -- these say nothing behind their input
      cases fault' <;> cases hheading
      all_goals
        cases hfirst
        rfl

namespace ReadError

/-- **`message` is injective**: it tells the fault, the text that was read, and the cause. -/
theorem message_injective {e e' : ReadError} (h : e.message = e'.message) : e = e' := by
  obtain ⟨hheading, -, -⟩ := eq_of_message_eq h
  cases e with
  | number e =>
      cases e' with
      | number e' => exact congrArg number (NumberError.message_injective h)
      | address e' =>
          obtain ⟨fault', input'⟩ := e'
          cases fault' <;> cases hheading
  | address e =>
      cases e' with
      | number e' =>
          obtain ⟨fault, input⟩ := e
          cases fault <;> cases hheading
      | address e' => exact congrArg address (AddressError.message_injective h)

end ReadError

/-! ## The texts that a failure keeps -/

theorem input_of_endingAfter {α : Type} {input rest : Text} {value : α} {e : NumberError}
    (h : endingAfter input rest value = .error e) : e.input = input := by
  unfold endingAfter at h
  split at h
  · cases h
  · cases h; rfl

/-- Whichever check of `strictly` fails, the text is kept. -/
theorem input_of_strictly {ω α : Type} {t : Text} {literal : Option ω} {outside : ω → Prop}
    [DecidablePred outside] {rest : ω → Text} {value : ω → α} {e : NumberError}
    (h : strictly t literal outside rest value = .error e) : e.input = t := by
  unfold strictly at h
  split at h
  · cases h; rfl
  · split at h
    · cases h; rfl
    · exact input_of_endingAfter h

theorem PortRefused.input_eq {p : Text} {e : NumberError} (h : PortRefused p e) : e.input = p := by
  cases h with
  | malformed hnumber => exact input_of_strictly hnumber
  | tooLarge => rfl

theorem ScopeRefused.input_eq {interfaces : Interfaces} {scope : Text} {e : NumberError}
    (h : ScopeRefused interfaces scope (.number e)) : e.input = scope := by
  cases h with
  | malformed _ hnumber => exact input_of_strictly hnumber
  | tooLarge => rfl

namespace Address.Faulty

variable {interfaces : Interfaces} {t : Text}

/-- The cause of `invalidPort` is about the port. -/
theorem port_eq {cause : NumberError} (h : Faulty interfaces t (.invalidPort cause)) :
    ∃ parts, Parted t parts ∧ parts.port = some cause.input := by
  cases h with
  | refused _ _ hparts hrefused =>
      cases hrefused with
      | invalidPort _ _ _ hport hcause => exact ⟨_, hparts, hcause.input_eq ▸ hport⟩

/-- `invalidScope` has the scope, and so has its cause if it is about a number. -/
theorem scope_eq {scope : Text} {cause : ScopeFault}
    (h : Faulty interfaces t (.invalidScope scope cause)) :
    (∃ parts, Parted t parts ∧ parts.scope = some scope) ∧
      ∀ e, cause = .number e → e.input = scope := by
  cases h with
  | refused _ _ _ hrefused => cases hrefused
  | invalidScope _ _ hparts _ hscope hcause =>
      refine ⟨⟨_, hparts, hscope⟩, ?_⟩
      rintro e rfl
      exact hcause.input_eq

end Address.Faulty

namespace ReadError

variable {interfaces interfaces' : Interfaces} {t t' : Text} {e e' : ReadError}

/-- A failure keeps the complete text. -/
theorem Arises.input_eq (h : Arises interfaces t e) : e.input = t := by
  cases h with
  | address h => exact (Address.parse_eq_error_iff.mp h).1
  | uint64 h => exact input_of_strictly h
  | int64 h => exact input_of_strictly h
  | binary64 h => exact input_of_strictly h

/-- The fault of `Address.parse` is `Faulty` of the text. -/
theorem Arises.faulty {fault : AddressFault} {input : Text}
    (h : Arises interfaces t (.address ⟨fault, input⟩)) : Address.Faulty interfaces t fault := by
  cases h with
  | address h => exact (Address.parse_eq_error_iff_faulty.mp h).2

/-- **No text makes a message say something else.** `message` is one line of printable ASCII, and `input` is
    the complete text that was read; the cause of `invalidPort` is about the port in this text, and
    `invalidScope`, with the number that its cause may be about, has the scope in it. Two failures with the
    same `message`, of whatever readers and texts, are the same failure of the same text. -/
theorem message_unforgeable (h : Arises interfaces t e) (h' : Arises interfaces' t' e') :
    e.message.Printable ∧ e.input = t ∧
      (∀ cause input, e = .address ⟨.invalidPort cause, input⟩ →
        ∃ parts, Parted t parts ∧ parts.port = some cause.input) ∧
      (∀ scope cause input, e = .address ⟨.invalidScope scope cause, input⟩ →
        (∃ parts, Parted t parts ∧ parts.scope = some scope) ∧
          ∀ n, cause = .number n → n.input = scope) ∧
      (e.message = e'.message → t = t' ∧ e = e') := by
  refine ⟨e.message_printable, h.input_eq, ?_, ?_, ?_⟩
  · rintro cause input rfl
    exact h.faulty.port_eq
  · rintro scope cause input rfl
    exact h.faulty.scope_eq
  · intro hmessage
    have hsame : e = e' := message_injective hmessage
    exact ⟨by rw [← h.input_eq, hsame, h'.input_eq], hsame⟩

/-- A port that imitates the words of a message, and the same text read as a number. -/
theorem message_unforgeable_imitation :
    (∃ parts, Parted "1.2.3.4:x\" in \"y".toList parts ∧ parts.port = some "x\" in \"y".toList) ∧
      (ReadError.address ⟨.invalidPort ⟨.noNumber, "x\" in \"y".toList⟩,
        "1.2.3.4:x\" in \"y".toList⟩).message ≠
        (ReadError.number ⟨.noNumber, "x\" in \"y".toList⟩).message := by
  have haddress : Arises .loopbackOnly "1.2.3.4:x\" in \"y".toList
      (.address ⟨.invalidPort ⟨.noNumber, "x\" in \"y".toList⟩, "1.2.3.4:x\" in \"y".toList⟩) :=
    @Arises.address _ _ 0 _ rfl
  have hnumber : Arises .loopbackOnly "x\" in \"y".toList
      (.number ⟨.noNumber, "x\" in \"y".toList⟩) := .uint64 rfl
  obtain ⟨-, -, hport, -, hsame⟩ := message_unforgeable haddress hnumber
  refine ⟨hport _ _ rfl, ?_⟩
  intro hmessage
  exact absurd (hsame hmessage).1 (by decide)

end ReadError

end NetKit
