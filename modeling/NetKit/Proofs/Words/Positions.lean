import Mathlib.Data.List.TakeWhile
import NetKit.Number.FloatLiteral
import NetKit.Proofs.Numeral
import NetKit.Proofs.Words.Checked

/-!
# Positions — reading a text by the positions of its bytes

A machine does not see the characters of a text but its bytes (`Text.octets`). It asks for the byte at a position,
counts the bytes of a kind from there on, and goes on behind them. All the kinds it asks for are of ASCII characters
(`Text.AsciiKind`), and each byte of another character is at least 128, so that the bytes tell what the characters
would: a position that was good stays good when it goes on over bytes of such a kind.

`Text.StandsAt` says what stands at a good position. It is the invariant of every reader by positions. Each
of them starts where some text stands and ends where its rest stands.

## Contents
- `Text.octets`: the bytes of a text, and how kinds of ASCII characters are found in them.
- `Text.StandsAt`: good positions, and taking the text apart there.
- `Text.octetsFrom`, `Text.octetAt`, `Text.digitCountAt`: what is asked of a text at a position.
-/

namespace NetKit

-- Powers are those of the core library, also where a theory of powers is imported.
attribute [local instance (high)] instPowNat

namespace Text

/-! ## Bytes -/

/-- The UTF-8 of `t`, each byte as the character with its number. -/
def octets (t : Text) : Text := t.utf8.map Char.ofUInt8

/-- All characters are ASCII. -/
def Ascii (t : Text) : Prop := ∀ c ∈ t, c.toNat < 128

instance (t : Text) : Decidable t.Ascii := List.decidableBAll (fun c : Char => c.toNat < 128) t

/-- `p` holds of ASCII characters only. -/
def AsciiKind (p : Char → Bool) : Prop := ∀ c, p c = true → c.toNat < 128

theorem AsciiKind.ascii {p : Char → Bool} (hp : AsciiKind p) {t : Text} (ht : ∀ c ∈ t, p c = true) :
    t.Ascii :=
  fun c hc => hp c (ht c hc)

@[simp] theorem octets_append (t u : Text) : octets (t ++ u) = octets t ++ octets u := by
  unfold octets
  rw [utf8_append, List.map_append]

@[simp] theorem byteLength_append (t u : Text) :
    byteLength (t ++ u) = byteLength t + byteLength u := by
  rw [← length_utf8, ← length_utf8, ← length_utf8, utf8_append, List.length_append]

theorem length_octets (t : Text) : t.octets.length = t.byteLength := by
  rw [octets, List.length_map, length_utf8]

/-- `octets` of an ASCII character is the character. -/
theorem octets_cons_of_lt {c : Char} (hc : c.toNat < 128) (t : Text) : octets (c :: t) = c :: octets t := by
  have hsize : c.utf8Size = 1 := by
    rw [Char.utf8Size_eq_one_iff, UInt32.le_iff_toNat_le]
    exact Nat.le_of_lt_succ hc
  have hbyte : Char.ofUInt8 c.val.toUInt8 = c := by
    refine Char.ext (UInt32.toNat_inj.mp ?_)
    show c.val.toUInt8.toUInt32.toNat = c.val.toNat
    rw [UInt8.toNat_toUInt32, UInt32.toNat_toUInt8]
    exact Nat.mod_eq_of_lt (Nat.lt_trans hc (by decide))
  unfold octets
  rw [utf8_cons, String.utf8EncodeChar_eq_singleton hsize, List.singleton_append, List.map_cons, hbyte]

/-- The bytes of a character outside ASCII are at least 128. -/
theorem le_of_mem_utf8EncodeChar {c : Char} (hc : ¬c.toNat < 128) {b : UInt8}
    (hb : b ∈ String.utf8EncodeChar c) : 128 ≤ b.toNat := by
  have hlarge : 127 < c.val.toNat := Nat.lt_of_not_le fun hle => hc (Nat.lt_succ_of_le hle)
  revert b
  unfold String.utf8EncodeChar
  dsimp only
  rw [if_neg (Nat.not_le_of_lt hlarge)]
  split
  · simp
    omega
  · split
    · simp
      omega
    · simp
      omega

/-- `octets` contains an ASCII character if and only if the text does. -/
theorem mem_octets_iff {mark : Char} (hmark : mark.toNat < 128) {t : Text} :
    mark ∈ t.octets ↔ mark ∈ t := by
  induction t with
  | nil => exact Iff.rfl
  | cons c t ih =>
      by_cases hc : c.toNat < 128
      · rw [octets_cons_of_lt hc, List.mem_cons, List.mem_cons, ih]
      · have hne : mark ≠ c := by
          rintro rfl
          exact hc hmark
        have hbytes : mark ∉ (String.utf8EncodeChar c).map Char.ofUInt8 := by
          intro hmem
          obtain ⟨b, hb, rfl⟩ := List.mem_map.mp hmem
          exact absurd (le_of_mem_utf8EncodeChar hc hb) (Nat.not_le.mpr hmark)
        rw [octets, utf8_cons, List.map_append, List.mem_append, List.mem_cons, ← octets, ih]
        exact or_congr (iff_of_false hbytes hne) Iff.rfl

/-- `octets` of a character outside ASCII starts outside ASCII. -/
theorem octets_cons_of_not_lt {c : Char} (hc : ¬c.toNat < 128) (t : Text) :
    ∃ o os, octets (c :: t) = o :: os ∧ ¬o.toNat < 128 := by
  obtain ⟨b, bs, hbytes⟩ := List.exists_cons_of_ne_nil (String.utf8EncodeChar_ne_nil (c := c))
  have hb : 128 ≤ b.toNat := le_of_mem_utf8EncodeChar hc (hbytes ▸ List.mem_cons_self)
  refine ⟨Char.ofUInt8 b, (bs ++ utf8 t).map Char.ofUInt8, ?_, Nat.not_lt.mpr hb⟩
  unfold octets
  rw [utf8_cons, hbytes, List.cons_append, List.map_cons]

theorem byteLength_cons_of_lt {c : Char} (hc : c.toNat < 128) (t : Text) :
    byteLength (c :: t) = byteLength t + 1 := by
  rw [← length_octets, octets_cons_of_lt hc, List.length_cons, length_octets]

theorem Ascii.octets_eq {t : Text} (ht : t.Ascii) : t.octets = t := by
  induction t with
  | nil => rfl
  | cons c t ih =>
      obtain ⟨hc, htail⟩ := List.forall_mem_cons.mp ht
      rw [octets_cons_of_lt hc, ih htail]

theorem Ascii.byteLength_eq {t : Text} (ht : t.Ascii) : t.byteLength = t.length := by
  rw [← length_octets, ht.octets_eq]

/-- **ASCII bytes are ASCII characters.** If `octets` starts with them, so does the text. -/
theorem exists_of_octets_eq_append {t u v : Text} (hu : u.Ascii) (h : t.octets = u ++ v) :
    ∃ rest, t = u ++ rest ∧ rest.octets = v := by
  induction u generalizing t with
  | nil => exact ⟨t, rfl, h⟩
  | cons c u ih =>
      obtain ⟨hc, htail⟩ := List.forall_mem_cons.mp hu
      cases t with
      | nil => cases h
      | cons d t =>
          by_cases hd : d.toNat < 128
          · rw [octets_cons_of_lt hd, List.cons_append] at h
            obtain ⟨rfl, hbytes⟩ := List.cons_eq_cons.mp h
            obtain ⟨rest, rfl, hrest⟩ := ih htail hbytes
            exact ⟨rest, rfl, hrest⟩
          · obtain ⟨o, os, ho, hlarge⟩ := octets_cons_of_not_lt hd t
            rw [ho, List.cons_append] at h
            obtain ⟨rfl, -⟩ := List.cons_eq_cons.mp h
            exact absurd hc hlarge

theorem head?_octets_eq_some_iff {c : Char} (hc : c.toNat < 128) {t : Text} :
    t.octets.head? = some c ↔ t.head? = some c := by
  constructor
  · intro h
    obtain ⟨os, hos⟩ := List.head?_eq_some_iff.mp h
    obtain ⟨rest, rfl, -⟩ := exists_of_octets_eq_append (u := [c]) (by simpa [Ascii] using hc) hos
    rfl
  · intro h
    obtain ⟨rest, rfl⟩ := List.head?_eq_some_iff.mp h
    rw [octets_cons_of_lt hc, List.head?_cons]

theorem octets_eq_nil_iff {t : Text} : t.octets = [] ↔ t = [] := by
  constructor
  · intro h
    cases t with
    | nil => rfl
    | cons c t =>
        rw [octets, List.map_eq_nil_iff, utf8_cons] at h
        exact absurd (List.append_eq_nil_iff.mp h).1 String.utf8EncodeChar_ne_nil
  · rintro rfl
    rfl

theorem byteLength_eq_zero_iff {t : Text} : t.byteLength = 0 ↔ t = [] := by
  rw [← length_octets, List.length_eq_zero_iff, octets_eq_nil_iff]

section Kinds

variable {p : Char → Bool} (hp : AsciiKind p)

include hp

/-- `takeWhile` and `dropWhile` for an `AsciiKind` commute with `octets`. -/
theorem span_octets (t : Text) :
    t.octets.takeWhile p = t.takeWhile p ∧ t.octets.dropWhile p = octets (t.dropWhile p) := by
  induction t with
  | nil => exact ⟨rfl, rfl⟩
  | cons c t ih =>
      by_cases hc : c.toNat < 128
      · rw [octets_cons_of_lt hc, List.takeWhile_cons, List.takeWhile_cons, List.dropWhile_cons,
          List.dropWhile_cons, ih.1, ih.2]
        cases p c with
        | true => exact ⟨rfl, rfl⟩
        | false => exact ⟨rfl, (octets_cons_of_lt hc t).symm⟩
      · have hother : p c = false := Bool.eq_false_iff.mpr fun h => hc (hp c h)
        obtain ⟨o, os, ho, hlarge⟩ := octets_cons_of_not_lt hc t
        have hbyte : p o = false := Bool.eq_false_iff.mpr fun h => hlarge (hp o h)
        rw [List.takeWhile_cons, hother, List.dropWhile_cons, hother, ho, List.takeWhile_cons, hbyte,
          List.dropWhile_cons, hbyte]
        exact ⟨rfl, ho.symm⟩

theorem takeWhile_octets (t : Text) : t.octets.takeWhile p = t.takeWhile p := (span_octets hp t).1

theorem dropWhile_octets (t : Text) : t.octets.dropWhile p = octets (t.dropWhile p) :=
  (span_octets hp t).2

theorem any_head?_octets (t : Text) : t.octets.head?.any p = t.head?.any p := by
  cases t with
  | nil => rfl
  | cons c t =>
      by_cases hc : c.toNat < 128
      · rw [octets_cons_of_lt hc]
        rfl
      · obtain ⟨o, os, ho, hlarge⟩ := octets_cons_of_not_lt hc t
        rw [ho, List.head?_cons, List.head?_cons, Option.any_some, Option.any_some,
          Bool.eq_false_iff.mpr fun h => hc (hp c h), Bool.eq_false_iff.mpr fun h => hlarge (hp o h)]

/-- `all` for an `AsciiKind` is the same of `octets`. -/
theorem all_octets (t : Text) : t.octets.all p = t.all p := by
  rw [Bool.eq_iff_iff, List.all_eq_true, List.all_eq_true, ← List.dropWhile_eq_nil_iff,
    ← List.dropWhile_eq_nil_iff, dropWhile_octets hp, octets_eq_nil_iff]

end Kinds

theorem asciiKind_isBlank : AsciiKind isBlank := by
  intro c hc
  simp only [isBlank, Bool.or_eq_true, decide_eq_true_eq] at hc
  rcases hc with ((((rfl | rfl) | rfl) | rfl) | rfl) | rfl <;> decide

theorem asciiKind_isDigit (radix : Nat) : AsciiKind (isDigit radix) :=
  fun _ hc => Nat.lt_of_le_of_lt (le_of_isDigit hc) (by decide)

theorem asciiKind_isTagChar : AsciiKind isTagChar := by
  intro c hc
  have hranges : (decide ('A' ≤ c ∧ c ≤ 'Z') || ('a' ≤ c && c ≤ 'z') || ('0' ≤ c && c ≤ '9') || c = '_') = true :=
    hc
  simp only [Bool.or_eq_true, Bool.and_eq_true, decide_eq_true_eq] at hranges
  rcases hranges with ((⟨-, h⟩ | ⟨-, h⟩) | ⟨-, h⟩) | rfl
  · exact Nat.lt_of_le_of_lt h (by decide)
  · exact Nat.lt_of_le_of_lt h (by decide)
  · exact Nat.lt_of_le_of_lt h (by decide)
  · decide

/-- A letter of ASCII in either case is ASCII. -/
theorem asciiKind_toLower {letter : Char} (h : letter.toNat < 128) :
    AsciiKind fun c => c.toLower == letter := by
  intro c hc
  rw [beq_iff_eq] at hc
  subst hc
  by_cases hupper : 'A'.val ≤ c.val ∧ c.val ≤ 'Z'.val
  · exact Nat.lt_of_le_of_lt (UInt32.le_iff_toNat_le.mp hupper.2) (by decide)
  · unfold Char.toLower at h
    rwa [dif_neg hupper] at h

/-! ## Good positions -/

/-- `pos` is a good position of `t`, and `rest` stands behind it. -/
def StandsAt (t : Text) (pos : Nat) (rest : Text) : Prop :=
  ∃ before, t = before ++ rest ∧ byteLength before = pos

theorem splitAtByte?_byteLength (before rest : Text) :
    splitAtByte? (byteLength before) (before ++ rest) = some (before, rest) := by
  induction before with
  | nil =>
      show splitAtByte? 0 rest = some ([], rest)
      rw [splitAtByte?]
  | cons c before ih =>
      have hpos : 0 < c.utf8Size := Char.utf8Size_pos c
      have hcons : byteLength (c :: before) = c.utf8Size - 1 + byteLength before + 1 := by
        have hsum : byteLength (c :: before) = c.utf8Size + byteLength before := List.sum_cons
        omega
      have hrest : c.utf8Size - 1 + byteLength before + 1 - c.utf8Size = byteLength before := by omega
      rw [hcons, List.cons_append, splitAtByte?, if_pos (by omega), hrest, ih]
      rfl

theorem standsAt_zero (t : Text) : t.StandsAt 0 t := ⟨[], rfl, rfl⟩

namespace StandsAt

variable {t u rest : Text} {pos stop : Nat} {c : Char}

/-- `StandsAt` goes on over characters. -/
theorem advance (h : t.StandsAt pos (u ++ rest)) : t.StandsAt (pos + u.byteLength) rest := by
  obtain ⟨before, rfl, rfl⟩ := h
  exact ⟨before ++ u, (List.append_assoc before u rest).symm, byteLength_append before u⟩

/-- `StandsAt` goes on over ASCII characters by their count. -/
theorem advance_ascii (h : t.StandsAt pos (u ++ rest)) (hu : u.Ascii) :
    t.StandsAt (pos + u.length) rest :=
  hu.byteLength_eq ▸ h.advance

/-- `StandsAt` goes on over a leading run of an `AsciiKind`. -/
theorem pass {p : Char → Bool} (h : t.StandsAt pos rest) (hp : AsciiKind p) :
    t.StandsAt (pos + (rest.takeWhile p).length) (rest.dropWhile p) := by
  have hascii : Ascii (rest.takeWhile p) :=
    hp.ascii fun c hc => List.all_eq_true.mp List.all_takeWhile c hc
  have hsplit : rest.takeWhile p ++ rest.dropWhile p = rest := List.takeWhile_append_dropWhile
  rw [← hsplit] at h
  exact h.advance_ascii hascii

theorem tail (h : t.StandsAt pos (c :: rest)) (hc : c.toNat < 128) : t.StandsAt (pos + 1) rest :=
  h.advance_ascii (u := [c]) (List.forall_mem_singleton.mpr hc)

theorem add_byteLength (h : t.StandsAt pos rest) : pos + rest.byteLength = t.byteLength := by
  obtain ⟨before, rfl, rfl⟩ := h
  exact (byteLength_append before rest).symm

theorem sliceFrom (h : t.StandsAt pos rest) : t.sliceFrom pos = .ok rest := by
  obtain ⟨before, rfl, rfl⟩ := h
  unfold Text.sliceFrom
  rw [splitAtByte?_byteLength]

/-- `slice` between two good positions is what stands at the first before the second. -/
theorem slice (h : t.StandsAt pos (u ++ rest)) (hstop : t.StandsAt stop rest) :
    t.slice pos stop = .ok u := by
  have hadvance := h.advance.add_byteLength
  have hlength := hstop.add_byteLength
  have hposition : stop = pos + u.byteLength := by omega
  obtain ⟨before, rfl, rfl⟩ := h
  have hstart : (before ++ u).StandsAt before.byteLength u := ⟨before, rfl, rfl⟩
  unfold Text.slice
  rw [hposition, ← List.append_assoc, ← byteLength_append, splitAtByte?_byteLength]
  exact hstart.sliceFrom

end StandsAt

/-! ## Asking for bytes -/

/-- The bytes from `pos` on. -/
def octetsFrom (t : Text) (pos : Nat) : Checked Text := do return (← t.sliceFrom pos).octets

/-- The bytes from `start` to `stop`. -/
def octetsBetween (t : Text) (start stop : Nat) : Checked Text := do
  return (← t.slice start stop).octets

/-- The byte at `pos`, if that is not the end. -/
def octetAt (t : Text) (pos : Nat) : Checked (Option Char) := do return (← t.octetsFrom pos).head?

/-- The count of digits from `pos` on. -/
def digitCountAt (radix : Nat) (t : Text) (pos : Nat) : Checked Nat := do
  return ((← t.octetsFrom pos).takeWhile (isDigit radix)).length

namespace StandsAt

variable {t u rest : Text} {pos stop : Nat}

theorem octetsFrom (h : t.StandsAt pos rest) : t.octetsFrom pos = .ok rest.octets := by
  unfold Text.octetsFrom
  rw [h.sliceFrom]
  rfl

theorem octetsBetween (h : t.StandsAt pos (u ++ rest)) (hstop : t.StandsAt stop rest) (hu : u.Ascii) :
    t.octetsBetween pos stop = .ok u := by
  unfold Text.octetsBetween
  rw [h.slice hstop, Checked.ok_bind, hu.octets_eq]
  rfl

theorem octetAt (h : t.StandsAt pos rest) : t.octetAt pos = .ok rest.octets.head? := by
  unfold Text.octetAt
  rw [h.octetsFrom]
  rfl

theorem digitCountAt (h : t.StandsAt pos rest) (radix : Nat) :
    digitCountAt radix t pos = .ok (spanDigits radix rest).1.length := by
  unfold Text.digitCountAt
  rw [h.octetsFrom, Checked.ok_bind, takeWhile_octets (asciiKind_isDigit radix)]
  rfl

/-- `StandsAt` goes on over the digits. -/
theorem digits (h : t.StandsAt pos rest) (radix : Nat) :
    t.StandsAt (pos + (spanDigits radix rest).1.length) (spanDigits radix rest).2 :=
  h.pass (asciiKind_isDigit radix)

/-- A good position of a text below 2^60 bytes fits into a word. -/
theorem natWord (h : t.StandsAt pos rest) (hsize : t.byteLength < 2 ^ 60) :
    natWord 64 pos = .ok pos := by
  have hle := h.add_byteLength
  exact natWord_of_lt (Nat.lt_of_le_of_lt (by omega) (Nat.lt_trans hsize (by decide)))

end StandsAt

end Text

end NetKit
