import Mathlib.Algebra.Order.Ring.Int
import Mathlib.Data.List.Induction
import Mathlib.Tactic.Ring
import NetKit.Number.Integer

/-!
# Numerals — digits, written numbers, and the blanks and signs before them

`Nat.toDigits` writes numbers; `spanDigits` and `digitsValue` read them. Writing and reading share no
code, so this file ties them together once for every radix up to sixteen (`digitsValue_toDigits`,
`spanDigits_toDigits`). It also says what `skipBlanks` and `takeSign` take before the first digit, which
is the same for every kind of number.

## Contents
- **Digits.** `digitValue?_digitChar`, and which characters are digits of no radix; `digitsValue_cons`,
  `digitsValue_lt`, `pow_le_digitsValue`: how large the number is that digits denote.
- **Runs.** `spanDigits_eq_iff`: the run is the one split whose rest starts with no digit.
- **Numerals.** `digitsValue_toDigits`, `isDigit_of_mem_toDigits`, `head_toDigits_ne_zero`.
- **Blanks and signs.** `skipBlanks_append`, `NumeralSign`, `exists_sign_takeSign`.
- **Rests.** `exists_shortest_rest`: the most that can be taken from a text.
-/

namespace NetKit

/-! ## Digits -/

/-- `digitValue?` inverts `Nat.digitChar` below sixteen. -/
theorem digitValue?_digitChar {d : Nat} (hd : d < 16) : digitValue? (Nat.digitChar d) = some d := by
  have hall : ∀ d < 16, digitValue? (Nat.digitChar d) = some d := by decide
  exact hall d hd

theorem digitValue_digitChar {d : Nat} (hd : d < 16) : digitValue (Nat.digitChar d) = d := by
  unfold digitValue
  rw [digitValue?_digitChar hd, Option.getD_some]

theorem isDigit_digitChar {radix d : Nat} (hradix : radix ≤ 16) (hd : d < radix) :
    isDigit radix (Nat.digitChar d) = true := by
  unfold isDigit
  rw [digitValue?_digitChar (Nat.lt_of_lt_of_le hd hradix)]
  exact decide_eq_true hd

/-- `isDigit` is monotone in the radix. -/
theorem isDigit_mono {radix radix' : Nat} {c : Char} (hle : radix ≤ radix')
    (hc : isDigit radix c = true) : isDigit radix' c = true := by
  unfold isDigit at hc ⊢
  cases hv : digitValue? c with
  | none => rw [hv] at hc; cases hc
  | some v =>
      rw [hv] at hc
      exact decide_eq_true (Nat.lt_of_lt_of_le (of_decide_eq_true hc) hle)

/-- A `mark` that is no hexadecimal digit is in no run of digits. -/
theorem not_mem_of_digits {radix : Nat} {ds : Text} {mark : Char} (hradix : radix ≤ 16)
    (hds : ∀ c ∈ ds, isDigit radix c = true) (hmark : isDigit 16 mark = false) : mark ∉ ds := by
  intro hmem
  rw [isDigit_mono hradix (hds mark hmem)] at hmark
  exact absurd hmark (by decide)

/-- `f` is the last digit of any radix up to sixteen. -/
theorem le_of_isDigit {radix : Nat} {c : Char} (hc : isDigit radix c = true) : c ≤ 'f' := by
  unfold isDigit digitValue? at hc
  split at hc
  · next h => exact Char.le_trans h.2 (by decide)
  · split at hc
    · next h => exact h.2
    · split at hc
      · next h => exact Char.le_trans h.2 (by decide)
      · cases hc

theorem isDigit_ten_iff {c : Char} : isDigit 10 c = true ↔ '0' ≤ c ∧ c ≤ '9' := by
  unfold isDigit digitValue?
  by_cases hdecimal : '0' ≤ c ∧ c ≤ '9'
  · rw [if_pos hdecimal, Option.any_some, decide_eq_true_eq]
    have hle : c.toNat ≤ '9'.toNat := hdecimal.2
    have h9 : '9'.toNat = 57 := rfl
    have h0 : '0'.toNat = 48 := rfl
    exact ⟨fun _ => hdecimal, fun _ => by omega⟩
  · rw [if_neg hdecimal]
    constructor
    · intro h
      -- a letter is worth ten or more
      split at h
      · rw [Option.any_some, decide_eq_true_eq] at h; omega
      · split at h
        · rw [Option.any_some, decide_eq_true_eq] at h; omega
        · cases h
    · intro h; exact absurd h hdecimal

/-- Decimal digits are numbered from `0` on. -/
theorem digitValue_of_isDigit_ten {c : Char} (hc : isDigit 10 c = true) :
    digitValue c = c.toNat - '0'.toNat := by
  unfold digitValue digitValue?
  rw [if_pos (isDigit_ten_iff.mp hc), Option.getD_some]

/-- `Char.toLower` fixes decimal digits. -/
theorem toLower_of_isDigit {c : Char} (hc : isDigit 10 c = true) : c.toLower = c := by
  have hnine : c.toNat ≤ '9'.toNat := (isDigit_ten_iff.mp hc).2
  unfold Char.toLower
  split
  · next h =>
      have hupper : 'A'.toNat ≤ c.toNat := h.1
      have hgap : '9'.toNat < 'A'.toNat := by decide
      omega
  · rfl

/-- The preimage of a character under `Char.toLower` is that character or its upper case. -/
theorem eq_or_eq_toUpper_of_toLower_eq {c letter : Char} (h : c.toLower = letter) :
    c = letter ∨ c = letter.toUpper := by
  subst h
  by_cases hupper : 'A'.val ≤ c.val ∧ c.val ≤ 'Z'.val
  · right
    have hlower : c.toLower.val = c.val + ('a'.val - 'A'.val) := by
      unfold Char.toLower
      rw [dif_pos hupper]
    have hrange : 'a'.val ≤ c.toLower.val ∧ c.toLower.val ≤ 'z'.val := by
      rw [hlower]
      simp only [UInt32.le_iff_toNat_le, UInt32.toNat_add] at hupper ⊢
      have ha : 'a'.val.toNat = 97 := rfl
      have hz : 'z'.val.toNat = 122 := rfl
      have hA : 'A'.val.toNat = 65 := rfl
      have hZ : 'Z'.val.toNat = 90 := rfl
      have hgap : ('a'.val - 'A'.val).toNat = 32 := rfl
      omega
    apply Char.ext
    unfold Char.toUpper
    rw [dif_pos hrange]
    show c.val = c.toLower.val + ('A'.val - 'a'.val)
    rw [hlower, UInt32.add_assoc]
    exact (UInt32.add_zero c.val).symm
  · left
    unfold Char.toLower
    rw [dif_neg hupper]

/-- `0` is the only digit of value zero. -/
theorem digitValue_eq_zero_iff {radix : Nat} {c : Char} (hc : isDigit radix c = true) :
    digitValue c = 0 ↔ c = '0' := by
  constructor
  · intro hzero
    unfold isDigit at hc
    unfold digitValue at hzero
    unfold digitValue? at hc hzero
    split at hc
    · next hdecimal =>
        rw [if_pos hdecimal, Option.getD_some] at hzero
        have hlow : '0'.toNat ≤ c.toNat := hdecimal.1
        exact Char.toNat_inj.mp (by omega)
    · next hdecimal =>
        rw [if_neg hdecimal] at hzero
        split at hc
        · next hlower =>
            rw [if_pos hlower, Option.getD_some] at hzero
            omega
        · next hlower =>
            rw [if_neg hlower] at hzero
            split at hc
            · next hupper =>
                rw [if_pos hupper, Option.getD_some] at hzero
                omega
            · cases hc
  · rintro rfl
    rfl

/-- The fold of `digitsValue` from any initial value. -/
theorem foldl_digitsValue (radix value : Nat) (ds : Text) :
    ds.foldl (fun value c => value * radix + digitValue c) value =
      value * radix ^ ds.length + digitsValue radix ds := by
  unfold digitsValue
  induction ds generalizing value with
  | nil => simp
  | cons c ds ih =>
      rw [List.foldl_cons, List.foldl_cons, ih, ih (0 * radix + digitValue c), List.length_cons,
        Nat.pow_succ]
      ring

/-- `digitsValue` by its most significant digit. -/
theorem digitsValue_cons (radix : Nat) (c : Char) (ds : Text) :
    digitsValue radix (c :: ds) = digitValue c * radix ^ ds.length + digitsValue radix ds := by
  show ds.foldl (fun value c => value * radix + digitValue c) (0 * radix + digitValue c) = _
  rw [Nat.zero_mul, Nat.zero_add, foldl_digitsValue]

/-- `digitsValue` is less than `radix ^ ds.length`. -/
theorem digitsValue_lt {radix : Nat} {ds : Text} (hds : ∀ c ∈ ds, isDigit radix c = true) :
    digitsValue radix ds < radix ^ ds.length := by
  induction ds with
  | nil => exact Nat.one_pos
  | cons c ds ih =>
      obtain ⟨hc, htail⟩ := List.forall_mem_cons.mp hds
      have hdigit : digitValue c + 1 ≤ radix := digitValue_lt hc
      calc digitsValue radix (c :: ds)
          = digitValue c * radix ^ ds.length + digitsValue radix ds := digitsValue_cons radix c ds
        _ < digitValue c * radix ^ ds.length + radix ^ ds.length := Nat.add_lt_add_left (ih htail) _
        _ = (digitValue c + 1) * radix ^ ds.length := by rw [Nat.add_mul, Nat.one_mul]
        _ ≤ radix * radix ^ ds.length := Nat.mul_le_mul_right _ hdigit
        _ = radix ^ (c :: ds).length := by rw [List.length_cons, Nat.pow_succ, Nat.mul_comm]

/-- Without a leading zero, `digitsValue` is at least `radix` to the count of the other digits. -/
theorem pow_le_digitsValue {radix : Nat} {c : Char} {ds : Text} (hc : digitValue c ≠ 0) :
    radix ^ ds.length ≤ digitsValue radix (c :: ds) := by
  rw [digitsValue_cons]
  exact Nat.le_add_right_of_le (Nat.le_mul_of_pos_left _ (Nat.pos_of_ne_zero hc))

/-- `digitsValue` ignores leading zeros. -/
theorem digitsValue_dropWhile (radix : Nat) (ds : Text) :
    digitsValue radix (ds.dropWhile (· = '0')) = digitsValue radix ds := by
  induction ds with
  | nil => rfl
  | cons c ds ih =>
      by_cases hc : c = '0'
      · subst hc
        have hzero : digitValue '0' = 0 := rfl
        rw [List.dropWhile_cons_of_pos (by decide), ih, digitsValue_cons, hzero, Nat.zero_mul,
          Nat.zero_add]
      · rw [List.dropWhile_cons_of_neg (by simpa using hc)]

/-! ## Runs of digits -/

theorem startsWithDigit_cons (radix : Nat) (c : Char) (t : Text) :
    startsWithDigit radix (c :: t) = isDigit radix c := rfl

theorem startsWithDigit_dropWhile (radix : Nat) (t : Text) :
    startsWithDigit radix (t.dropWhile (isDigit radix)) = false := by
  induction t with
  | nil => rfl
  | cons c t ih =>
      by_cases hc : isDigit radix c = true
      · rw [List.dropWhile_cons_of_pos hc]; exact ih
      · rw [List.dropWhile_cons_of_neg hc, startsWithDigit_cons]
        exact Bool.eq_false_iff.mpr hc

/-- `spanDigits` takes all of `ds` if no digit follows. -/
theorem spanDigits_append_of_digits {radix : Nat} {ds rest : Text}
    (hds : ∀ c ∈ ds, isDigit radix c = true) (hrest : startsWithDigit radix rest = false) :
    spanDigits radix (ds ++ rest) = (ds, rest) := by
  unfold spanDigits
  rw [List.takeWhile_append_of_pos hds, List.dropWhile_append_of_pos hds]
  cases rest with
  | nil => simp
  | cons c rest =>
      rw [startsWithDigit_cons] at hrest
      rw [List.takeWhile_cons_of_neg (by simp [hrest]), List.dropWhile_cons_of_neg (by simp [hrest]),
        List.append_nil]

/-- **`spanDigits` is the one split** into digits and a rest that starts with none. -/
theorem spanDigits_eq_iff {radix : Nat} {t ds rest : Text} :
    spanDigits radix t = (ds, rest) ↔
      t = ds ++ rest ∧ (∀ c ∈ ds, isDigit radix c = true) ∧ startsWithDigit radix rest = false := by
  constructor
  · intro h
    have hdigits : (spanDigits radix t).1 = ds := congrArg Prod.fst h
    have hrest : (spanDigits radix t).2 = rest := congrArg Prod.snd h
    refine ⟨?_, ?_, ?_⟩
    · rw [← hdigits, ← hrest, spanDigits_append]
    · intro c hc
      exact isDigit_of_mem_spanDigits (hdigits ▸ hc)
    · rw [← hrest]
      exact startsWithDigit_dropWhile radix t
  · rintro ⟨rfl, hds, hrest⟩
    exact spanDigits_append_of_digits hds hrest

/-! ## Written numbers -/

variable {radix : Nat}

/-- `Nat.toDigits` appends the last digit to those of the quotient. -/
theorem toDigits_step (hlow : 1 < radix) {n : Nat} (hn : radix ≤ n) :
    Nat.toDigits radix n = Nat.toDigits radix (n / radix) ++ [Nat.digitChar (n % radix)] :=
  Nat.toDigits_of_base_le hlow hn

theorem isDigit_of_mem_toDigits (hlow : 1 < radix) (hhigh : radix ≤ 16) {n : Nat} {c : Char}
    (hc : c ∈ Nat.toDigits radix n) : isDigit radix c = true := by
  induction n using Nat.strongRecOn with
  | ind n ih =>
      by_cases hn : n < radix
      · rw [Nat.toDigits_of_lt_base hn, List.mem_singleton] at hc
        rw [hc]; exact isDigit_digitChar hhigh hn
      · have hle : radix ≤ n := Nat.le_of_not_lt hn
        rw [toDigits_step hlow hle, List.mem_append, List.mem_singleton] at hc
        rcases hc with hc | hc
        · exact ih (n / radix) (Nat.div_lt_self (by omega) hlow) hc
        · rw [hc]; exact isDigit_digitChar hhigh (Nat.mod_lt n (by omega))

/-- **`digitsValue` inverts `Nat.toDigits`.** -/
theorem digitsValue_toDigits (hlow : 1 < radix) (hhigh : radix ≤ 16) (n : Nat) :
    digitsValue radix (Nat.toDigits radix n) = n := by
  induction n using Nat.strongRecOn with
  | ind n ih =>
      by_cases hn : n < radix
      · rw [Nat.toDigits_of_lt_base hn]
        show 0 * radix + digitValue (Nat.digitChar n) = n
        rw [digitValue_digitChar (Nat.lt_of_lt_of_le hn hhigh), Nat.zero_mul, Nat.zero_add]
      · have hle : radix ≤ n := Nat.le_of_not_lt hn
        have hmod : n % radix < radix := Nat.mod_lt n (by omega)
        rw [toDigits_step hlow hle, digitsValue_append_one,
          ih (n / radix) (Nat.div_lt_self (by omega) hlow),
          digitValue_digitChar (Nat.lt_of_lt_of_le hmod hhigh), Nat.mul_comm, Nat.div_add_mod]

/-- `Nat.toDigits` writes no leading zero, except for `0`. -/
theorem head_toDigits_ne_zero (hlow : 1 < radix) {n : Nat} (hn : n ≠ 0) :
    (Nat.toDigits radix n).head? ≠ some '0' := by
  induction n using Nat.strongRecOn with
  | ind n ih =>
      by_cases hlt : n < radix
      · rw [Nat.toDigits_of_lt_base hlt, List.head?_cons]
        intro h
        exact hn (Nat.digitChar_eq_zero.mp (Option.some.inj h))
      · have hle : radix ≤ n := Nat.le_of_not_lt hlt
        have hdiv : n / radix ≠ 0 := Nat.ne_of_gt (Nat.div_pos hle (by omega))
        have hhead : (Nat.toDigits radix (n / radix)).head?.isSome = true :=
          List.isSome_head?.mpr Nat.toDigits_ne_nil
        rw [toDigits_step hlow hle, List.head?_append, Option.or_of_isSome hhead]
        exact ih (n / radix) (Nat.div_lt_self (by omega) hlow) hdiv

/-- `Nat.digitChar` inverts `digitValue` on decimal digits. -/
theorem digitChar_digitValue {c : Char} (hc : isDigit 10 c = true) :
    Nat.digitChar (digitValue c) = c := by
  have hlow : '0'.toNat ≤ c.toNat := (isDigit_ten_iff.mp hc).1
  apply Char.toNat_inj.mp
  rw [Nat.toNat_digitChar_of_lt_ten (digitValue_lt hc), digitValue_of_isDigit_ten hc]
  exact Nat.add_sub_cancel' hlow

/-- **`Nat.toDigits` inverts `digitsValue`** on decimal digits without superfluous zeros. -/
theorem toDigits_digitsValue {ds : Text} (hds : ∀ c ∈ ds, isDigit 10 c = true) (hempty : ds ≠ [])
    (hhead : 1 < ds.length → ds.head? ≠ some '0') : Nat.toDigits 10 (digitsValue 10 ds) = ds := by
  induction ds using List.reverseRecOn with
  | nil => exact absurd rfl hempty
  | append_singleton ds last ih =>
      have hlast : isDigit 10 last = true := hds last (by simp)
      have hlt := digitValue_lt hlast
      cases ds with
      | nil =>
          show Nat.toDigits 10 (0 * 10 + digitValue last) = [last]
          rw [Nat.zero_mul, Nat.zero_add, Nat.toDigits_of_lt_base hlt, digitChar_digitValue hlast]
      | cons first ds =>
          -- the digits before the last one do not start with a zero, so that they count
          have hfirst : first ≠ '0' := fun h => hhead (by simp) (congrArg some h)
          have hdigit : isDigit 10 first = true := hds first (by simp)
          have hpos : 10 ^ ds.length ≤ digitsValue 10 (first :: ds) :=
            pow_le_digitsValue (fun h => hfirst ((digitValue_eq_zero_iff hdigit).mp h))
          have hone : 0 < 10 ^ ds.length := Nat.pow_pos (by decide)
          have hbefore := ih (fun c hc => hds c (List.mem_append_left _ hc)) (List.cons_ne_nil _ _)
            (fun _ h => hfirst (Option.some.inj h))
          rw [digitsValue_append_one, toDigits_step (by decide) (by omega)]
          rw [show (digitsValue 10 (first :: ds) * 10 + digitValue last) / 10 =
              digitsValue 10 (first :: ds) by omega,
            show (digitsValue 10 (first :: ds) * 10 + digitValue last) % 10 = digitValue last by omega,
            hbefore, digitChar_digitValue hlast]

/-- A number below `radix ^ k` is written with at most `k` digits. -/
theorem length_toDigits_le (hlow : 1 < radix) {n k : Nat} (hk : 0 < k) (hn : n < radix ^ k) :
    (Nat.toDigits radix n).length ≤ k :=
  (Nat.length_toDigits_le_iff hlow hk).mpr hn

/-- `spanDigits` takes a written number whole if no digit follows. -/
theorem spanDigits_toDigits (hlow : 1 < radix) (hhigh : radix ≤ 16) (n : Nat) {rest : Text}
    (hrest : startsWithDigit radix rest = false) :
    spanDigits radix (Nat.toDigits radix n ++ rest) = (Nat.toDigits radix n, rest) :=
  spanDigits_append_of_digits (fun _ hc => isDigit_of_mem_toDigits hlow hhigh hc) hrest

/-! ## Blanks and signs -/

/-- No digit is blank. -/
theorem isBlank_eq_false_of_isDigit {c : Char} (hc : isDigit 16 c = true) : isBlank c = false := by
  apply Bool.eq_false_iff.mpr
  intro hblank
  simp only [isBlank, Bool.or_eq_true, decide_eq_true_eq] at hblank
  rcases hblank with ((((rfl | rfl) | rfl) | rfl) | rfl) | rfl <;> exact absurd hc (by decide)

theorem skipBlanks_cons {c : Char} {t : Text} (hc : isBlank c = false) :
    skipBlanks (c :: t) = c :: t :=
  List.dropWhile_cons_of_neg (Bool.eq_false_iff.mp hc)

/-- `skipBlanks` skips blanks before anything. -/
theorem skipBlanks_append {blanks t : Text} (hblanks : ∀ c ∈ blanks, isBlank c = true) :
    skipBlanks (blanks ++ t) = skipBlanks t :=
  List.dropWhile_append_of_pos hblanks

theorem takeSign_cons {c : Char} {t : Text} (hminus : c ≠ '-') (hplus : c ≠ '+') :
    takeSign (c :: t) = (false, c :: t) := by
  unfold takeSign
  split
  · next h => exact absurd (List.cons.inj h).1 hminus
  · next h => exact absurd (List.cons.inj h).1 hplus
  · rfl

/-- The sign of a numeral, written or not. -/
inductive NumeralSign where
  | none
  | plus
  | minus
  deriving DecidableEq, Repr

namespace NumeralSign

def text : NumeralSign → Text
  | none => []
  | plus => ['+']
  | minus => ['-']

def isMinus (sign : NumeralSign) : Bool := sign = minus

theorem mem_text {sign : NumeralSign} {c : Char} (hc : c ∈ sign.text) : c = '+' ∨ c = '-' := by
  cases sign with
  | none => cases hc
  | plus => exact .inl (List.mem_singleton.mp hc)
  | minus => exact .inr (List.mem_singleton.mp hc)

/-- `takeSign` takes `sign` if no further sign follows. -/
theorem takeSign_text (sign : NumeralSign) {c : Char} {t : Text} (hminus : c ≠ '-')
    (hplus : c ≠ '+') : takeSign (sign.text ++ c :: t) = (sign.isMinus, c :: t) := by
  cases sign with
  | none => exact takeSign_cons hminus hplus
  | plus => rfl
  | minus => rfl

/-- `skipBlanks` stops before a sign. -/
theorem skipBlanks_text (sign : NumeralSign) {c : Char} {t : Text} (hc : isBlank c = false) :
    skipBlanks (sign.text ++ c :: t) = sign.text ++ c :: t := by
  cases sign with
  | none => exact skipBlanks_cons hc
  | plus => exact skipBlanks_cons (by decide)
  | minus => exact skipBlanks_cons (by decide)

end NumeralSign

/-- `takeSign` takes the text of some `NumeralSign`. -/
theorem exists_sign_takeSign (t : Text) :
    ∃ sign : NumeralSign, t = sign.text ++ (takeSign t).2 ∧ (takeSign t).1 = sign.isMinus := by
  unfold takeSign
  split
  · exact ⟨.minus, rfl, rfl⟩
  · exact ⟨.plus, rfl, rfl⟩
  · exact ⟨.none, rfl, rfl⟩

/-! ## Rests -/

/-- Where something leaves a rest, something leaves a shortest one. -/
theorem exists_shortest_rest {α : Type} {P : α → Text → Prop} {a : α} {rest : Text} (h : P a rest) :
    ∃ a rest, P a rest ∧ ∀ a' rest', P a' rest' → rest.length ≤ rest'.length := by
  -- on the length of the rest: one that is not the shortest is longer than another
  induction hlength : rest.length using Nat.strongRecOn generalizing a rest with
  | ind n ih =>
      by_cases hshortest : ∀ a' rest', P a' rest' → rest.length ≤ rest'.length
      · exact ⟨a, rest, h, hshortest⟩
      · push Not at hshortest
        obtain ⟨a', rest', h', hlt⟩ := hshortest
        exact ih rest'.length (hlength ▸ hlt) h' rfl

end NetKit
