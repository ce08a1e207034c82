import Mathlib.Data.List.TakeWhile
import Mathlib.Data.Nat.Digits.Lemmas
import NetKit.Proofs.Number.HexMantissa
import NetKit.Proofs.Numeral
import NetKit.Proofs.Words.Checked

/-!
# Hexadecimal digits in words — the loop over digits and point, and what it knows at every moment

A hexadecimal mantissa is read in one loop over its digits and its point. The loop counts the position, the kept
digits and the exponent in words, and remembers whether it has passed the point. Here the loop is written down with
its checks (`HexScan.run`), and run over any sequence of digits with at most one point (`PointedDigits`). No check
fails, and after every digit the loop has what reading the digits before and after the point separately gives
(`HexScan.run_pointed`).

So what is known of digits on either side of the point (`HexAccumulator.Holds`) holds at every moment of the loop. It
is said here in terms of the number that the digits so far denote (`HexAccumulator.Tells`): the kept digits, the
exponent and `sticky` are all that rounding needs.

## Contents
- `HexAccumulator.pushInWords`, `HexScan.step`, `HexScan.run`: the loop in words.
- `Mantissa.ofPointed`, `PointedDigits`: digits with at most one point.
- `HexScan.run_pointed`: the loop over such a sequence.
- `HexAccumulator.Tells`, `HexScan.run_tells`: what the loop knows.
-/

namespace NetKit

-- Powers are those of the core library, as in the modules that define rounding.
attribute [local instance (high)] instPowNat

/-! ## The loop -/

/-- `HexAccumulator.push`, with 64 bits for the mantissa and the exponent and 32 for the count. -/
def HexAccumulator.pushInWords (afterPoint : Bool) (a : HexAccumulator) (c : Char) :
    Checked HexAccumulator :=
  let digit := digitValue c
  if a.kept < maxKeptDigits then do
    let kept ← if a.mantissa ≠ 0 ∨ digit ≠ 0 then natWord 32 (a.kept + 1) else pure a.kept
    let mantissa ← natWord 64 ((← natWord 64 (a.mantissa * 16)) + digit)
    let exponent ← if afterPoint then intWord (a.exponent - 4) else pure a.exponent
    return ⟨mantissa, kept, exponent, a.sticky⟩
  else do
    let exponent ← if afterPoint then pure a.exponent else intWord (a.exponent + 4)
    return { a with sticky := a.sticky || digit != 0, exponent := exponent }

/-- The state of the loop: the position, the digits so far, and whether the point has been passed. -/
structure HexScan where
  position : Nat
  digits : HexAccumulator
  afterPoint : Bool
  deriving DecidableEq, Repr

namespace HexScan

/-- The state at the first digit. -/
def start (position : Nat) : HexScan := ⟨position, .empty, false⟩

/-- One turn of the loop; `none` if `c` belongs to no mantissa. -/
def step (s : HexScan) (c : Char) : Checked (Option HexScan) :=
  if c = '.' ∧ s.afterPoint = false then do
    return some ⟨← natWord 64 (s.position + 1), s.digits, true⟩
  else if isDigit 16 c then do
    let digits ← s.digits.pushInWords s.afterPoint c
    return some ⟨← natWord 64 (s.position + 1), digits, s.afterPoint⟩
  else return none

/-- Turns of the loop, up to the first character that belongs to no mantissa. -/
def run : Text → HexScan → Checked HexScan
  | [], s => return s
  | c :: t, s => do
    match ← s.step c with
    | none => return s
    | some s' => run t s'

end HexScan

/-! ## Digits with at most one point -/

/-- Hexadecimal digits with at most one point. -/
def PointedDigits (ds : Text) : Prop :=
  (∀ c ∈ ds, isDigit 16 c = true ∨ c = '.') ∧ ds.count '.' ≤ 1

/-- The digits before the point of `ds` and those after it. -/
def Mantissa.ofPointed (ds : Text) : Mantissa :=
  ⟨ds.takeWhile (· ≠ '.'), (ds.dropWhile (· ≠ '.')).tail⟩

namespace Mantissa

/-- `ofPointed` takes a sequence apart at its first point, or has all of it as `whole`. -/
theorem ofPointed_append {whole : Text} (hwhole : '.' ∉ whole) (fraction : Option Text) :
    ofPointed (whole ++ fraction.elim [] ('.' :: ·)) = ⟨whole, fraction.getD []⟩ := by
  have hall : ∀ c ∈ whole, decide (c ≠ '.') = true := by
    intro c hc
    exact decide_eq_true fun h => hwhole (h ▸ hc)
  unfold ofPointed
  rw [List.takeWhile_append_of_pos hall, List.dropWhile_append_of_pos hall]
  cases fraction with
  | none => exact congrArg (Mantissa.mk · []) (List.append_nil whole)
  | some fraction => simp

end Mantissa

/-- `PointedDigits` are digits, and digits behind a point if there is one. -/
theorem PointedDigits.exists_parts {ds : Text} (h : PointedDigits ds) :
    ∃ (whole : Text) (fraction : Option Text), ds = whole ++ fraction.elim [] ('.' :: ·) ∧
      (∀ c ∈ whole, isDigit 16 c = true) ∧ ∀ c ∈ fraction.getD [], isDigit 16 c = true := by
  obtain ⟨hmem, hcount⟩ := h
  by_cases hpoint : '.' ∈ ds
  · obtain ⟨whole, fraction, rfl, hwhole⟩ := List.eq_append_cons_of_mem hpoint
    have hfraction : '.' ∉ fraction := by
      rw [List.count_append, List.count_cons_self, List.count_eq_zero.mpr hwhole] at hcount
      exact List.count_eq_zero.mp (by omega)
    refine ⟨whole, some fraction, rfl, ?_, ?_⟩
    · intro c hc
      exact (hmem c (by simp [hc])).resolve_right fun h => hwhole (h ▸ hc)
    · intro c hc
      exact (hmem c (List.mem_append_right _ (List.mem_cons_of_mem _ hc))).resolve_right
        fun h => hfraction (h ▸ hc)
  · refine ⟨ds, none, (List.append_nil ds).symm, fun c hc => ?_, List.forall_mem_nil _⟩
    exact (hmem c hc).resolve_right fun h => hpoint (h ▸ hc)

/-- What has been read of `PointedDigits` are `PointedDigits`. -/
theorem PointedDigits.of_append {read rest : Text} (h : PointedDigits (read ++ rest)) :
    PointedDigits read := by
  obtain ⟨hmem, hcount⟩ := h
  rw [List.count_append] at hcount
  exact ⟨fun c hc => hmem c (List.mem_append_left _ hc), by omega⟩

/-! ## The loop over such a sequence -/

namespace HexAccumulator.Holds

variable {a : HexAccumulator} {ds : Text} {places dropped rest : Nat} {c : Char}

/-- **No check fails in `pushInWords`** below 2^60 digits. -/
theorem pushInWords_eq_ok (h : a.Holds ds places dropped rest) (hc : isDigit 16 c = true)
    (hlength : ds.length < 2 ^ 60) (hplaces : places ≤ ds.length) (afterPoint : Bool) :
    a.pushInWords afterPoint c = .ok (HexAccumulator.push afterPoint a c) := by
  have hdigit := digitValue_lt hc
  have hexponent := h.exponent
  have hdropped := h.dropped_le
  have hlimit : maxKeptDigits = 15 := rfl
  unfold pushInWords HexAccumulator.push
  by_cases hroom : a.kept < maxKeptDigits
  · have hmantissa : a.mantissa < 16 ^ 14 :=
      Nat.lt_of_lt_of_le h.mantissa_lt (Nat.pow_le_pow_right (by decide) (by omega))
    have hcount : natWord 32 (a.kept + 1) = .ok (a.kept + 1) := natWord_of_lt (by omega)
    have hpoint : intWord (a.exponent - 4) = .ok (a.exponent - 4) :=
      intWord_of_mem (by omega) (by omega)
    simp only [if_pos hroom, natWord_of_lt (show a.mantissa * 16 < 2 ^ 64 by omega),
      natWord_of_lt (show a.mantissa * 16 + digitValue c < 2 ^ 64 by omega), hcount, hpoint,
      Checked.ok_bind, Checked.pure_eq_ok]
    split <;> split <;> rfl
  · have hpoint : intWord (a.exponent + 4) = .ok (a.exponent + 4) :=
      intWord_of_mem (by omega) (by omega)
    simp only [if_neg hroom, hpoint, Checked.ok_bind, Checked.pure_eq_ok]
    split <;> rfl

end HexAccumulator.Holds

namespace HexScan

variable {s s' : HexScan} {ds t : Text} {places dropped rest : Nat} {c : Char}

theorem step_digit (h : s.digits.Holds ds places dropped rest) (hc : isDigit 16 c = true)
    (hlength : ds.length < 2 ^ 60) (hplaces : places ≤ ds.length) (hposition : s.position + 1 < 2 ^ 64) :
    s.step c =
      .ok (some ⟨s.position + 1, HexAccumulator.push s.afterPoint s.digits c, s.afterPoint⟩) := by
  have hpoint : c ≠ '.' := by
    rintro rfl
    exact absurd hc (by decide)
  unfold step
  rw [if_neg (fun h => hpoint h.1), if_pos hc, h.pushInWords_eq_ok hc hlength hplaces,
    natWord_of_lt hposition]
  rfl

theorem step_point (hpoint : s.afterPoint = false) (hposition : s.position + 1 < 2 ^ 64) :
    s.step '.' = .ok (some ⟨s.position + 1, s.digits, true⟩) := by
  unfold step
  rw [if_pos ⟨rfl, hpoint⟩, natWord_of_lt hposition]
  rfl

theorem run_cons (h : s.step c = .ok (some s')) : run (c :: t) s = run t s' := by
  rw [run, h]
  rfl

/-- `run` over digits on one side of the point. -/
theorem run_digits (h : s.digits.Holds ds places dropped rest) {digits : Text}
    (hdigits : ∀ c ∈ digits, isDigit 16 c = true) (hlength : ds.length + digits.length < 2 ^ 60)
    (hplaces : places ≤ ds.length) (hposition : s.position + digits.length < 2 ^ 64) :
    run (digits ++ t) s =
      run t ⟨s.position + digits.length, digits.foldl (HexAccumulator.push s.afterPoint) s.digits,
        s.afterPoint⟩ := by
  induction digits generalizing s ds places dropped rest with
  | nil => rfl
  | cons c digits ih =>
      obtain ⟨hc, htail⟩ := List.forall_mem_cons.mp hdigits
      rw [List.length_cons] at hlength hposition
      obtain ⟨dropped', rest', hpush⟩ := h.push hc s.afterPoint
      have hone := Bool.toNat_le s.afterPoint
      have hstep := step_digit h hc (by omega) hplaces (by omega)
      rw [List.cons_append, run_cons hstep, ih hpush htail
        (by rw [List.length_append, List.length_singleton]; omega)
        (by rw [List.length_append, List.length_singleton]; omega) (by dsimp only; omega)]
      rw [List.length_cons, List.foldl_cons, Nat.add_assoc, Nat.add_comm 1]

/-- **`run` over `PointedDigits`** has what the digits before the point and those after it give. -/
theorem run_pointed (h : PointedDigits ds) (hlength : ds.length < 2 ^ 60) {position : Nat}
    (hposition : position < 2 ^ 63) :
    run (ds ++ t) (start position) =
      run t ⟨position + ds.length, (Mantissa.ofPointed ds).accumulate, decide ('.' ∈ ds)⟩ := by
  obtain ⟨whole, fraction, rfl, hwhole, hfraction⟩ := h.exists_parts
  have hpoint : '.' ∉ whole := not_mem_of_digits (Nat.le_refl 16) hwhole (by decide)
  rw [Mantissa.ofPointed_append hpoint]
  cases fraction with
  | none =>
      rw [Option.elim_none, List.append_nil] at hlength ⊢
      rw [run_digits HexAccumulator.holds_empty hwhole (by rw [List.length_nil]; omega) (Nat.zero_le _)
        (by dsimp only [start]; omega), decide_eq_false hpoint]
      rfl
  | some fraction =>
      have hmem : '.' ∈ whole ++ '.' :: fraction := List.mem_append_right _ List.mem_cons_self
      rw [Option.elim_some, List.length_append, List.length_cons] at hlength
      rw [Option.elim_some, List.length_append, List.length_cons, Option.getD_some]
      rw [Option.getD_some] at hfraction
      obtain ⟨dropped, rest, hholds⟩ := HexAccumulator.holds_empty.foldl hwhole false
      have hpass := step_point
        (s := ⟨position + whole.length, whole.foldl (HexAccumulator.push false) .empty, false⟩) rfl
        (by dsimp only; omega)
      rw [List.append_assoc, run_digits HexAccumulator.holds_empty hwhole (by rw [List.length_nil]; omega)
        (Nat.zero_le _) (by dsimp only [start]; omega), List.cons_append]
      rw [show (start position).position = position from rfl, show (start position).digits = .empty from rfl,
        show (start position).afterPoint = false from rfl, run_cons hpass,
        run_digits hholds hfraction (by rw [List.nil_append]; omega)
          (by rw [Bool.toNat_false, Nat.zero_mul]; exact Nat.zero_le _) (by dsimp only; omega),
        decide_eq_true hmem]
      dsimp only
      rw [Nat.add_assoc, Nat.add_assoc, Nat.add_comm 1]
      rfl

end HexScan

/-! ## What the loop knows -/

/-- The number that the digits denote: those before the point as an integer, and those after it as a
    fraction. -/
def Mantissa.pointValue (m : Mantissa) : ℚ :=
  digitsValue 16 m.whole + digitsValue 16 m.fraction / 16 ^ m.fraction.length

theorem Mantissa.hexValue_eq_pointValue (m : Mantissa) : m.hexValue = m.pointValue := by
  have hsplit : digitsValue 16 m.digits =
      digitsValue 16 m.whole * 16 ^ m.fraction.length + digitsValue 16 m.fraction := by
    rw [← foldl_digitsValue, digits, digitsValue, List.foldl_append]
    rfl
  have hpos : (16 : ℚ) ^ m.fraction.length ≠ 0 := pow_ne_zero _ (by norm_num)
  unfold hexValue pointValue
  rw [hsplit, Nat.cast_add, Nat.cast_mul, Nat.cast_pow, Nat.cast_ofNat, add_div,
    mul_div_cancel_right₀ _ hpos]

namespace HexAccumulator

/-- What `a` tells of `v`: the kept digits are the leading ones, `exponent` is that of the last of them, and
    `sticky` says whether anything follows. That is all that rounding needs, whatever power of two the
    number is multiplied with. -/
structure Tells (a : HexAccumulator) (v : ℚ) : Prop where
  le : a.mantissa * 2 ^ a.exponent ≤ v
  lt : v < (a.mantissa + 1) * 2 ^ a.exponent
  exact_iff : v = a.mantissa * 2 ^ a.exponent ↔ a.sticky = false
  mantissa_lt : a.mantissa < 2 ^ 60
  kept_eq : a.kept = (Nat.digits 16 a.mantissa).length
  le_of_sticky : a.sticky = true → 2 ^ 56 ≤ a.mantissa
  rounds : ∀ k : ℤ, (Rounded.ofMantissa a.mantissa a.sticky (a.exponent + k)).Rounds (v * 2 ^ k)

namespace Holds

variable {a : HexAccumulator} {ds : Text} {places dropped rest : Nat}

/-- `kept` is the count of hexadecimal digits of the mantissa. -/
theorem kept_eq (h : a.Holds ds places dropped rest) :
    a.kept = (Nat.digits 16 a.mantissa).length := by
  apply Nat.le_antisymm
  · by_contra hless
    have hkept : a.kept ≠ 0 := by omega
    have hlt : a.mantissa < 16 ^ (a.kept - 1) :=
      (Nat.digits_length_le_iff (by decide) a.mantissa).mp (by omega)
    exact absurd (h.le_mantissa hkept) (Nat.not_le_of_lt hlt)
  · exact (Nat.digits_length_le_iff (by decide) a.mantissa).mpr h.mantissa_lt

theorem tells (h : a.Holds ds places dropped rest) : a.Tells (digitsValue 16 ds / 16 ^ places) := by
  have hscale : (0 : ℚ) < 2 ^ a.exponent := zpow_pos (by norm_num) _
  have hx := h.truncates
  rw [← h.scale]
  refine ⟨mul_le_mul_of_nonneg_right hx.le (le_of_lt hscale), mul_lt_mul_of_pos_right hx.lt hscale, ?_,
    h.mantissa_lt_two_pow, h.kept_eq, fun hsticky => Nat.le_trans (by decide) (h.pow_le_of_sticky hsticky),
    fun k => ?_⟩
  · rw [mul_left_inj' (ne_of_gt hscale), hx.exact_iff]
  · rw [mul_assoc, ← zpow_add₀ (by norm_num)]
    exact Rounded.rounds_ofMantissa hx h.two_pow_le_of_sticky _

end Holds

end HexAccumulator

/-- `accumulate` tells the number that `PointedDigits` denote. -/
theorem PointedDigits.tells {ds : Text} (h : PointedDigits ds) :
    (Mantissa.ofPointed ds).accumulate.Tells (Mantissa.ofPointed ds).pointValue := by
  have hdigits : ∀ c ∈ (Mantissa.ofPointed ds).digits, isDigit 16 c = true := by
    obtain ⟨whole, fraction, rfl, hwhole, hfraction⟩ := h.exists_parts
    rw [Mantissa.ofPointed_append (not_mem_of_digits (Nat.le_refl 16) hwhole (by decide))]
    exact List.forall_mem_append.mpr ⟨hwhole, hfraction⟩
  obtain ⟨dropped, rest, hholds⟩ := Mantissa.holds_accumulate hdigits
  rw [← Mantissa.hexValue_eq_pointValue]
  exact hholds.tells

/-- **At every moment of the loop the kept digits, the exponent and `sticky` tell the number so far.** `run`
    over `PointedDigits` gets past all of them without a fault, and wherever it stands, it `Tells` the
    number that the digits before denote. -/
theorem HexScan.run_tells {ds : Text} (hds : PointedDigits ds) (hlength : ds.length < 2 ^ 60) {position : Nat}
    (hposition : position < 2 ^ 63) {read rest : Text} (hread : ds = read ++ rest) :
    ∃ s : HexScan, run read (start position) = .ok s ∧ run ds (start position) = run rest s ∧
      s.position = position + read.length ∧ (s.afterPoint = true ↔ '.' ∈ read) ∧
      s.digits = (Mantissa.ofPointed read).accumulate ∧
      s.digits.Tells (Mantissa.ofPointed read).pointValue := by
  subst hread
  have hpointed := hds.of_append
  rw [List.length_append] at hlength
  have hrun : ∀ t : Text, run (read ++ t) (start position) = run t
      ⟨position + read.length, (Mantissa.ofPointed read).accumulate, decide ('.' ∈ read)⟩ :=
    fun t => run_pointed hpointed (by omega) hposition
  refine ⟨_, ?_, hrun rest, rfl, decide_eq_true_iff, rfl, hpointed.tells⟩
  have hall := hrun []
  rw [List.append_nil] at hall
  exact hall

/-- Zeros on both sides of the point, and zeros where `maxKeptDigits` are kept already. -/
theorem HexScan.run_tells_interleaved :
    PointedDigits "00.0123456789abcdef008".toList ∧
      HexScan.run "00.0123456789abcdef00".toList (HexScan.start 2) =
        .ok ⟨23, ⟨0x123456789abcdef, 15, -64, false⟩, true⟩ ∧
      HexAccumulator.Tells ⟨0x123456789abcdef, 15, -64, false⟩
        (Mantissa.ofPointed "00.0123456789abcdef00".toList).pointValue ∧
      HexScan.run "00.0123456789abcdef008".toList (HexScan.start 2) =
        .ok ⟨24, ⟨0x123456789abcdef, 15, -64, true⟩, true⟩ := by
  have hall : "00.0123456789abcdef008".toList.all (fun c => isDigit 16 c || c == '.') = true := rfl
  have hds : PointedDigits "00.0123456789abcdef008".toList := by
    refine ⟨fun c hc => ?_, by decide⟩
    simpa using List.all_eq_true.mp hall c hc
  obtain ⟨s, hrun, -, -, -, -, htells⟩ := HexScan.run_tells hds (by decide) (show 2 < 2 ^ 63 by decide)
    (show "00.0123456789abcdef008".toList = "00.0123456789abcdef00".toList ++ ['8'] from rfl)
  have hstate : HexScan.run "00.0123456789abcdef00".toList (HexScan.start 2) =
      .ok ⟨23, ⟨0x123456789abcdef, 15, -64, false⟩, true⟩ := by decide +kernel
  rw [hstate] at hrun
  cases hrun
  exact ⟨hds, hstate, htells, by decide +kernel⟩

end NetKit
