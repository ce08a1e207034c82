import NetKit.Text

/-!
# Checked — arithmetic in machine words, and texts taken by byte positions

The readers of this library work on characters and on numbers of any size. A machine reads the same texts by the
positions of their bytes and counts in words of fixed size, and there an operation can fault (`WordFault`): a result
may not fit into its word, and a position may be none. Here are the operations of such a machine, each with its check.
A `Checked` computation that consists of them either faults at the first check that fails or has passed all of them,
so that to give any result at all is to have passed them.

A position is good if it is the end of some leading characters of the text (`Text.splitAtByte?`). Positions inside
a character are not, nor are those behind the end.

## Contents
- `WordFault`, `Checked`: what can go wrong, and computations that it can go wrong in.
- `natWord`, `intWord`, `natOfInt`, `shiftAmount`: arithmetic.
- `Text.splitAtByte?`, `Text.sliceFrom`, `Text.slice`: taking texts apart.
-/

namespace NetKit

-- Powers are those of the core library, also where a theory of powers is imported.
attribute [local instance (high)] instPowNat

/-- A check that has failed. -/
inductive WordFault where
  /-- A result does not fit into its word. -/
  | overflow
  /-- A position is behind the end of the text or inside a character. -/
  | position
  /-- A shift by less than no bit or by more than sixty. -/
  | shift
  /-- A power of two that is no `Binary64`. -/
  | power
  deriving DecidableEq, Repr

/-- A computation with checks. -/
abbrev Checked (α : Type) := Except WordFault α

namespace Checked

variable {α β : Type}

@[simp] theorem ok_bind (a : α) (f : α → Checked β) : ((Except.ok a : Checked α) >>= f) = f a := rfl

@[simp] theorem pure_eq_ok (a : α) : (pure a : Checked α) = .ok a := rfl

end Checked

/-! ## Arithmetic -/

/-- `n` in an unsigned word of `bits` bits. -/
def natWord (bits n : Nat) : Checked Nat := if n < 2 ^ bits then .ok n else .error .overflow

/-- `i` in a signed word of 64 bits. -/
def intWord (i : Int) : Checked Int :=
  if -0x8000000000000000 ≤ i ∧ i < 0x8000000000000000 then .ok i else .error .overflow

/-- `i` in an unsigned word, of any width. -/
def natOfInt (i : Int) : Checked Nat := if 0 ≤ i then .ok i.toNat else .error .overflow

/-- `i` as a count of bits to shift by. -/
def shiftAmount (i : Int) : Checked Nat := if 0 ≤ i ∧ i ≤ 60 then .ok i.toNat else .error .shift

theorem natWord_of_lt {bits n : Nat} (h : n < 2 ^ bits) : natWord bits n = .ok n := if_pos h

theorem intWord_of_mem {i : Int} (hlow : -0x8000000000000000 ≤ i) (hhigh : i < 0x8000000000000000) :
    intWord i = .ok i :=
  if_pos ⟨hlow, hhigh⟩

theorem natOfInt_natCast (n : Nat) : natOfInt n = .ok n := if_pos (Int.natCast_nonneg n)

theorem shiftAmount_natCast {n : Nat} (h : n ≤ 60) : shiftAmount n = .ok n :=
  if_pos ⟨Int.natCast_nonneg n, Int.ofNat_le.mpr h⟩

/-! ## Taking texts apart -/

namespace Text

/-- The characters before byte position `pos` and those from it on, if the position is good. -/
def splitAtByte? : Nat → Text → Option (Text × Text)
  | 0, t => some ([], t)
  | _ + 1, [] => none
  | pos + 1, c :: t =>
    if c.utf8Size ≤ pos + 1 then
      (splitAtByte? (pos + 1 - c.utf8Size) t).map fun (before, after) => (c :: before, after)
    else none

/-- The characters from `pos` on. -/
def sliceFrom (t : Text) (pos : Nat) : Checked Text :=
  match t.splitAtByte? pos with
  | some (_, after) => .ok after
  | none => .error .position

/-- The characters from `start` to `stop`. -/
def slice (t : Text) (start stop : Nat) : Checked Text :=
  match t.splitAtByte? stop with
  | some (before, _) => before.sliceFrom start
  | none => .error .position

end Text

end NetKit
