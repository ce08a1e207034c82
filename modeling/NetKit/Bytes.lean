/-!
# Bytes — natural numbers as bytes in little-endian and big-endian order

## Contents
- `littleEndian`, `ofLittleEndian`: the low bytes of a number, lowest first, and back.
- `bigEndian`, `ofBigEndian`: the same in reverse order.
- `hexPair`, `hexBytes`: bytes as pairs of lower-case hexadecimal digits.
-/

namespace NetKit

-- Powers are those of the core library, also where a theory of powers is imported.
attribute [local instance (high)] instPowNat

/-- The `count` low bytes of a number, lowest first. -/
def littleEndian : (count : Nat) → Nat → List UInt8
  | 0, _ => []
  | count + 1, n => UInt8.ofNat n :: littleEndian count (n / 256)

/-- The inverse of `littleEndian`. -/
def ofLittleEndian : List UInt8 → Nat
  | [] => 0
  | b :: bs => b.toNat + 256 * ofLittleEndian bs

/-- The `count` low bytes of a number, highest first. -/
def bigEndian (count n : Nat) : List UInt8 := (littleEndian count n).reverse

/-- The inverse of `bigEndian`. -/
def ofBigEndian (bs : List UInt8) : Nat := ofLittleEndian bs.reverse

/-- `b` as two lower-case hexadecimal digits. -/
def hexPair (b : UInt8) : List Char :=
  [Nat.digitChar (b.toNat / 16), Nat.digitChar (b.toNat % 16)]

/-- `hexPair` on every byte. -/
def hexBytes (bs : List UInt8) : List Char := bs.flatMap hexPair

@[simp] theorem length_littleEndian (count n : Nat) : (littleEndian count n).length = count := by
  induction count generalizing n with
  | zero => rfl
  | succ count ih => simp [littleEndian, ih]

@[simp] theorem length_bigEndian (count n : Nat) : (bigEndian count n).length = count := by
  simp [bigEndian]

/-- `count` bytes hold a number modulo `256 ^ count`. -/
theorem ofLittleEndian_littleEndian (count n : Nat) :
    ofLittleEndian (littleEndian count n) = n % 256 ^ count := by
  induction count generalizing n with
  | zero => simp [littleEndian, ofLittleEndian, Nat.mod_one]
  | succ count ih =>
    have split : n % 256 ^ (count + 1) = n % 256 + 256 * (n / 256 % 256 ^ count) := by
      rw [Nat.pow_succ, Nat.mul_comm, Nat.mod_mul]
    simp only [littleEndian, ofLittleEndian, ih, UInt8.toNat_ofNat', Nat.reducePow, split]

/-- `littleEndian` recovers all bytes that `ofLittleEndian` has read. -/
theorem littleEndian_ofLittleEndian (bs : List UInt8) :
    littleEndian bs.length (ofLittleEndian bs) = bs := by
  induction bs with
  | nil => rfl
  | cons b bs ih =>
    have low : UInt8.ofNat (b.toNat + 256 * ofLittleEndian bs) = b := by
      apply UInt8.toNat_inj.1
      have := b.toNat_lt
      simp only [UInt8.toNat_ofNat']
      omega
    have high : (b.toNat + 256 * ofLittleEndian bs) / 256 = ofLittleEndian bs := by
      have := b.toNat_lt
      omega
    simp [littleEndian, ofLittleEndian, low, high, ih]

end NetKit
