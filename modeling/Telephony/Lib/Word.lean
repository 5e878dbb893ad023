import Mathlib.Algebra.Order.Ring.Int

/-!
# Machine numbers

What a number of fixed size keeps of an integer: `int32` and `toInt` for a signed number of 32 bits
in two's complement, `toSsize` and `toSize` for signed and unsigned numbers of 64 bits, `sizeSub`
for their difference. Inside the range nothing is lost (`int32_of_range`, `toSize_natCast`,
`sizeSub_of_le`).
-/

namespace Telephony.Lib

variable {i : ℤ} {m n : ℕ}

/-! ## 32 bits -/

def int32 (n : ℤ) : ℤ := n.bmod (2 ^ 32)

lemma int32_range (i : ℤ) : -2 ^ 31 ≤ int32 i ∧ int32 i < 2 ^ 31 := by
  unfold int32
  rw [Int.bmod_def]
  omega

lemma int32_of_range (hlow : -2 ^ 31 ≤ i) (hhigh : i < 2 ^ 31) : int32 i = i := by
  unfold int32
  rw [Int.bmod_def]
  omega

lemma int32_of_lt (hlow : 0 ≤ i) (hhigh : i < 2 ^ 31) : int32 i = i := int32_of_range (by omega) hhigh

lemma int32_of_nonneg (h : 0 ≤ i) : int32 i ≤ i ∧ (int32 i < 0 → 2 ^ 31 ≤ i) := by
  unfold int32
  rw [Int.bmod_def]
  omega

lemma int32_neg (hlow : 2 ^ 31 ≤ i) (hhigh : i < 2 ^ 32) : int32 i < 0 := by
  unfold int32
  rw [Int.bmod_def]
  omega

lemma int32_add (m n : ℕ) : int32 (int32 m + n) = int32 ((m + n : ℕ) : ℤ) := by
  unfold int32
  rw [Int.bmod_def, Int.bmod_def, Int.bmod_def]
  omega

def toInt (n : ℕ) : ℤ := int32 n

lemma toInt_of_lt (h : n < 2 ^ 31) : toInt n = n := int32_of_range (by omega) (by omega)

/-! ## 64 bits -/

def toSsize (n : ℕ) : ℤ := Int.bmod n (2 ^ 64)

def toSize (i : ℤ) : ℕ := (i % 2 ^ 64).toNat

def sizeSub (a b : ℕ) : ℕ := (a + 2 ^ 64 - b) % 2 ^ 64

lemma toSize_natCast (h : n < 2 ^ 64) : toSize n = n := by
  unfold toSize
  omega

lemma sizeSub_of_le (hle : n ≤ m) (h : m < 2 ^ 64) : sizeSub m n = m - n := by
  unfold sizeSub
  omega

lemma toSize_toSsize (h : n < 2 ^ 64) : toSize (toSsize n) = n := by
  unfold toSize toSsize
  rw [Int.bmod_def]
  omega

lemma toSsize_ne_zero (hpos : 0 < n) (h : n < 2 ^ 64) : toSsize n ≠ 0 := by
  unfold toSsize
  rw [Int.bmod_def]
  omega

lemma toSsize_natCast (h : n < 2 ^ 63) : toSsize n = n := by
  unfold toSsize
  rw [Int.bmod_def]
  omega

lemma toSize_toInt (h : n < 2 ^ 32) : toSize (toInt n) = n ∨ 2 ^ 31 ≤ n ∧ 2 ^ 63 ≤ toSize (toInt n) := by
  unfold toSize toInt int32
  rw [Int.bmod_def]
  split_ifs <;> omega

/-! ## Bytes -/

/-- What holds of the first 256 numbers, one by one, holds of each byte. -/
lemma forall_byte {P : UInt8 → Prop} (h : ∀ n < 256, P (UInt8.ofNat n)) (c : UInt8) : P c :=
  @UInt8.ofNat_toNat c ▸ h c.toNat c.toNat_lt

end Telephony.Lib
