import Mathlib.Algebra.Order.Ring.Int
import Mathlib.Data.List.Induction

/-!
# Numbers in network order

The most significant byte comes first. `bigEndian` writes a number, `ofBigEndian` reads one, and
they are inverse (`ofBigEndian_bigEndian`); `u16At` reads the two bytes at a position of a buffer.
-/

namespace Telephony.Lib

open List

/-- Source: `htons`, `htonl`, `htonll` -/
def bigEndian : ℕ → ℕ → List UInt8
  | 0, _ => []
  | n + 1, value => bigEndian n (value / 256) ++ [UInt8.ofNat (value % 256)]

/-- Source: `ntohs`, `ntohll` -/
def ofBigEndian (bytes : List UInt8) : ℕ := bytes.foldl (fun n b => n * 256 + b.toNat) 0

/-- Source: `ntohs` -/
def u16At (mem : List UInt8) (i : ℕ) : ℕ := (mem.getD i 0).toNat * 256 + (mem.getD (i + 1) 0).toNat

@[simp]
lemma length_bigEndian (n value : ℕ) : (bigEndian n value).length = n := by
  induction n generalizing value with
  | zero => rfl
  | succ n ih => simp [bigEndian, ih]

lemma ofBigEndian_bigEndian (n value : ℕ) (h : value < 256 ^ n) : ofBigEndian (bigEndian n value) = value := by
  induction n generalizing value with
  | zero =>
    obtain rfl : value = 0 := by simpa using h
    rfl
  | succ n ih =>
    have hstep := ih (value / 256) (Nat.div_lt_of_lt_mul (by rw [Nat.mul_comm]; exact h))
    unfold ofBigEndian at hstep ⊢
    rw [bigEndian, foldl_append, foldl_cons, foldl_nil, UInt8.toNat_ofNat']
    omega

lemma ofBigEndian_lt (bytes : List UInt8) : ofBigEndian bytes < 256 ^ bytes.length := by
  induction bytes using reverseRecOn with
  | nil => decide
  | append_singleton bytes b ih =>
    have hb := b.toNat_lt
    unfold ofBigEndian at ih ⊢
    rw [foldl_append, foldl_cons, foldl_nil, length_append, length_singleton, Nat.pow_succ]
    omega

variable {mem field rest : List UInt8} {i k v : ℕ}

lemma u16At_bigEndian (h : mem.drop i = bigEndian 2 v ++ rest) : u16At mem i = v % 65536 := by
  have hbs : bigEndian 2 v = [UInt8.ofNat (v / 256 % 256), UInt8.ofNat (v % 256)] := rfl
  have hfst := congrArg (fun l : List UInt8 => l.getD 0 0) h
  have hsec := congrArg (fun l : List UInt8 => l.getD 1 0) h
  simp only [hbs, getD_eq_getElem?_getD, getElem?_drop, cons_append, Nat.add_zero,
    getElem?_cons_zero, getElem?_cons_succ, Option.getD_some] at hfst hsec
  rw [u16At, getD_eq_getElem?_getD, getD_eq_getElem?_getD, hfst, hsec, UInt8.toNat_ofNat', UInt8.toNat_ofNat']
  omega

lemma drop_add_of_drop (h : mem.drop i = field ++ rest) (hk : field.length = k) : mem.drop (i + k) = rest := by
  rw [← drop_drop, h, ← hk, drop_left]

end Telephony.Lib
