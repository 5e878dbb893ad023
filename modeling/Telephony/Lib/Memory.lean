import Mathlib.Algebra.Order.Ring.Int
import Mathlib.Data.List.GetD

/-!
# A byte memory

The memory of a program that works with addresses, as a function from addresses to bytes.
-/

namespace Telephony.Lib

open List

abbrev Memory := ℕ → UInt8

namespace Memory

variable {mem mem' : Memory} {a b n x i k limit : ℕ} {bytes text : List UInt8}

def write (mem : Memory) (a : ℕ) (bytes : List UInt8) : Memory :=
  fun x => if a ≤ x ∧ x < a + bytes.length then bytes.getD (x - a) 0 else mem x

def slice (mem : Memory) (a n : ℕ) : List UInt8 := (List.range n).map fun i => mem (a + i)

def zero (mem : Memory) (a n : ℕ) : Memory :=
  fun x => if a ≤ x ∧ x < a + n then 0 else mem x

def load16 (mem : Memory) (a : ℕ) : ℕ := (mem a).toNat + 256 * (mem (a + 1)).toNat

def store16 (mem : Memory) (a n : ℕ) : Memory :=
  mem.write a [UInt8.ofNat n, UInt8.ofNat (n / 256)]

def Spells (mem : Memory) (a : ℕ) (text : List UInt8) : Prop :=
  ∀ k ≤ text.length, mem (a + k) = text.getD k 0

/-- The bytes from `a` up to the first zero; `none` when there is no zero among the first
`limit`. -/
def readString (mem : Memory) : (limit a : ℕ) → Option (List UInt8)
  | 0, _ => none
  | limit + 1, a => if mem a = 0 then some [] else (readString mem limit (a + 1)).map (mem a :: ·)

lemma write_of_outside (h : x < a ∨ a + bytes.length ≤ x) : mem.write a bytes x = mem x := by
  unfold write
  rw [if_neg (by omega)]

lemma write_nil : mem.write a [] = mem := by
  funext x
  exact write_of_outside (by simp only [length_nil]; omega)

lemma zero_of_outside (h : x < a ∨ a + n ≤ x) : mem.zero a n x = mem x := by
  unfold zero
  rw [if_neg (by omega)]

lemma store16_of_outside (h : x < a ∨ a + 2 ≤ x) : mem.store16 a n x = mem x :=
  write_of_outside h

lemma write_of_inside (h : i < bytes.length) : mem.write a bytes (a + i) = bytes.getD i 0 := by
  unfold write
  rw [if_pos (by omega), Nat.add_sub_cancel_left]

lemma slice_length (mem : Memory) (a n : ℕ) : (mem.slice a n).length = n := by
  simp [slice]

lemma slice_write_part (h : i + n ≤ bytes.length) : (mem.write a bytes).slice (a + i) n = (bytes.drop i).take n := by
  refine ext_getElem (by simp [slice]; omega) fun k h₁ h₂ => ?_
  rw [slice_length] at h₁
  simp only [slice, getElem_map, getElem_range, getElem_take, getElem_drop]
  rw [Nat.add_assoc, write_of_inside (by omega), getD_eq_getElem]

lemma slice_write : (mem.write a bytes).slice a bytes.length = bytes := by
  refine ext_getElem (by simp [slice]) fun i h₁ h₂ => ?_
  simp only [slice, getElem_map, getElem_range]
  rw [write_of_inside h₂, getD_eq_getElem _ _ h₂]

lemma slice_write_behind : (mem.write n bytes).slice 0 n = mem.slice 0 n := by
  refine map_congr_left fun i hi => ?_
  exact write_of_outside (.inl (by simpa using mem_range.mp hi))

lemma slice_write_append : (mem.write n bytes).slice 0 (n + bytes.length) = mem.slice 0 n ++ bytes := by
  refine ext_getElem (by simp [slice]) fun i h₁ h₂ => ?_
  rw [slice_length] at h₁
  simp only [slice, getElem_map, getElem_range, Nat.zero_add]
  rcases Nat.lt_or_ge i n with hlt | hge
  · rw [getElem_append_left (by simpa using hlt), write_of_outside (.inl hlt)]
    simp
  · obtain ⟨k, rfl⟩ : ∃ k, i = n + k := ⟨i - n, by omega⟩
    rw [write_of_inside (by omega), getD_eq_getElem _ _ (by omega)]
    simp

lemma load16_store16 (h : n < 2 ^ 16) : (mem.store16 a n).load16 a = n := by
  have hlow : mem.store16 a n a = UInt8.ofNat n := by simp [store16, write]
  have hhigh : mem.store16 a n (a + 1) = UInt8.ofNat (n / 256) := by simp [store16, write]
  rw [load16, hlow, hhigh, UInt8.toNat_ofNat', UInt8.toNat_ofNat']
  omega

lemma load16_congr (h₀ : mem' a = mem a) (h₁ : mem' (a + 1) = mem (a + 1)) : mem'.load16 a = mem.load16 a := by
  rw [load16, load16, h₀, h₁]

lemma load16_lt : mem.load16 a < 2 ^ 16 := by
  have h₀ := (mem a).toNat_lt
  have h₁ := (mem (a + 1)).toNat_lt
  unfold load16
  omega

lemma spells_write : (mem.write a (text ++ [0])).Spells a text := by
  intro k hk
  unfold write
  rw [if_pos (by simp only [length_append, length_singleton]; omega), Nat.add_sub_cancel_left]
  rcases Nat.lt_or_ge k text.length with hlt | hge
  · rw [getD_append _ _ _ _ hlt]
  · obtain rfl : k = text.length := by omega
    simp

lemma slice_take (h : k ≤ n) : (mem.slice a n).take k = mem.slice a k := by
  rw [slice, slice, ← map_take, take_range, Nat.min_eq_left h]

lemma slice_congr (h : ∀ i < n, mem' (a + i) = mem (a + i)) : mem'.slice a n = mem.slice a n :=
  map_congr_left fun i hi => h i (mem_range.mp hi)

lemma spells_iff_slice : mem.Spells a text ↔ mem.slice a (text.length + 1) = text ++ [0] := by
  constructor
  · intro h
    refine ext_getElem (by simp [slice]) fun i h₁ h₂ => ?_
    rw [slice_length] at h₁
    have hi := h i (by omega)
    simp only [slice, getElem_map, getElem_range, hi]
    rcases Nat.lt_or_ge i text.length with hlt | hge
    · rw [getElem_append_left hlt, getD_eq_getElem _ _ hlt]
    · obtain rfl : i = text.length := by omega
      simp
  · intro h k hk
    have hget := congrArg (fun l => l.getD k 0) h
    simp only [slice] at hget
    rw [getD_eq_getElem _ _ (by simp; omega), getElem_map, getElem_range] at hget
    rw [hget]
    rcases Nat.lt_or_ge k text.length with hlt | hge
    · rw [getD_append _ _ _ _ hlt]
    · obtain rfl : k = text.length := by omega
      simp

lemma Spells.congr (h : mem.Spells a text) (hsame : ∀ x, a ≤ x → x ≤ a + text.length → mem' x = mem x) :
    mem'.Spells a text := by
  intro k hk
  rw [hsame (a + k) (by omega) (by omega)]
  exact h k hk

lemma readString_of_spells (hzero : 0 ∉ text) (h : mem.Spells a text)
    (hlim : text.length < limit) : mem.readString limit a = some text := by
  induction text generalizing a limit with
  | nil =>
    obtain ⟨m, rfl⟩ : ∃ m, limit = m + 1 := ⟨limit - 1, by omega⟩
    have hend := h 0 le_rfl
    simp only [Nat.add_zero, getD_nil] at hend
    rw [readString, if_pos hend]
  | cons c text ih =>
    simp only [length_cons] at hlim
    obtain ⟨m, rfl⟩ : ∃ m, limit = m + 1 := ⟨limit - 1, by omega⟩
    have hfst := h 0 (Nat.zero_le _)
    simp only [Nat.add_zero] at hfst
    have hne : c ≠ 0 := fun hc => hzero (hc ▸ mem_cons_self)
    have hrest : mem.Spells (a + 1) text := by
      intro k hk
      have hk' := h (k + 1) (by simp only [length_cons]; omega)
      rw [getD_cons_succ] at hk'
      rw [show a + 1 + k = a + (k + 1) by omega, hk']
    rw [readString, if_neg (by rw [hfst]; exact hne),
      ih (fun hmem => hzero (mem_cons_of_mem _ hmem)) hrest (by omega), hfst]
    rfl

end Memory

structure Heap where
  calloc : List (ℕ × ℕ) → ℕ → Option ℕ
  below : ∀ {blocks n a}, calloc blocks n = some a → a + n ≤ 2 ^ 63
  apart : ∀ {blocks n a}, calloc blocks n = some a → ∀ b ∈ blocks, a + n ≤ b.1 ∨ b.1 + b.2 ≤ a

namespace Heap

def top (blocks : List (ℕ × ℕ)) : ℕ := blocks.foldr (fun b m => max (b.1 + b.2) m) 0

lemma le_top {blocks : List (ℕ × ℕ)} {b : ℕ × ℕ} (h : b ∈ blocks) : b.1 + b.2 ≤ top blocks := by
  induction blocks with
  | nil => simp at h
  | cons c blocks ih =>
    rcases mem_cons.mp h with rfl | h
    · exact Nat.le_max_left _ _
    · exact Nat.le_trans (ih h) (Nat.le_max_right _ _)

/-- The allocator that puts each block behind all others, as long as it is below a limit. -/
def upTo (limit : ℕ) (h : limit ≤ 2 ^ 63) : Heap where
  calloc blocks n := if top blocks + n ≤ limit then some (top blocks) else none
  below := by
    intro blocks n a ha
    split_ifs at ha with hle
    cases ha
    exact Nat.le_trans hle h
  apart := by
    intro blocks n a ha b hb
    split_ifs at ha
    cases ha
    exact .inr (le_top hb)

end Heap

end Telephony.Lib
