import Mathlib.Data.List.Nodup
import Telephony.Lib.Comparator

/-!
# Heap order

Values in slots that are counted from 1, where the slot `k / 2` is the parent of `k`. No value
exceeds that of its parent, or this holds except around one slot whose value is on its way up or
down.
-/

namespace Telephony.Lib

open List

section HeapOrder

variable {α : Type*} {f : α → α → ℤ} {n i j k : ℕ} {a b : ℕ → α}

def HeapOrdered (f : α → α → ℤ) (n : ℕ) (a : ℕ → α) : Prop := ∀ k, 2 ≤ k → k ≤ n → 0 ≤ f (a (k / 2)) (a k)

lemma HeapOrdered.root_max (hf : Comparator f) (h : HeapOrdered f n a) (hpos : 1 ≤ k) (hk : k ≤ n) :
    f (a k) (a 1) ≤ 0 := by
  induction k using Nat.strong_induction_on with
  | h k ih =>
    rcases Nat.eq_or_lt_of_le hpos with rfl | htwo
    · exact (hf.self _).le
    · have hpar := ih (k / 2) (by omega) (by omega) (by omega)
      exact hf.trans _ _ _ ((hf.sign _ _).mpr (h k htwo hk)) hpar

structure Exchanged (i j : ℕ) (a b : ℕ → α) : Prop where
  left : b i = a j
  right : b j = a i
  other : ∀ k, 1 ≤ k → k ≠ i → k ≠ j → b k = a k

structure Loose (f : α → α → ℤ) (n i : ℕ) (a : ℕ → α) : Prop where
  apart : ∀ k, 2 ≤ k → k ≤ n → k ≠ i → k / 2 ≠ i → 0 ≤ f (a (k / 2)) (a k)
  skip : 2 ≤ i → ∀ k, k ≤ n → k / 2 = i → 0 ≤ f (a (i / 2)) (a k)

section

variable (hf : Comparator f)
include hf

lemma HeapOrdered.loose (h : HeapOrdered f n a) (hb : ∀ k, 1 ≤ k → k ≤ n → k ≠ i → b k = a k) : Loose f n i b where
  apart := by
    intro k htwo hk hki hpi
    rw [hb k (by omega) hk hki, hb (k / 2) (by omega) (by omega) hpi]
    exact h k htwo hk
  skip := by
    rintro htwo k hk rfl
    rw [hb k (by omega) hk (by omega), hb (k / 2 / 2) (by omega) (by omega) (by omega)]
    exact hf.ge_of_ge_of_le (a := a (k / 2)) (h k (by omega) hk) ((hf.sign _ _).mpr (h (k / 2) htwo (by omega)))

lemma Loose.siblings {x : α} (h : Loose f n i a) (htwo : 2 ≤ i) (hb : Exchanged i (i / 2) a b)
    (hx : 0 ≤ f x (a (i / 2))) (hk : k ≤ n) (hkp : k / 2 = i / 2) : 0 ≤ f x (b k) := by
  by_cases hki : k = i
  · rwa [hki, hb.left]
  rw [hb.other k (by omega) hki (by omega)]
  have hsibling := h.apart k (by omega) hk hki (by omega)
  rw [hkp] at hsibling
  exact hf.ge_of_ge_of_le hsibling ((hf.sign _ _).mpr hx)

lemma Loose.up (h : Loose f n i a) (htwo : 2 ≤ i) (hi : i ≤ n)
    (hb : Exchanged i (i / 2) a b) : Loose f n (i / 2) b where
  apart := by
    intro k hktwo hk hkp hpp
    have hki : k ≠ i := fun heq => hpp (by rw [heq])
    rw [hb.other k (by omega) hki hkp]
    by_cases hch : k / 2 = i
    · rw [hch, hb.left]
      exact h.skip htwo k hk hch
    · rw [hb.other (k / 2) (by omega) hch hpp]
      exact h.apart k hktwo hk hki hch
  skip := by
    intro hptwo k hk hkp
    rw [hb.other (i / 2 / 2) (by omega) (by omega) (by omega)]
    exact h.siblings hf htwo hb (h.apart (i / 2) hptwo (by omega) (by omega) (by omega)) hk hkp

lemma Loose.up_tops (h : Loose f n i a) (htwo : 2 ≤ i) (hlt : f (a (i / 2)) (a i) < 0)
    (hb : Exchanged i (i / 2) a b) : ∀ k, k ≤ n → k / 2 = i / 2 → 0 ≤ f (b (i / 2)) (b k) := by
  intro k hk hkp
  rw [hb.right]
  exact h.siblings hf htwo hb ((hf.sign _ _).mp hlt.le) hk hkp

end

lemma Loose.down (h : Loose f n i a) (hj : j ≤ n) (hch : j / 2 = i) (hgt : 0 ≤ f (a j) (a i))
    (hmax : ∀ k, k ≤ n → k / 2 = i → 0 ≤ f (a j) (a k))
    (hb : Exchanged i j a b) : Loose f n j b ∧ 0 ≤ f (b (j / 2)) (b j) := by
  refine ⟨⟨?_, ?_⟩, ?_⟩
  · intro k htwo hk hkj hpj
    by_cases hki : k = i
    · rw [hki, hb.left, hb.other (i / 2) (by omega) (by omega) (by omega)]
      exact h.skip (by omega) j hj hch
    rw [hb.other k (by omega) hki hkj]
    by_cases hpi : k / 2 = i
    · rw [hpi, hb.left]
      exact hmax k hk hpi
    · rw [hb.other (k / 2) (by omega) hpi hpj]
      exact h.apart k htwo hk hki hpi
  · intro _ k hk hkj
    rw [hch, hb.left, hb.other k (by omega) (by omega) (by omega), ← hkj]
    exact h.apart k (by omega) hk (by omega) (by omega)
  · rwa [hch, hb.left, hb.right]

lemma Loose.ordered (h : Loose f n i a) (hpar : 2 ≤ i → 0 ≤ f (a (i / 2)) (a i))
    (hchs : ∀ k, k ≤ n → k / 2 = i → 0 ≤ f (a i) (a k)) : HeapOrdered f n a := by
  intro k htwo hk
  by_cases hki : k = i
  · rw [hki]
    exact hpar (hki ▸ htwo)
  by_cases hpi : k / 2 = i
  · rw [hpi]
    exact hchs k hk hpi
  · exact h.apart k htwo hk hki hpi

lemma map_range_swap (a : ℕ → α) (hi : i < n) (hj : j < n) :
    ((range n).map (a ∘ Equiv.swap i j)).Perm ((range n).map a) := by
  have hlt : ∀ k < n, Equiv.swap i j k < n := by
    intro k hk
    rw [Equiv.swap_apply_def]
    split_ifs
    · exact hj
    · exact hi
    · exact hk
  have hperm : ((range n).map (Equiv.swap i j)).Perm (range n) := by
    refine (perm_ext_iff_of_nodup (nodup_range.map (Equiv.injective _)) nodup_range).mpr fun k => ?_
    rw [mem_map, mem_range]
    constructor
    · rintro ⟨k', hk', rfl⟩
      exact hlt k' (mem_range.mp hk')
    · intro hk
      exact ⟨Equiv.swap i j k, mem_range.mpr (hlt k hk), Equiv.swap_apply_self i j k⟩
  rw [← map_map]
  exact hperm.map a

/-- One of the first values is taken out and the last one put in its place. -/
lemma map_range_take_out (a : ℕ → α) (hi : i ≤ n) :
    (a i :: (range n).map (Function.update a i (a n))).Perm ((range (n + 1)).map a) := by
  refine List.Perm.trans ?_ (map_range_swap a (Nat.lt_succ_of_le hi) n.lt_succ_self)
  have hrest : (range n).map (Function.update a i (a n)) = (range n).map (a ∘ Equiv.swap i n) := by
    refine map_congr_left fun k hk => ?_
    rw [Function.comp_apply]
    by_cases hki : k = i
    · rw [hki, Function.update_self, Equiv.swap_apply_left]
    · rw [Function.update_of_ne hki, Equiv.swap_apply_of_ne_of_ne hki (Nat.ne_of_lt (mem_range.mp hk))]
  rw [hrest, range_succ, map_append, map_singleton, Function.comp_apply, Equiv.swap_apply_right]
  exact (perm_append_singleton _ _).symm

end HeapOrder

end Telephony.Lib
