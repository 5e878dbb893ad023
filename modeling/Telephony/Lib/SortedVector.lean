import Mathlib.Algebra.Order.Ring.Int
import Mathlib.Data.List.DropRight
import Mathlib.Data.List.Pairwise

/-!
# Sorted vectors

`addSorted` inserts an element behind those that do not compare greater, looking from the end. It
adds the element (`addSorted_perm`), and keeps a vector sorted by a key that the comparison agrees
with (`addSorted_sorted`).
-/

namespace Telephony.Lib

open List

variable {α κ : Type*} {cmp : α → α → ℤ} {elem : α} {vec : List α}

/-- Insert an element behind those that do not compare greater. -/
def addSorted (cmp : α → α → ℤ) (elem : α) (vec : List α) : List α :=
  vec.rdropWhile (0 < cmp · elem) ++ elem :: vec.rtakeWhile (0 < cmp · elem)

lemma addSorted_perm (cmp : α → α → ℤ) (elem : α) (vec : List α) : (addSorted cmp elem vec).Perm (elem :: vec) := by
  refine perm_middle.trans (List.Perm.cons elem ?_)
  rw [rdropWhile_append_rtakeWhile]

/-- The elements behind the new one compare greater, the last one in front of it does not. -/
lemma addSorted_sorted [LinearOrder κ] {key : α → κ} (hcmp : ∀ x ∈ vec, 0 < cmp x elem ↔ key elem < key x)
    (h : vec.Pairwise fun a b => key a ≤ key b) : (addSorted cmp elem vec).Pairwise fun a b => key a ≤ key b := by
  rw [← @rdropWhile_append_rtakeWhile _ (fun e => decide (0 < cmp e elem)) vec] at h
  obtain ⟨hfront, hback, hcross⟩ := pairwise_append.1 h
  refine pairwise_append.2 ⟨hfront, pairwise_cons.2 ⟨fun y hy => ?_, hback⟩, fun y hy z hz => ?_⟩
  · have hgt := mem_rtakeWhile_imp hy
    exact ((hcmp y ((rtakeWhile_suffix _ vec).mem hy)).1 (of_decide_eq_true hgt)).le
  have hne := ne_nil_of_mem hy
  have hlast := rdropWhile_last_not _ vec hne
  rw [decide_eq_true_eq, hcmp _ (( rdropWhile_prefix _ vec).mem (getLast_mem hne))] at hlast
  have hle := (hfront.rel_getLast_of_rel_getLast_getLast hy le_rfl).trans (not_lt.1 hlast)
  rcases mem_cons.1 hz with rfl | hz
  · exact hle
  · exact hcross y hy z hz

end Telephony.Lib
