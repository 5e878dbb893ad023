import Mathlib.Data.List.Basic

/-!
# Counting threads

The threads of a system as a list of their places in the program. A step of one thread changes one
entry.
-/

namespace Telephony.Lib

section Threads

variable {α : Type*} {threads : List α} {i : ℕ} {a : α}

lemma countP_set_add (p : α → Bool) (b : α) (h : threads[i]? = some a) :
    (threads.set i b).countP p + (if p a then 1 else 0) = threads.countP p + (if p b then 1 else 0) := by
  obtain ⟨hi, ha⟩ := List.getElem?_eq_some_iff.mp h
  have hmem : a ∈ threads := ha ▸ List.getElem_mem hi
  have hpos : p a = true → 0 < threads.countP p := fun hp => List.countP_pos_iff.mpr ⟨a, hmem, hp⟩
  rw [List.countP_set hi, ha]
  by_cases hp : p a = true
  · have := hpos hp
    simp only [hp, if_true]
    omega
  · simp only [hp]
    simp

end Threads

end Telephony.Lib
