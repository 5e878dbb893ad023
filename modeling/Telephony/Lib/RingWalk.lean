import Mathlib.Data.List.Basic

/-!
# Walking a ring of slots

A loop `for (k = cur; k != stop; k = (k + step) mod M)` over the slots of a ring, as the list of the
slots it visits. `fuel` bounds the number of rounds; `M` are always enough.
-/

namespace Telephony.Lib

open Nat

/-- The slots a loop over a ring visits, from `cur` up to but not including `stop`. -/
def ringWalk (M stop step : ℕ) : ℕ → ℕ → List ℕ
  | 0, _ => []
  | fuel + 1, cur =>
    if cur = stop then [] else cur :: ringWalk M stop step fuel ((cur + step) % M)

lemma exists_of_mem_ringWalk {M stop step fuel cur k : ℕ} (hcur : cur < M)
    (hk : k ∈ ringWalk M stop step fuel cur) :
    ∃ j, k = (cur + j * step) % M ∧ ∀ i ≤ j, (cur + i * step) % M ≠ stop := by
  induction fuel generalizing cur with
  | zero => simp [ringWalk] at hk
  | succ fuel ih =>
    simp only [ringWalk] at hk
    split_ifs at hk with hstop
    · simp at hk
    have hhere : (cur + 0 * step) % M = cur := by rw [Nat.zero_mul, Nat.add_zero, mod_eq_of_lt hcur]
    rcases List.mem_cons.mp hk with rfl | hk
    · refine ⟨0, hhere.symm, fun i hi => ?_⟩
      rwa [le_zero.mp hi, hhere]
    have hnext : ∀ i, ((cur + step) % M + i * step) % M = (cur + (i + 1) * step) % M := by
      intro i
      rw [mod_add_mod, Nat.add_assoc, succ_mul, Nat.add_comm step]
    obtain ⟨j, rfl, hj⟩ := ih (mod_lt _ (zero_lt_of_lt hcur)) hk
    refine ⟨j + 1, hnext j, fun i hi => ?_⟩
    cases i with
    | zero => rwa [hhere]
    | succ i =>
      rw [← hnext]
      exact hj i (le_of_succ_le_succ hi)

lemma lt_of_mem_ringWalk {M stop step fuel cur k : ℕ} (hM : 0 < M) (hcur : cur < M)
    (hk : k ∈ ringWalk M stop step fuel cur) : k < M := by
  obtain ⟨j, rfl, -⟩ := exists_of_mem_ringWalk hcur hk
  exact mod_lt _ hM

end Telephony.Lib
