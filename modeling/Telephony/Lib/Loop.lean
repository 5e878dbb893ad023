import Mathlib.Data.Nat.Basic
import Mathlib.Tactic.Common

/-!
# Loops that may fail or run on

A loop of an imperative program as the iteration of a step that either goes on with a new state,
ends with a result, or fails. `fuel` bounds the number of rounds.
-/

namespace Telephony.Lib

section Loop

variable {σ β : Type*} {step : σ → Option (σ ⊕ β)}

/-- Iterate a step until it ends; `none` when it fails or the rounds are used up. -/
def iterate (step : σ → Option (σ ⊕ β)) : ℕ → σ → Option β
  | 0, _ => none
  | fuel + 1, s =>
    match step s with
    | none => none
    | some (.inl s') => iterate step fuel s'
    | some (.inr b) => some b

variable {s s' : σ} {b a : β} {k fuel m n : ℕ} {post : β → Prop} {inv : σ → Prop}

lemma iterate_next (h : step s = some (.inl s')) (fuel : ℕ) : iterate step (fuel + 1) s = iterate step fuel s' := by
  simp [iterate, h]

lemma iterate_done (h : step s = some (.inr b)) (fuel : ℕ) : iterate step (fuel + 1) s = some b := by
  simp [iterate, h]

lemma iterate_mono (h : iterate step k s = some b) (hle : k ≤ fuel) : iterate step fuel s = some b := by
  induction k generalizing s fuel with
  | zero => simp [iterate] at h
  | succ k ih =>
    obtain ⟨fuel, rfl⟩ : ∃ f, fuel = f + 1 := ⟨fuel - 1, by omega⟩
    rcases hs : step s with _ | s' | b'
    · simp [iterate, hs] at h
    · rw [iterate_next hs] at h ⊢
      exact ih h (by omega)
    · rw [iterate_done hs] at h ⊢
      exact h

lemma iterate_of_next (h : iterate step fuel s = some b) (hs : step s = some (.inl s')) :
    ∃ k, iterate step k s' = some b := by
  cases fuel with
  | zero => simp [iterate] at h
  | succ k => exact ⟨k, iterate_next hs k ▸ h⟩

lemma iterate_of_done (h : iterate step fuel s = some b) (hs : step s = some (.inr a)) : a = b := by
  cases fuel with
  | zero => simp [iterate] at h
  | succ k => exact Option.some.inj (iterate_done hs k ▸ h)

lemma iterate_unique (ha : iterate step k s = some a) (hb : iterate step m s = some b) : a = b := by
  have ha' := iterate_mono ha (Nat.le_max_left k m)
  have hb' := iterate_mono hb (Nat.le_max_right k m)
  exact Option.some.inj (ha'.symm.trans hb')

/-- **Total correctness of a loop**: a round from a state with the invariant goes on with a smaller
state that has it too, or ends with a result as wanted. Induction on the measure. -/
lemma iterate_total {measure : σ → ℕ}
    (hrnd : ∀ s, inv s → (∃ s', step s = some (.inl s') ∧ inv s' ∧ measure s' < measure s) ∨
      ∃ b, step s = some (.inr b) ∧ post b)
    (hs : inv s) : ∃ b, post b ∧ ∀ fuel, measure s < fuel → iterate step fuel s = some b := by
  induction hm : measure s using Nat.strong_induction_on generalizing s with
  | _ m ih =>
    rcases hrnd s hs with ⟨s', hs', hinv, hlt⟩ | ⟨b, hb, hpost⟩
    · obtain ⟨b, hpost, hb⟩ := ih _ (hm ▸ hlt) hinv rfl
      refine ⟨b, hpost, fun fuel hfuel => ?_⟩
      obtain _ | k := fuel
      · omega
      rw [iterate_next hs']
      exact hb k (by omega)
    · refine ⟨b, hpost, fun fuel hfuel => ?_⟩
      obtain _ | k := fuel
      · omega
      exact iterate_done hb k

lemma exists_result_iff {run : ℕ → Option β} {enough : ℕ → Prop} (hn : enough n)
    (h : ∀ fuel, enough fuel → run fuel = some b) :
    (∃ b, (∀ fuel, enough fuel → run fuel = some b) ∧ post b) ↔ post b := by
  constructor
  · rintro ⟨b', hb', hpost⟩
    have hsame : b' = b := Option.some.inj ((hb' n hn).symm.trans (h n hn))
    exact hsame ▸ hpost
  · intro hpost
    exact ⟨b, h, hpost⟩

end Loop

end Telephony.Lib
