import Mathlib.Data.Finset.Card

/-!
# Sets without wide gaps

A finite set of numbers in which each is at most `g` above another one, or above a base. Such a set
does not reach far, and it stays of this kind when a number is put into one of its gaps or the base
moves up.
-/

namespace Telephony.Lib

open Finset

/-- Each number of the set is at most `g` above the base or above a number of the set. -/
def Spaced (g : ℕ) (S : Finset ℕ) (e : ℕ) : Prop :=
  ∀ n ∈ S, ∃ b, (b = e ∨ b ∈ S) ∧ b < n ∧ n ≤ b + g

section Spaced

variable {g e n m b e' : ℕ} {S : Finset ℕ}

section

variable (h : Spaced g S e)
include h

/-- A bound by the numbers up to `n`. Strong induction on `n`: the number below it has fewer. -/
lemma Spaced.le_filter (hn : n ∈ S) : n ≤ e + g * (S.filter (· ≤ n)).card := by
  induction n using Nat.strongRecOn with
  | ind n ih =>
    obtain ⟨b, hb, hlt, hle⟩ := h n hn
    rcases hb with rfl | hb
    · have hcard : 0 < (S.filter (· ≤ n)).card :=
        Finset.card_pos.mpr ⟨n, mem_filter.mpr ⟨hn, le_rfl⟩⟩
      calc n ≤ b + g * 1 := by rw [Nat.mul_one]; exact hle
        _ ≤ b + g * (S.filter (· ≤ n)).card := Nat.add_le_add_left (Nat.mul_le_mul_left g hcard) b
    have hless : (S.filter (· ≤ b)).card < (S.filter (· ≤ n)).card := by
      refine card_lt_card ⟨fun x hx => ?_, fun hsub => ?_⟩
      · obtain ⟨hx, hxb⟩ := mem_filter.mp hx
        exact mem_filter.mpr ⟨hx, hxb.trans hlt.le⟩
      · have hnb := (mem_filter.mp (hsub (mem_filter.mpr ⟨hn, le_rfl⟩))).2
        omega
    calc n ≤ b + g := hle
      _ ≤ e + g * (S.filter (· ≤ b)).card + g := Nat.add_le_add_right (ih b hlt hb) g
      _ = e + g * ((S.filter (· ≤ b)).card + 1) := by rw [Nat.mul_succ, Nat.add_assoc]
      _ ≤ e + g * (S.filter (· ≤ n)).card := Nat.add_le_add_left (Nat.mul_le_mul_left g hless) e

lemma Spaced.le_card (hn : n ∈ S) : n ≤ e + g * S.card :=
  (h.le_filter hn).trans (Nat.add_le_add_left (Nat.mul_le_mul_left g (card_filter_le S (· ≤ n))) e)

/-- A number between the base and a number of the set is not far above the set. Strong induction on
the number of the set. -/
lemma Spaced.below (hm : e < m) (hnot : m ∉ S) (hn : n ∈ S) (hmn : m < n) :
    ∃ b, (b = e ∨ b ∈ S) ∧ b < m ∧ m ≤ b + g := by
  induction n using Nat.strongRecOn with
  | ind n ih =>
    obtain ⟨b, hb, hlt, hle⟩ := h n hn
    rcases lt_trichotomy b m with hless | rfl | hmore
    · exact ⟨b, hb, hless, by omega⟩
    · rcases hb with rfl | hb
      · exact absurd hm (lt_irrefl _)
      · exact absurd hb hnot
    · rcases hb with rfl | hb
      · omega
      · exact ih b hlt hb hmore

lemma Spaced.insert (hb : b = e ∨ b ∈ S) (hlt : b < m) (hle : m ≤ b + g) : Spaced g (insert m S) e := by
  intro n hn
  rcases mem_insert.mp hn with rfl | hn
  · exact ⟨b, hb.imp_right (mem_insert_of_mem), hlt, hle⟩
  · obtain ⟨c, hc, hcn, hnc⟩ := h n hn
    exact ⟨c, hc.imp_right (mem_insert_of_mem), hcn, hnc⟩

lemma Spaced.advance (hle : e ≤ e') : Spaced g (S.filter (e' < ·)) e' := by
  intro n hn
  obtain ⟨hn, hlt⟩ := mem_filter.mp hn
  obtain ⟨b, hb, hbn, hnb⟩ := h n hn
  by_cases hhigh : e' < b
  · refine ⟨b, .inr (mem_filter.mpr ⟨hb.resolve_left (by omega), hhigh⟩), hbn, hnb⟩
  · exact ⟨e', .inl rfl, hlt, by omega⟩

end

end Spaced

end Telephony.Lib
