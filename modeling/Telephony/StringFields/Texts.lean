import Telephony.StringFields.Arena

/-!
# Texts in the pools

What a pointer of an owner points to (`Arena.Reads`), and what writing does to it.
-/

set_option linter.unusedSectionVars false

namespace Telephony.StringFields

open Lib List

section Texts

variable {κ : Type} [Fintype κ] [DecidableEq κ]

namespace Arena

def Reads (self : Arena) : FieldPtr → CString → Prop
  | .empty, text => text.bytes = []
  | .at a, text => text.length < self.allocation (.at a) ∧ self.mem.Spells a text.bytes

variable {self other : Arena} {ptr : κ → FieldPtr} {k j : κ} {a x available : ℕ} {t : Slot} {text : CString}
  {q : FieldPtr}

lemma Reads.of_mem (h : self.Reads q text) (hmem : other.mem = self.mem) : other.Reads q text := by
  cases q with
  | empty => exact h
  | «at» a =>
    unfold Reads allocation at *
    rwa [hmem]

lemma allocation_eq_of_slot (h : other.slot q = self.slot q) : other.allocation q = self.allocation q := by
  cases q with
  | empty => rfl
  | «at» a => exact (Slot.mk.inj (Option.some.inj h)).2

lemma Inv.allocation_of_same (h : self.Inv ptr) (k : κ) (other : Arena)
    (hsame : ∀ a, ptr k = .at a → ∀ x, a ≤ x + allocationAlign → x < a → other.mem x = self.mem x) :
    other.allocation (ptr k) = self.allocation (ptr k) :=
  allocation_eq_of_slot (h.slot_of_same k hsame)

lemma Inv.reads_of_same (h : self.Inv ptr)
    (hsame : ∀ t, self.slot (ptr k) = some t → ∀ x, t.Covers x → other.mem x = self.mem x)
    (hrds : self.Reads (ptr k) text) : other.Reads (ptr k) text := by
  have hal := h.allocation_of_same k other fun a hk x hlow hhigh =>
    hsame _ (slot_at hk) x ⟨hlow, Nat.lt_add_right _ hhigh⟩
  cases hk : ptr k with
  | empty =>
    rwa [hk] at hrds
  | «at» a =>
    rw [hk] at hrds hal
    obtain ⟨hlt, hsp⟩ := hrds
    refine ⟨by rw [hal]; exact hlt, hsp.congr fun x hlow hhigh => ?_⟩
    refine hsame _ (slot_at hk) x ⟨Nat.le_add_right_of_le hlow, ?_⟩
    unfold CString.length at hlt
    dsimp only
    omega

lemma Inv.not_covers (h : self.Inv ptr) (hk : ptr k = .at a) (hne : j ≠ k) (hj : self.slot (ptr j) = some t)
    (hlow : a ≤ x) (hhigh : x < a + self.allocation (.at a) ∨
      self.lastAlloc = some a ∧ x < self.head.base + self.head.size) : ¬ t.Covers x := by
  intro hcvs
  unfold Slot.Covers at hcvs
  rcases hhigh with hown | ⟨hlast, hfree⟩
  · have hap := h.layout.disjoint j k t _ hne hj (slot_at hk)
    unfold Slot.Apart at hap
    dsimp only at hap
    omega
  obtain ⟨hfnd, -⟩ := h.top k _ (slot_at hk) hlast
  have hh := h.layout.holds mem_cons_self (slot_at hk) hfnd
  by_cases hc : self.head.Contains t.start
  · have hbel := h.layout.below_top h.top (slot_at hk) hlast hne hj hc
    dsimp only at hbel
    omega
  have hap := h.layout.apart_of_behind (t := ⟨a, self.head.base + self.head.size - a⟩) hj hc hh.1
    (by dsimp only; omega)
  unfold Slot.Apart at hap
  dsimp only at hap
  omega

/-! ## Printing -/

lemma print_of_outside (h : x < a ∨ a + available ≤ x) : (self.print a available text).mem x = self.mem x := by
  unfold print
  split_ifs with hzero
  · rfl
  · refine Memory.write_of_outside ?_
    simp only [length_append, length_take, length_singleton]
    omega

lemma print_eq_put (h : text.length < available) : self.print a available text = self.put a text := by
  unfold print put
  rw [if_neg (by omega), take_of_length_le]
  unfold CString.length at h
  omega

lemma put_reads (h : text.length < (self.put a text).allocation (.at a)) : (self.put a text).Reads (.at a) text :=
  ⟨h, Memory.spells_write⟩

lemma print_arena (self : Arena) (a available : ℕ) (text : CString) :
    self.print a available text = { self with mem := (self.print a available text).mem } := by
  unfold print
  split_ifs <;> rfl

section

variable (h : self.Inv ptr) (text : CString)
include h

lemma Inv.print_own (hk : ptr k = .at a) (hfit : available ≤ self.allocation (.at a) ∨
      self.lastAlloc = some a ∧ a + available ≤ self.head.base + self.head.size) :
    (self.print a available text).Inv ptr ∧
      (self.print a available text).allocation (.at a) = self.allocation (.at a) ∧
      ∀ j ≠ k, ∀ t, self.slot (ptr j) = some t → ∀ x, t.Covers x →
        (self.print a available text).mem x = self.mem x := by
  have hoth : ∀ j ≠ k, ∀ t, self.slot (ptr j) = some t → ∀ x, t.Covers x →
      (self.print a available text).mem x = self.mem x := by
    intro j hne t hj x hcvs
    refine print_of_outside ?_
    by_contra hin
    refine h.not_covers hk hne hj (x := x) (by omega) ?_ hcvs
    rcases hfit with hown | ⟨hlast, hfree⟩
    · exact .inl (by omega)
    · exact .inr ⟨hlast, by omega⟩
  have hfrt : ∀ j b, ptr j = .at b → ∀ x, b ≤ x + allocationAlign → x < b →
      (self.print a available text).mem x = self.mem x := by
    intro j b hj x hlow hhigh
    by_cases hne : j = k
    · subst hne
      rw [hk] at hj
      cases hj
      exact print_of_outside (.inl hhigh)
    · exact hoth j hne _ (slot_at hj) x ⟨hlow, Nat.lt_add_right _ hhigh⟩
  refine ⟨?_, ?_, hoth⟩
  · rw [print_arena]
    exact h.of_mem hfrt
  · have := h.allocation_of_same k (self.print a available text) (hfrt k)
    rwa [hk] at this

lemma Inv.put (hk : ptr k = .at a) (hfit : text.length < self.allocation (.at a)) :
    (self.put a text).Inv ptr ∧ (self.put a text).Reads (.at a) text ∧
      ∀ j ≠ k, ∀ t, self.slot (ptr j) = some t → ∀ x, t.Covers x → (self.put a text).mem x = self.mem x := by
  have hprint := h.print_own text hk (.inl le_rfl)
  rw [print_eq_put hfit] at hprint
  obtain ⟨hinv, hal, hoth⟩ := hprint
  exact ⟨hinv, put_reads (by rw [hal]; exact hfit), hoth⟩

lemma Inv.print_free (hfit : available = 0 ∨ self.head.used + allocationAlign + available ≤ self.head.size) :
    self.Keeps (self.print (self.head.base + self.head.used + allocationAlign) available text).mem ptr := by
  refine h.keeps_of_free fun x hne => ?_
  by_contra hout
  refine hne (print_of_outside ?_)
  omega

end

end Arena

end Texts

end Telephony.StringFields
