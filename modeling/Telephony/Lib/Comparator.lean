import Mathlib.Algebra.Order.Ring.Int
import Mathlib.Data.List.Pairwise

/-!
# Comparison functions

Functions that compare two values by the sign of their result, and the lists that they sort.
-/

namespace Telephony.Lib

open List

section Comparator

variable {α : Type*} {f : α → α → ℤ}

structure Comparator (f : α → α → ℤ) : Prop where
  sign : ∀ a b, f a b ≤ 0 ↔ 0 ≤ f b a
  trans : ∀ a b c, f a b ≤ 0 → f b c ≤ 0 → f a c ≤ 0

section

variable (hf : Comparator f)
include hf

lemma Comparator.self (a : α) : f a a = 0 := by
  have hsign := hf.sign a a
  omega

variable {a b c x o : α} {xs ys : List α}

lemma Comparator.lt_of_lt_of_le (hab : f a b < 0) (hbc : f b c ≤ 0) : f a c < 0 := by
  by_contra hac
  have hca : f c a ≤ 0 := (hf.sign c a).mpr (not_lt.mp hac)
  have hba : f b a ≤ 0 := hf.trans b c a hbc hca
  have hsign := hf.sign b a
  omega

lemma Comparator.lt_of_le_of_lt (hab : f a b ≤ 0) (hbc : f b c < 0) : f a c < 0 := by
  by_contra hac
  have hcb : f c b ≤ 0 := hf.trans c a b ((hf.sign c a).mpr (not_lt.mp hac)) hab
  have hsign := hf.sign c b
  omega

lemma Comparator.lt_of_gt (h : 0 < f b a) : f a b < 0 := by
  have hba := hf.sign b a
  omega

lemma Comparator.ge_of_ge_of_le (ha : 0 ≤ f a x) (hab : f a b ≤ 0) : 0 ≤ f b x :=
  (hf.sign x b).mp (hf.trans x a b ((hf.sign x a).mpr ha) hab)

lemma pairwise_insert_between (h : (xs ++ ys).Pairwise fun a b => f a b ≤ 0)
    (hxs : ∀ a ∈ xs, f a x ≤ 0) (hys : ∀ a ∈ ys, 0 ≤ f a x) : (xs ++ x :: ys).Pairwise fun a b => f a b ≤ 0 := by
  rw [pairwise_append] at h ⊢
  obtain ⟨h₁, h₂, h₃⟩ := h
  refine ⟨h₁, pairwise_cons.mpr ⟨fun b hb => (hf.sign x b).mpr (hys b hb), h₂⟩, ?_⟩
  intro a ha b hb
  rcases mem_cons.mp hb with rfl | hb
  · exact hxs a ha
  · exact h₃ a ha b hb

end

lemma pairwise_around (h : (xs ++ o :: ys).Pairwise fun a b => f a b ≤ 0) :
    (∀ a ∈ xs, f a o ≤ 0) ∧ ∀ a ∈ ys, f o a ≤ 0 := by
  rw [pairwise_append, pairwise_cons] at h
  exact ⟨fun a ha => h.2.2 a ha o mem_cons_self, h.2.1.1⟩

lemma pairwise_replace (hf : Comparator f) (h : (xs ++ o :: ys).Pairwise fun a b => f a b ≤ 0)
    (hox : f o x = 0) :
    (xs ++ x :: ys).Pairwise fun a b => f a b ≤ 0 := by
  obtain ⟨hbef, haft⟩ := pairwise_around h
  refine pairwise_insert_between hf ?_ (fun a ha => hf.trans a o x (hbef a ha) hox.le)
    fun a ha => hf.ge_of_ge_of_le hox.ge (haft a ha)
  exact h.sublist (List.Sublist.append (List.Sublist.refl xs) (sublist_cons_self o ys))

end Comparator

/-! ## By one thing and then by another -/

section Lex

variable {α β : Type*} {f g : α → α → ℤ} {a b c : α} {x y z : ℤ}

section

variable (hf : Comparator f)
include hf

lemma Comparator.comap (k : β → α) : Comparator fun a b => f (k a) (k b) :=
  ⟨fun a b => hf.sign (k a) (k b), fun a b c => hf.trans (k a) (k b) (k c)⟩

lemma Comparator.then_sign (h : x ≤ 0 ↔ 0 ≤ y) :
    (if f a b = 0 then x else f a b) ≤ 0 ↔ 0 ≤ if f b a = 0 then y else f b a := by
  have hab := hf.sign a b
  have hba := hf.sign b a
  split_ifs <;> omega

lemma Comparator.then_trans (h : x ≤ 0 → y ≤ 0 → z ≤ 0)
    (hab : (if f a b = 0 then x else f a b) ≤ 0) (hbc : (if f b c = 0 then y else f b c) ≤ 0) :
    (if f a c = 0 then z else f a c) ≤ 0 := by
  have hle : f a b ≤ 0 := by split_ifs at hab <;> omega
  have hle' : f b c ≤ 0 := by split_ifs at hbc <;> omega
  have hac := hf.trans a b c hle hle'
  split_ifs with hzero
  · -- the three are equal
    have hca : f c a ≤ 0 := (hf.sign c a).mpr hzero.ge
    have hba := (hf.sign b a).mp (hf.trans b c a hle' hca)
    have hcb := (hf.sign c b).mp (hf.trans c a b hca hle)
    rw [if_pos (by omega)] at hab hbc
    exact h hab hbc
  · exact hac

lemma Comparator.thenBy (hg : Comparator g) : Comparator fun a b => if f a b = 0 then g a b else f a b :=
  ⟨fun a b => hf.then_sign (hg.sign a b), fun a b c => hf.then_trans (hg.trans a b c)⟩

end

def lexCompare (f : α → α → ℤ) : List α → List α → ℤ
  | [], [] => 0
  | [], _ :: _ => -1
  | _ :: _, [] => 1
  | a :: as, b :: bs => if f a b = 0 then lexCompare f as bs else f a b

lemma Comparator.lex (hf : Comparator f) : Comparator (lexCompare f) := by
  constructor
  · intro as
    induction as with
    | nil => rintro (_ | ⟨b, bs⟩) <;> simp [lexCompare]
    | cons a as ih =>
      rintro (_ | ⟨b, bs⟩)
      · simp [lexCompare]
      · exact hf.then_sign (ih bs)
  · intro as
    induction as with
    | nil => rintro (_ | ⟨b, bs⟩) (_ | ⟨c, cs⟩) <;> simp [lexCompare]
    | cons a as ih =>
      rintro (_ | ⟨b, bs⟩) (_ | ⟨c, cs⟩)
      · simp [lexCompare]
      · simp [lexCompare]
      · simp [lexCompare]
      · exact hf.then_trans (ih bs cs)

end Lex

end Telephony.Lib
