import Mathlib.Data.List.Basic

/-!
# Computations that record what they read

A parser over a memory, as a value together with the addresses it read on the way. The memory is
total; whether every read stays inside is a statement about the trace.
-/

namespace Telephony.Lib

universe u v

structure Traced (ι : Type u) (α : Type v) where
  val : α
  reads : List ι
  deriving DecidableEq, Repr

namespace Traced

section Monad

variable {ι : Type u}

instance : Monad (Traced ι) where
  pure a := ⟨a, []⟩
  bind x f := ⟨(f x.val).val, x.reads ++ (f x.val).reads⟩

variable {α β : Type v}

@[simp] lemma reads_pure (a : α) : (pure a : Traced ι α).reads = [] := rfl

section

variable (x : Traced ι α) (f : α → Traced ι β)

@[simp] lemma val_bind : (x >>= f).val = (f x.val).val := rfl

@[simp] lemma reads_bind : (x >>= f).reads = x.reads ++ (f x.val).reads := rfl

end

def read (mem : ι → α) (i : ι) : Traced ι α := ⟨mem i, [i]⟩

@[simp] lemma val_read (mem : ι → α) (i : ι) : (read mem i).val = mem i := (rfl)

@[simp] lemma reads_read (mem : ι → α) (i : ι) : (read mem i).reads = [i] := rfl

end Monad

section Within

variable {ι : Type u} {α β : Type v} {p : ι → Prop}

def Within (p : ι → Prop) (x : Traced ι α) : Prop := ∀ i ∈ x.reads, p i

instance [DecidablePred p] (x : Traced ι α) : Decidable (x.Within p) :=
  inferInstanceAs (Decidable (∀ i ∈ x.reads, p i))

@[simp] lemma within_pure (a : α) : (pure a : Traced ι α).Within p := by
  intro i hi
  simp at hi

@[simp] lemma within_read (mem : ι → α) (i : ι) : (read mem i).Within p ↔ p i := by
  simp [Within]

@[simp] lemma within_bind (x : Traced ι α) (f : α → Traced ι β) :
    (x >>= f).Within p ↔ x.Within p ∧ (f x.val).Within p := by
  simp [Within, or_imp, forall_and]

end Within

section Range

variable {α : Type v}

def readRange (mem : ℕ → α) (start : ℕ) : ℕ → Traced ℕ (List α)
  | 0 => pure []
  | n + 1 => do
    let a ← read mem start
    let as ← readRange mem (start + 1) n
    pure (a :: as)

@[simp] lemma within_readRange {p : ℕ → Prop} (mem : ℕ → α) (start n : ℕ) :
    (readRange mem start n).Within p ↔ ∀ k, start ≤ k → k < start + n → p k := by
  induction n generalizing start with
  | zero => exact iff_of_true (within_pure _) fun k hle hlt => absurd hlt (by omega)
  | succ n ih =>
    simp only [readRange, within_bind, within_read, within_pure, and_true, ih]
    constructor
    · rintro ⟨hstart, hrest⟩ k hle hlt
      rcases Nat.eq_or_lt_of_le hle with rfl | hlt'
      · exact hstart
      · exact hrest k hlt' (by omega)
    · intro h
      exact ⟨h start (Nat.le_refl _) (by omega), fun k hle hlt => h k (by omega) (by omega)⟩

end Range

end Traced

end Telephony.Lib
