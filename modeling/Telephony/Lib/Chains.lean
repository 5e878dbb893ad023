import Mathlib.Data.Nat.Basic
import Mathlib.Tactic.Common

/-!
# Chains with costs

A relation `edge x z c` says that there is a way of cost `c` from `x` to `z`. A chain is a sequence
of such ways, at least one, and its cost is the sum of theirs. It may come to a point more than
once.
-/

namespace Telephony.Lib

section Chains

variable {ι : Type*}

inductive Chain (edge : ι → ι → ℕ → Prop) : ι → ι → ℕ → Prop
  | one {x z : ι} {c : ℕ} (h : edge x z c) : Chain edge x z c
  | cons {x y z : ι} {c d : ℕ} (h : edge x y c) (rest : Chain edge y z d) : Chain edge x z (c + d)

variable {edge edge' : ι → ι → ℕ → Prop} {x y z : ι} {c d : ℕ}

lemma Chain.append (h : Chain edge x y c) (rest : Chain edge y z d) : Chain edge x z (c + d) := by
  induction h with
  | one h => exact .cons h rest
  | cons h _ ih =>
    rw [Nat.add_assoc]
    exact .cons h (ih rest)

lemma Chain.mono (hedge : ∀ x z c, edge x z c → edge' x z c) (h : Chain edge x z c) : Chain edge' x z c := by
  induction h with
  | one h => exact .one (hedge _ _ _ h)
  | cons h _ ih => exact .cons (hedge _ _ _ h) ih

variable {table : ι → ι → ℕ → Prop}

/-- The cost of a chain between different points is not below that in a table which has each way at
its cost or less, and two that follow one another at the sum or less. Ways from a point to itself
are left out. Induction on the chain. -/
lemma le_of_closed (hedge : ∀ x z c, x ≠ z → edge x z c → ∃ a ≤ c, table x z a)
    (hcl : ∀ x y z a b, x ≠ y → y ≠ z → x ≠ z → table x y a → table y z b → ∃ c ≤ a + b, table x z c)
    (hne : x ≠ z) (h : Chain edge x z c) : ∃ a ≤ c, table x z a := by
  induction h with
  | one h => exact hedge _ _ _ hne h
  | @cons x y z c d h _ ih =>
    by_cases hyz : y = z
    · obtain ⟨a, hle, ha⟩ := hedge x y c (fun hxy => hne (hxy.trans hyz)) h
      exact ⟨a, by omega, hyz ▸ ha⟩
    obtain ⟨b, hb, hrest⟩ := ih hyz
    by_cases hxy : x = y
    · exact ⟨b, by omega, hxy ▸ hrest⟩
    obtain ⟨a, ha, hfst⟩ := hedge x y c hxy h
    obtain ⟨e, he, hboth⟩ := hcl x y z a b hxy hyz hne hfst hrest
    exact ⟨e, by omega, hboth⟩

/-- A chain between different points, each of whose ways can be replaced by a chain that costs no
more, can be replaced as a whole. -/
lemma Chain.replace (hedge : ∀ x z c, x ≠ z → edge x z c → ∃ c' ≤ c, Chain edge' x z c') (hne : x ≠ z)
    (h : Chain edge x z c) : ∃ c' ≤ c, Chain edge' x z c' :=
  le_of_closed hedge (fun _ _ _ _ _ _ _ _ hfst hrest => ⟨_, Nat.le_refl _, hfst.append hrest⟩) hne h

variable {table : ι → ι → Option ℕ}

lemma least_of_closed (hsnd : ∀ x z a, x ≠ z → table x z = some a → Chain edge x z a)
    (hedge : ∀ x z c, x ≠ z → edge x z c → ∃ a ≤ c, table x z = some a)
    (hcl : ∀ x y z a b, x ≠ y → y ≠ z → x ≠ z → table x y = some a → table y z = some b →
      ∃ c ≤ a + b, table x z = some c)
    (hne : x ≠ z) :
    ((table x z).isSome ↔ ∃ c, Chain edge x z c) ∧
      ∀ a, table x z = some a → Chain edge x z a ∧ ∀ c, Chain edge x z c → a ≤ c := by
  refine ⟨⟨?_, ?_⟩, ?_⟩
  · intro hset
    obtain ⟨a, ha⟩ := Option.isSome_iff_exists.mp hset
    exact ⟨a, hsnd x z a hne ha⟩
  · rintro ⟨c, hchn⟩
    obtain ⟨a, -, ha⟩ := le_of_closed hedge hcl hne hchn
    rw [ha]
    rfl
  · intro a ha
    refine ⟨hsnd x z a hne ha, fun c hchn => ?_⟩
    obtain ⟨a', hle, ha'⟩ := le_of_closed hedge hcl hne hchn
    rw [ha] at ha'
    cases ha'
    exact hle

end Chains

end Telephony.Lib
