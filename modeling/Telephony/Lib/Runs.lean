import Mathlib.Data.List.Basic
import Mathlib.Data.Nat.Basic

/-!
# Runs of a state machine

A run performs a list of operations, each in the state that the ones before it have left. With
`next`, which may have no state to go on with, it is `ops.foldlM next s`, and with `step`, which
always has one, `ops.foldl step s`.

* `foldlM_total`: every operation has a result and keeps an invariant.
* `Each next P s ops`: `P` holds of every operation of a run and the state it is performed in. Where
  `next` has no state, the run ends.
* `Each.foldlM_total`, `Each.foldlM_inv`, `Each.foldl_inv`: invariants of runs whose operations meet
  a condition.
* `Each.imp_of_inv`, `each_iff_of_inv`: one condition gives another along a run when it does so
  wherever an invariant holds that the operations keep.
* `Each.and`, `Each.of_append`, `each_total_cons`: two conditions, the beginning of a run, and its
  first operation.
-/

namespace Telephony.Lib

open List

variable {σ α : Type*} {next : σ → α → Option σ} {step : σ → α → σ} {P Q : σ → α → Prop} {I : σ → Prop} {s s' : σ}
  {ops : List α}

/-! ## Invariants -/

/-- Every operation has a result and keeps the invariant. -/
lemma foldlM_total (hstep : ∀ op ∈ ops, ∀ s, I s → ∃ s', next s op = some s' ∧ I s') (hs : I s) :
    ∃ s', ops.foldlM next s = some s' ∧ I s' := by
  induction ops generalizing s with
  | nil => exact ⟨s, rfl, hs⟩
  | cons op ops ih =>
    rw [forall_mem_cons] at hstep
    obtain ⟨s₁, hs₁, hi⟩ := hstep.1 s hs
    rw [foldlM_cons, hs₁]
    exact ih hstep.2 hi

/-! ## Conditions on every operation -/

/-- `P` holds of each operation of the run and the state it is performed in. -/
def Each (next : σ → α → Option σ) (P : σ → α → Prop) : σ → List α → Prop
  | _, [] => True
  | s, op :: ops => P s op ∧ ∀ s' ∈ next s op, Each next P s' ops

instance decidableEach (next : σ → α → Option σ) (P : σ → α → Prop) [∀ s op, Decidable (P s op)] :
    (s : σ) → (ops : List α) → Decidable (Each next P s ops)
  | _, [] => isTrue trivial
  | _, _ :: ops =>
    have : ∀ s', Decidable (Each next P s' ops) := fun s' => decidableEach next P s' ops
    by unfold Each; infer_instance

lemma Each.of_append {before after : List α} (h : Each next P s (before ++ after)) : Each next P s before := by
  induction before generalizing s with
  | nil => trivial
  | cons op before ih => exact ⟨h.1, fun s' hs' => ih (h.2 s' hs')⟩

lemma Each.take (h : Each next P s ops) (k : ℕ) : Each next P s (ops.take k) :=
  @of_append _ _ _ _ _ _ (ops.drop k) ((take_append_drop k ops).symm ▸ h)

lemma Each.and (hp : Each next P s ops) (hq : Each next Q s ops) : Each next (fun s op => P s op ∧ Q s op) s ops := by
  induction ops generalizing s with
  | nil => trivial
  | cons op ops ih => exact ⟨⟨hp.1, hq.1⟩, fun s' hs' => ih (hp.2 s' hs') (hq.2 s' hs')⟩

/-- Induction on the operations, with the invariant of the state. -/
lemma Each.imp_of_inv (hstep : ∀ s op, I s → P s op → Q s op ∧ ∀ s' ∈ next s op, I s') (hs : I s)
    (h : Each next P s ops) : Each next Q s ops := by
  induction ops generalizing s with
  | nil => trivial
  | cons op ops ih =>
    obtain ⟨hq, hkept⟩ := hstep s op hs h.1
    exact ⟨hq, fun s' hs' => ih (hkept s' hs') (h.2 s' hs')⟩

lemma each_iff_of_inv (hstep : ∀ s op, I s → (P s op ↔ Q s op)) (hkept : ∀ s op, I s → P s op → ∀ s' ∈ next s op, I s')
    (hs : I s) : Each next P s ops ↔ Each next Q s ops :=
  ⟨.imp_of_inv (fun s op hs hp => ⟨(hstep s op hs).mp hp, hkept s op hs hp⟩) hs,
    .imp_of_inv (fun s op hs hq => ⟨(hstep s op hs).mpr hq, hkept s op hs ((hstep s op hs).mpr hq)⟩) hs⟩

lemma Each.foldlM_total (h : Each next P s ops) (hstep : ∀ s op, I s → P s op → ∃ s', next s op = some s' ∧ I s')
    (hs : I s) : ∃ s', ops.foldlM next s = some s' ∧ I s' := by
  induction ops generalizing s with
  | nil => exact ⟨s, rfl, hs⟩
  | cons op ops ih =>
    obtain ⟨s₁, hs₁, hi⟩ := hstep s op hs h.1
    rw [foldlM_cons, hs₁]
    exact ih (h.2 s₁ hs₁) hi

lemma Each.foldlM_inv (h : Each next P s ops) (hstep : ∀ s op, I s → P s op → ∀ s' ∈ next s op, I s') (hs : I s)
    (hrun : ops.foldlM next s = some s') : I s' := by
  induction ops generalizing s with
  | nil => exact Option.some.inj hrun ▸ hs
  | cons op ops ih =>
    obtain ⟨s₁, hs₁, hrest⟩ := Option.bind_eq_some_iff.mp hrun
    exact ih (h.2 s₁ hs₁) (hstep s op hs h.1 s₁ hs₁) hrest

/-- Every operation leaves a state. -/
def total (step : σ → α → σ) (s : σ) (op : α) : Option σ := some (step s op)

lemma each_total_cons {op : α} :
    Each (total step) P s (op :: ops) ↔ P s op ∧ Each (total step) P (step s op) ops := by
  simp [Each, total]

lemma Each.foldl_inv (h : Each (total step) P s ops) (hstep : ∀ op ∈ ops, ∀ s, I s → P s op → I (step s op))
    (hs : I s) : I (ops.foldl step s) := by
  induction ops generalizing s with
  | nil => exact hs
  | cons op ops ih =>
    obtain ⟨hp, hrest⟩ := each_total_cons.mp h
    rw [forall_mem_cons] at hstep
    exact ih hrest hstep.2 (hstep.1 s hs hp)

end Telephony.Lib
