import Telephony.Lib.BinTree
import Telephony.Lib.LiveIter

/-!
# What containers share

The options and operations of `struct ao2_container`, and what an operation may do to the nodes of a
container in their order. Nodes are numbered as they are allocated, and numbers are not used again.
-/

namespace Telephony.Ao2

open Lib List

/-- Source: `AO2_CONTAINER_ALLOC_OPT_DUPS_MASK` -/
inductive Dups
  | allow
  | reject
  | objReject
  | replace
  deriving DecidableEq, Repr

/-- Source: `enum ao2_container_insert` -/
inductive InsertResult
  | inserted
  | objReplaced
  | rejected
  deriving DecidableEq, Repr

/-- An operation on a container. A node is emptied by `unlinkObj`, and destroyed some time later.
Source: `__ao2_link`, `__container_unlink_node_debug`, `rb_ao2_node_destructor`,
`hash_ao2_node_destructor` -/
inductive ContainerOp (α : Type)
  | link (obj : α)
  | unlinkObj (node : ℕ)
  | destroyNode (node : ℕ)
  deriving DecidableEq, Repr

/-- Source: `AO2_ITERATOR_DESCENDING` -/
def inDirection {β : Type} (d : Side) (l : List β) : List β :=
  match d with
  | .right => l
  | .left => l.reverse

structure NodesEdit {α : Type} (op : ContainerOp α) (fresh fresh' : ℕ) (l l' : List (ℕ × Option α)) :
    Prop where
  edit : Edit (· < fresh) l l'
  fresh_le : fresh ≤ fresh'
  stays : ∀ k ∈ l.map Prod.fst, op ≠ .destroyNode k → k ∈ l'.map Prod.fst

section Edits

variable {α β γ : Type} {op : ContainerOp α} {fresh fresh' : ℕ} {l l' : List (ℕ × Option α)} {d : Side}

lemma NodesEdit.of_insert {p q : List ℕ} (hnd : (l.map Prod.fst).Nodup)
    (hlt : ∀ k ∈ l.map Prod.fst, k < fresh) (hl : l.map Prod.fst = p ++ q)
    (hl' : l'.map Prod.fst = p ++ fresh :: q) : NodesEdit op fresh (fresh + 1) l l' := by
  refine ⟨Edit.of_insert hnd hlt (lt_irrefl _) hl hl', Nat.le_succ _, fun k hk _ => ?_⟩
  rw [hl', perm_middle.mem_iff, ← hl]
  exact mem_cons_of_mem _ hk

lemma NodesEdit.of_keys (hnd : (l.map Prod.fst).Nodup) (hle : fresh ≤ fresh')
    (hkeys : l'.map Prod.fst = l.map Prod.fst) : NodesEdit op fresh fresh' l l' :=
  ⟨Edit.of_sublist hnd (by rw [hkeys]), hle, fun _ hk _ => hkeys ▸ hk⟩

lemma mem_inDirection {l : List β} {x : β} : x ∈ inDirection d l ↔ x ∈ l := by
  cases d with
  | right => exact Iff.rfl
  | left => exact mem_reverse

lemma nodup_inDirection {l : List β} : (inDirection d l).Nodup ↔ l.Nodup := by
  cases d with
  | right => exact Iff.rfl
  | left => exact nodup_reverse

lemma map_inDirection (f : β → γ) (d : Side) (l : List β) : (inDirection d l).map f = inDirection d (l.map f) := by
  cases d with
  | right => rfl
  | left => exact map_reverse

lemma NodesEdit.inDirection (h : NodesEdit op fresh fresh' l l') (d : Side) :
    NodesEdit op fresh fresh' (inDirection d l) (inDirection d l') := by
  refine ⟨?_, h.fresh_le, fun k hk => ?_⟩
  · cases d with
    | right => exact h.edit
    | left => exact h.edit.reverse
  · rw [map_inDirection, mem_inDirection] at hk ⊢
    exact h.stays k hk

end Edits

end Telephony.Ao2
