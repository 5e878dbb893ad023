import Mathlib.Data.Finset.Card

/-!
# Depth-first search

`next` gives the successors of a node, or `none` if there is no such node. A search goes through a
list of nodes, and through the successors of a node right after the node, unless it was seen before.
-/

namespace Telephony.Lib

open List

section Dfs

variable {N : Type*} {next : N → Option (List N)}

inductive Reaches (next : N → Option (List N)) (todo : List N) : N → Prop
  | start {n : N} (hn : n ∈ todo) (hnode : (next n).isSome) : Reaches next todo n
  | step {m n : N} {succ : List N} (hm : Reaches next todo m) (hnext : next m = some succ) (hn : n ∈ succ)
      (hnode : (next n).isSome) : Reaches next todo n

inductive Preorder (next : N → Option (List N)) : List N → List N → List N → Prop
  | nil (seen : List N) : Preorder next seen [] []
  | skip {n : N} {seen todo order : List N} (hskip : n ∈ seen ∨ next n = none)
      (hrest : Preorder next seen todo order) : Preorder next seen (n :: todo) order
  | visit {n : N} {seen todo succ inner order : List N} (hnew : n ∉ seen) (hnext : next n = some succ)
      (hinner : Preorder next (seen ++ [n]) succ inner) (hrest : Preorder next (seen ++ n :: inner) todo order) :
      Preorder next seen (n :: todo) (n :: (inner ++ order))

variable {seen todo order todo' : List N} {n : N}

lemma Preorder.nodup (h : Preorder next seen todo order) : order.Nodup ∧ ∀ n ∈ order, n ∉ seen := by
  induction h with
  | nil => simp
  | skip _ _ ih => exact ih
  | @visit n seen _ _ inner order hnew _ _ _ ihin ih =>
    obtain ⟨hin, hinseen⟩ := ihin
    obtain ⟨hout, hseen⟩ := ih
    simp only [mem_append, mem_cons, not_mem_nil, or_false, not_or] at hinseen hseen
    refine ⟨?_, ?_⟩
    · simp only [nodup_cons, mem_append, nodup_append]
      exact ⟨fun h => h.elim (fun h => (hinseen n h).2 rfl) fun h => (hseen n h).2.1 rfl, hin, hout,
        fun x hx y hy hxy => (hseen y hy).2.2 (hxy ▸ hx)⟩
    · simp only [mem_cons, mem_append]
      rintro x (rfl | hx | hx)
      · exact hnew
      · exact (hinseen x hx).1
      · exact (hseen x hx).1

lemma Reaches.of_closed {P : N → Prop} (h : Reaches next todo n) (hsta : ∀ m ∈ todo, (next m).isSome → P m)
    (hstep : ∀ m, P m → ∀ succ, next m = some succ → ∀ k ∈ succ, (next k).isSome → P k) : P n := by
  induction h with
  | start hn hnode => exact hsta _ hn hnode
  | step _ hnext hn hnode ih => exact hstep _ ih _ hnext _ hn hnode

lemma Reaches.mono (h : Reaches next todo n)
    (hle : ∀ m ∈ todo, (next m).isSome → Reaches next todo' m) : Reaches next todo' n :=
  h.of_closed hle fun _ hm _ hnext _ hk hnode => hm.step hnext hk hnode

lemma Preorder.reaches (h : Preorder next seen todo order) : ∀ n ∈ order, Reaches next todo n := by
  have hlat : ∀ {n : N} {todo : List N} {m : N}, Reaches next todo m → Reaches next (n :: todo) m := fun h =>
    h.mono fun m hm => .start (mem_cons_of_mem _ hm)
  induction h with
  | nil => simp
  | skip _ _ ih => exact fun n hn => hlat (ih n hn)
  | @visit n _ todo _ _ _ _ hnext _ _ ihin ih =>
    have hn : Reaches next (n :: todo) n := .start mem_cons_self (by rw [hnext]; rfl)
    simp only [mem_cons, mem_append]
    rintro m (rfl | hm | hm)
    · exact hn
    · exact (ihin m hm).mono fun k hk => hn.step hnext hk
    · exact hlat (ih m hm)

lemma Preorder.closed (h : Preorder next seen todo order) :
    (∀ n ∈ todo, (next n).isSome → n ∈ seen ++ order) ∧
      ∀ m ∈ order, ∀ succ, next m = some succ → ∀ n ∈ succ, (next n).isSome → n ∈ seen ++ order := by
  induction h with
  | nil => simp
  | skip hskip _ ih =>
    refine ⟨forall_mem_cons.mpr ⟨fun hnode => ?_, ih.1⟩, ih.2⟩
    rcases hskip with hseen | hnone
    · exact mem_append_left _ hseen
    · rw [hnone] at hnode
      cases hnode
  | @visit n seen todo succ inner order _ hnext _ _ ihin ih =>
    have hsame : seen ++ n :: inner ++ order = seen ++ n :: (inner ++ order) := by simp
    have hin : ∀ x, x ∈ seen ++ [n] ++ inner → x ∈ seen ++ n :: (inner ++ order) := by
      intro x hx
      simp only [mem_append, mem_cons] at hx ⊢
      tauto
    rw [hsame] at ih
    refine ⟨forall_mem_cons.mpr ⟨fun _ => by simp, ih.1⟩, ?_⟩
    intro m hm succ' hsucc k hk hnode
    rcases mem_cons.mp hm with rfl | hm
    · cases hnext.symm.trans hsucc
      exact hin k (ihin.1 k hk hnode)
    · rcases mem_append.mp hm with hm | hm
      · exact hin k (ihin.2 m hm succ' hsucc k hk hnode)
      · exact ih.2 m hm succ' hsucc k hk hnode

lemma Preorder.mem_iff (h : Preorder next [] todo order) (n : N) : n ∈ order ↔ Reaches next todo n := by
  obtain ⟨htodo, hsucc⟩ := h.closed
  exact ⟨h.reaches n, fun hn => hn.of_closed htodo hsucc⟩

lemma exists_preorder [DecidableEq N] (R : Finset N)
    (hcl : ∀ m ∈ R, ∀ succ, next m = some succ → ∀ n ∈ succ, (next n).isSome → n ∈ R) {k : ℕ}
    (hk : (R.filter (· ∉ seen)).card ≤ k) (htodo : ∀ n ∈ todo, (next n).isSome → n ∈ R) :
    ∃ order, Preorder next seen todo order := by
  induction k generalizing seen todo with
  | zero =>
    induction todo with
    | nil => exact ⟨[], .nil seen⟩
    | cons n todo ih =>
      obtain ⟨order, hord⟩ := ih fun m hm => htodo m (mem_cons_of_mem _ hm)
      refine ⟨order, .skip ?_ hord⟩
      rcases hnext : next n with _ | succ
      · exact .inr rfl
      have hn := htodo n mem_cons_self (by rw [hnext]; rfl)
      have hemp := Finset.card_eq_zero.mp (Nat.le_zero.mp hk)
      by_contra hnew
      have hmem : n ∈ R.filter (· ∉ seen) := Finset.mem_filter.mpr ⟨hn, fun h => hnew (.inl h)⟩
      rw [hemp] at hmem
      exact Finset.notMem_empty n hmem
  | succ k ihk =>
    induction todo generalizing seen with
    | nil => exact ⟨[], .nil seen⟩
    | cons n todo ih =>
      have hrest := fun m hm => htodo m (mem_cons_of_mem n hm)
      by_cases hseen : n ∈ seen
      · exact (ih hk hrest).imp fun _ => .skip (.inl hseen)
      rcases hnext : next n with _ | succ
      · exact (ih hk hrest).imp fun _ => .skip (.inr hnext)
      have hn := htodo n mem_cons_self (by rw [hnext]; rfl)
      -- one node fewer is unseen
      have hless : ∀ inner, (R.filter (· ∉ seen ++ n :: inner)).card ≤ k := by
        intro inner
        have hsub : R.filter (· ∉ seen ++ n :: inner) ⊂ R.filter (· ∉ seen) := by
          refine Finset.ssubset_iff_of_subset (fun x hx => ?_) |>.mpr ⟨n, by simp [hn, hseen], by simp⟩
          simp only [Finset.mem_filter, mem_append, not_or] at hx ⊢
          exact ⟨hx.1, hx.2.1⟩
        have := Finset.card_lt_card hsub
        omega
      obtain ⟨inner, hinn⟩ := ihk (hless []) (hcl n hn succ hnext)
      obtain ⟨order, hord⟩ := ihk (hless inner) hrest
      exact ⟨_, .visit hseen hnext hinn hord⟩

end Dfs

end Telephony.Lib
