import Mathlib.Algebra.Group.Nat.Defs
import Telephony.Lib.BinTree

/-!
# Red-black trees

Colours, black heights, and contexts that keep them. `red` says which values are red.
-/

namespace Telephony.Lib

open BinTree

section RedBlack

variable {β : Type*} (red : β → Bool)

/-- A tree without two red nodes in a row and with `n` black nodes on every path. -/
inductive Balanced : BinTree β → Bool → ℕ → Prop
  | nil : Balanced nil false 0
  | red {v : β} {l r : BinTree β} {n : ℕ} (hv : red v = true) (hl : Balanced l false n)
      (hr : Balanced r false n) : Balanced (node v l r) true n
  | black {v : β} {l r : BinTree β} {cl cr : Bool} {n : ℕ} (hv : red v = false)
      (hl : Balanced l cl n) (hr : Balanced r cr n) : Balanced (node v l r) false (n + 1)

def TopBlack (ctx : List (TreeFrame β)) : Prop := ∃ f ctx', ctx = f :: ctx' ∧ red f.v = false

/-- A context that, around a subtree of black height `n`, gives a balanced tree with a black
root. -/
inductive CtxBalanced : List (TreeFrame β) → ℕ → Prop
  | nil (n : ℕ) : CtxBalanced [] n
  | red {f : TreeFrame β} {ctx : List (TreeFrame β)} {n : ℕ} (hv : red f.v = true)
      (hs : Balanced red f.sib false n) (htop : TopBlack red ctx) (hc : CtxBalanced ctx n) :
      CtxBalanced (f :: ctx) n
  | black {f : TreeFrame β} {ctx : List (TreeFrame β)} {c : Bool} {n : ℕ} (hv : red f.v = false)
      (hs : Balanced red f.sib c n) (hc : CtxBalanced ctx (n + 1)) : CtxBalanced (f :: ctx) n

variable {red}

variable {d : Side} {v w : β} {t s : BinTree β} {n m : ℕ} {c c' : Bool} {f f' : TreeFrame β}
  {ctx : List (TreeFrame β)}

lemma Balanced.fork_red (hv : red v = true) (ht : Balanced red t false n) (hs : Balanced red s false n) :
    Balanced red (fork d v t s) true n := by
  cases d
  · exact .red hv ht hs
  · exact .red hv hs ht

lemma Balanced.fork_black (hv : red v = false) (ht : Balanced red t c n) (hs : Balanced red s c' n) :
    Balanced red (fork d v t s) false (n + 1) := by
  cases d
  · exact .black hv ht hs
  · exact .black hv hs ht

lemma Balanced.red_inv (h : Balanced red (fork d v t s) true n) :
    red v = true ∧ Balanced red t false n ∧ Balanced red s false n := by
  cases d <;> cases h with
  | red hv hl hr => exact ⟨hv, by assumption, by assumption⟩

lemma Balanced.black_inv (h : Balanced red (fork d v t s) false n) :
    red v = false ∧ ∃ m c c', n = m + 1 ∧ Balanced red t c m ∧ Balanced red s c' m := by
  cases d
  · cases h with
    | black hv hl hr => exact ⟨hv, _, _, _, rfl, hl, hr⟩
  · cases h with
    | black hv hl hr => exact ⟨hv, _, _, _, rfl, hr, hl⟩

lemma Balanced.exists_of_red (h : Balanced red t true n) (d : Side) : ∃ v a b, t = fork d v a b :=
  exists_fork (by rintro rfl; cases h) d

lemma Balanced.exists_of_pos (h : Balanced red t c (n + 1)) (d : Side) : ∃ v a b, t = fork d v a b :=
  exists_fork (by rintro rfl; cases h) d

lemma Balanced.red_root (h : Balanced red (fork d v t s) c n) : red v = c := by
  cases c with
  | false => exact h.black_inv.1
  | true => exact h.red_inv.1

lemma Balanced.blacken (h : Balanced red (fork d v t s) c n) (hw : red w = false) :
    ∃ m, Balanced red (fork d w t s) false m := by
  cases c with
  | false =>
    obtain ⟨-, m, c, c', -, ht, hs⟩ := h.black_inv
    exact ⟨_, .fork_black hw ht hs⟩
  | true =>
    obtain ⟨-, ht, hs⟩ := h.red_inv
    exact ⟨_, .fork_black hw ht hs⟩

section

variable (h : CtxBalanced red (f :: ctx) n)
include h

lemma CtxBalanced.black_inv (hf : red f.v = false) : ∃ c, Balanced red f.sib c n ∧ CtxBalanced red ctx (n + 1) := by
  cases h with
  | red hv => simp [hf] at hv
  | black hv hs hc => exact ⟨_, hs, hc⟩

lemma CtxBalanced.red_inv (hf : red f.v = true) :
    Balanced red f.sib false n ∧ TopBlack red ctx ∧ CtxBalanced red ctx n := by
  cases h with
  | red hv hs htop hc => exact ⟨hs, htop, hc⟩
  | black hv => simp [hf] at hv

lemma CtxBalanced.exists_sib : ∃ c, Balanced red f.sib c n := by
  cases h with
  | red hv hs htop hc => exact ⟨_, hs⟩
  | black hv hs hc => exact ⟨_, hs⟩

lemma CtxBalanced.replace (hv' : red f'.v = red f.v) (hs' : Balanced red f'.sib false n) :
    CtxBalanced red (f' :: ctx) n := by
  cases h with
  | red hv hs htop hc => exact .red (hv'.trans hv) hs' htop hc
  | black hv hs hc => exact .black (hv'.trans hv) hs' hc

lemma CtxBalanced.exists_black_root (t : BinTree β) :
    ∃ v a b, plug (f :: ctx) t = fork .left v a b ∧ red v = false := by
  induction ctx generalizing f n t with
  | nil =>
    cases h with
    | red hv hs htop hc =>
      obtain ⟨g, ctx, hnil, -⟩ := htop
      simp at hnil
    | black hv hs hc =>
      obtain ⟨a, b, hab⟩ := fork_eq_fork f.side .left f.v t f.sib
      exact ⟨f.v, a, b, hab, hv⟩
  | cons g ctx ih =>
    cases h with
    | red hv hs htop hc => exact ih hc _
    | black hv hs hc => exact ih hc _

end

lemma balanced_plug (h : Balanced red (plug ctx t) false m) :
    ∃ c n, Balanced red t c n ∧ CtxBalanced red ctx n ∧ (c = true → TopBlack red ctx) := by
  induction ctx generalizing t with
  | nil => exact ⟨false, m, h, .nil m, by simp⟩
  | cons f ctx ih =>
    obtain ⟨c, n, ht, hctx, htop⟩ := ih h
    cases c with
    | true =>
      obtain ⟨hv, ht, hs⟩ := ht.red_inv
      exact ⟨false, n, ht, .red hv hs (htop rfl) hctx, by simp⟩
    | false =>
      obtain ⟨hv, k, c, c', rfl, ht, hs⟩ := ht.black_inv
      exact ⟨c, k, ht, .black hv hs hctx, fun _ => ⟨f, ctx, rfl, hv⟩⟩

lemma CtxBalanced.plug (h : CtxBalanced red ctx n) (ht : Balanced red t c n)
    (htop : c = true → TopBlack red ctx) :
    ∃ m, Balanced red (plug ctx t) false m := by
  induction h generalizing t c with
  | nil n =>
    cases c with
    | false => exact ⟨n, ht⟩
    | true =>
      obtain ⟨f, ctx', hnil, -⟩ := htop rfl
      simp at hnil
  | red hv hs hblack hctx ih =>
    cases c with
    | false => exact ih (.fork_red hv ht hs) fun _ => hblack
    | true =>
      obtain ⟨f, ctx', heq, hf⟩ := htop rfl
      simp only [List.cons.injEq] at heq
      rw [← heq.1, hv] at hf
      simp at hf
  | black hv hs hctx ih => exact ih (.fork_black hv ht hs) (by simp)

lemma Balanced.replace (h : Balanced red (Lib.plug ctx (fork d v t s)) false m) (hw : red w = red v) :
    ∃ m, Balanced red (Lib.plug ctx (fork d w t s)) false m := by
  obtain ⟨c, n, ht, hctx, htop⟩ := balanced_plug h
  refine hctx.plug (c := c) ?_ htop
  cases c with
  | false =>
    obtain ⟨hv, k, c, c', rfl, ht, hs⟩ := ht.black_inv
    exact .fork_black (hw.trans hv) ht hs
  | true =>
    obtain ⟨hv, ht, hs⟩ := ht.red_inv
    exact .fork_red (hw.trans hv) ht hs

lemma Balanced.height_le (h : Balanced red t c n) : height t ≤ 2 * n + c.toNat ∧ 2 ^ n ≤ size t + 1 := by
  induction h with
  | nil => simp [height, size]
  | red _ _ _ ihl ihr =>
    simp only [height, size, Bool.toNat_false, Bool.toNat_true] at ihl ihr ⊢
    omega
  | @black _ _ _ cl cr _ _ _ _ ihl ihr =>
    have hcl := cl.toNat_le
    have hcr := cr.toNat_le
    simp only [height, size, pow_succ]
    omega

end RedBlack

end Telephony.Lib
