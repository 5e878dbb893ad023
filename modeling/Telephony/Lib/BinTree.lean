import Mathlib.Data.List.Basic

/-!
# Binary trees, contexts and in-order lists

Binary trees whose two children are addressed by a side, so that an algorithm and its mirror image
are one definition. A context is the path from a subtree up to the root, innermost frame first.
-/

namespace Telephony.Lib

open List

inductive Side
  | left
  | right
  deriving DecidableEq, Repr

def Side.flip : Side → Side
  | .left => .right
  | .right => .left

@[simp] lemma Side.flip_flip (d : Side) : d.flip.flip = d := by cases d <;> rfl

@[simp] lemma Side.flip_ne (d : Side) : d.flip ≠ d := by cases d <;> simp [Side.flip]

@[simp] lemma Side.ne_flip (d : Side) : d ≠ d.flip := by cases d <;> simp [Side.flip]

lemma Side.eq_or_eq_flip (d e : Side) : e = d ∨ e = d.flip := by
  cases d <;> cases e <;> simp [Side.flip]

inductive BinTree (β : Type*)
  | nil
  | node (v : β) (l r : BinTree β)

namespace BinTree

variable {β : Type*}

def fork (d : Side) (v : β) (t s : BinTree β) : BinTree β :=
  match d with
  | .left => node v t s
  | .right => node v s t

lemma fork_flip (d : Side) (v : β) (t s : BinTree β) : fork d.flip v t s = fork d v s t := by
  cases d <;> rfl

lemma exists_fork {t : BinTree β} (h : t ≠ nil) (d : Side) : ∃ v a b, t = fork d v a b := by
  cases t with
  | nil => exact absurd rfl h
  | node v l r =>
    cases d
    · exact ⟨v, l, r, rfl⟩
    · exact ⟨v, r, l, rfl⟩

lemma fork_induction (d : Side) {p : BinTree β → Prop} (hnil : p nil)
    (hfork : ∀ v t s, p t → p s → p (fork d v t s)) (t : BinTree β) : p t := by
  induction t with
  | nil => exact hnil
  | node v l r ihl ihr =>
    cases d
    · exact hfork v l r ihl ihr
    · exact hfork v r l ihr ihl

lemma fork_eq_fork (d e : Side) (v : β) (t s : BinTree β) : ∃ t' s', fork d v t s = fork e v t' s' := by
  rcases Side.eq_or_eq_flip e d with rfl | rfl
  · exact ⟨t, s, rfl⟩
  · exact ⟨s, t, fork_flip e v t s⟩

def inorder (d : Side) : BinTree β → List β
  | nil => []
  | node v l r =>
    match d with
    | .left => inorder d r ++ v :: inorder d l
    | .right => inorder d l ++ v :: inorder d r

@[simp] lemma inorder_nil (d : Side) : inorder d (nil : BinTree β) = [] := rfl

@[simp] lemma inorder_fork (d : Side) (v : β) (t s : BinTree β) :
    inorder d (fork d v t s) = inorder d s ++ v :: inorder d t := by
  cases d <;> rfl

lemma inorder_flip (d : Side) (t : BinTree β) : inorder d.flip t = (inorder d t).reverse := by
  induction t with
  | nil => rfl
  | node v l r ihl ihr => cases d <;> simp_all [Side.flip, inorder]

def size : BinTree β → ℕ
  | nil => 0
  | node _ l r => size l + 1 + size r

def height : BinTree β → ℕ
  | nil => 0
  | node _ l r => max (height l) (height r) + 1

lemma length_inorder (d : Side) (t : BinTree β) : (inorder d t).length = size t := by
  induction t with
  | nil => rfl
  | node v l r ihl ihr =>
    cases d <;> simp only [inorder, length_append, length_cons, size, ihl, ihr] <;> omega

end BinTree

open BinTree

/-! ## Contexts -/

/-- One step of the path up: the side the subtree is on, the value of its parent and its sibling. -/
structure TreeFrame (β : Type*) where
  side : Side
  v : β
  sib : BinTree β

section Context

variable {β : Type*}

def plug : List (TreeFrame β) → BinTree β → BinTree β
  | [], t => t
  | f :: ctx, t => plug ctx (fork f.side f.v t f.sib)

@[simp] lemma plug_nil (t : BinTree β) : plug [] t = t := rfl

@[simp] lemma plug_cons (f : TreeFrame β) (ctx : List (TreeFrame β)) (t : BinTree β) :
    plug (f :: ctx) t = plug ctx (fork f.side f.v t f.sib) := rfl

lemma plug_append (ctx ctx' : List (TreeFrame β)) (t : BinTree β) :
    plug (ctx ++ ctx') t = plug ctx' (plug ctx t) := by
  induction ctx generalizing t with
  | nil => rfl
  | cons f ctx ih => exact ih _

lemma exists_plug_fork (ctx : List (TreeFrame β)) (d : Side) (v : β) (t s : BinTree β) :
    ∃ w t' s', plug ctx (fork d v t s) = fork .left w t' s' := by
  induction ctx generalizing d v t s with
  | nil =>
    obtain ⟨t', s', h⟩ := fork_eq_fork d .left v t s
    exact ⟨v, t', s', h⟩
  | cons f ctx ih => exact ih f.side f.v _ _

def ctxAfter (d : Side) : List (TreeFrame β) → List β
  | [] => []
  | f :: ctx => (if f.side = d then [] else f.v :: inorder d f.sib) ++ ctxAfter d ctx

def ctxBefore (d : Side) : List (TreeFrame β) → List β
  | [] => []
  | f :: ctx => ctxBefore d ctx ++ if f.side = d then inorder d f.sib ++ [f.v] else []

lemma ctxBefore_eq_nil {d : Side} {ctx : List (TreeFrame β)} (h : ∀ f ∈ ctx, f.side = d.flip) :
    ctxBefore d ctx = [] := by
  induction ctx with
  | nil => rfl
  | cons f ctx ih => rw [ctxBefore, if_neg (by simp [h f]), ih fun g hg => h g (by simp [hg]), append_nil]

section

variable (d : Side)

@[simp] lemma ctxAfter_nil : ctxAfter d ([] : List (TreeFrame β)) = [] := rfl

@[simp] lemma ctxBefore_nil : ctxBefore d ([] : List (TreeFrame β)) = [] := rfl

lemma ctxAfter_flip (ctx : List (TreeFrame β)) : ctxAfter d.flip ctx = (ctxBefore d ctx).reverse := by
  induction ctx with
  | nil => rfl
  | cons f ctx ih =>
    rw [ctxAfter, ctxBefore, ih]
    rcases Side.eq_or_eq_flip d f.side with h | h
    · simp [h, inorder_flip]
    · simp [h]

lemma ctxBefore_append (inner ctx : List (TreeFrame β)) :
    ctxBefore d (inner ++ ctx) = ctxBefore d ctx ++ ctxBefore d inner := by
  induction inner with
  | nil => simp
  | cons f inner ih => rw [cons_append, ctxBefore, ih, ctxBefore, append_assoc]

lemma ctxAfter_append (inner ctx : List (TreeFrame β)) :
    ctxAfter d (inner ++ ctx) = ctxAfter d inner ++ ctxAfter d ctx := by
  induction inner with
  | nil => simp
  | cons f inner ih => rw [cons_append, ctxAfter, ih, ctxAfter, append_assoc]

lemma inorder_plug (ctx : List (TreeFrame β)) (t : BinTree β) :
    inorder d (plug ctx t) = ctxBefore d ctx ++ inorder d t ++ ctxAfter d ctx := by
  induction ctx generalizing t with
  | nil => simp
  | cons f ctx ih =>
    rw [plug_cons, ih]
    obtain ⟨e, v, s⟩ := f
    rcases Side.eq_or_eq_flip d e with rfl | rfl
    · simp [ctxAfter, ctxBefore]
    · rw [fork_flip]
      simp [ctxAfter, ctxBefore]

lemma exists_plug_of_inorder {t : BinTree β} {pre post : List β} {v : β} (h : inorder d t = pre ++ v :: post) :
    ∃ ctx a b, t = plug ctx (fork d v b a) ∧ pre = ctxBefore d ctx ++ inorder d a ∧
      post = inorder d b ++ ctxAfter d ctx := by
  induction t using fork_induction d generalizing pre post with
  | hnil => simp at h
  | hfork w b a ihb iha =>
    rw [inorder_fork] at h
    rcases append_eq_append_iff.mp h with ⟨x, rfl, hx⟩ | ⟨x, hx, hpost⟩
    · cases x with
      | nil =>
        obtain ⟨rfl, rfl⟩ := hx
        exact ⟨[], a, b, rfl, append_nil _, (append_nil _).symm⟩
      | cons y x =>
        obtain ⟨rfl, hb⟩ := List.cons.inj hx
        obtain ⟨ctx, a', b', rfl, rfl, rfl⟩ := ihb hb
        exact ⟨ctx ++ [⟨d, w, a⟩], a', b', by rw [plug_append]; rfl,
          by simp [ctxBefore_append, ctxBefore], by simp [ctxAfter_append, ctxAfter]⟩
    cases x with
    | nil =>
      obtain ⟨rfl, rfl⟩ := hpost
      exact ⟨[], a, b, rfl, by simp [hx], (append_nil _).symm⟩
    | cons y x =>
      obtain ⟨rfl, rfl⟩ := List.cons.inj hpost
      obtain ⟨ctx, a', b', rfl, rfl, rfl⟩ := iha hx
      refine ⟨ctx ++ [⟨d.flip, w, b⟩], a', b', ?_, by simp [ctxBefore_append, ctxBefore],
        by simp [ctxAfter_append, ctxAfter]⟩
      rw [plug_append, ← fork_flip]
      rfl

end

end Context

end Telephony.Lib
