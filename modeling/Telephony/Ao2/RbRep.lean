import Telephony.Ao2.RbHeap

/-!
# The tree that the linked nodes form

An abstract tree has a cell for every node: its address, its object and its colour. `Rep self t`
says that the memory of the container holds exactly the links of `t`: every node points to its
children and to its parent, and no address occurs twice.
-/

namespace Telephony.Ao2

open Lib Lib.BinTree Function
open List hiding nil

/-- Source: `struct rbtree_node` without its links -/
structure Cell (α : Type) where
  id : ℕ
  obj : Option α
  red : Bool

section Rep

variable {α : Type}

/-! ## Addresses -/

def rootId : BinTree (Cell α) → Option ℕ
  | nil => none
  | node v _ _ => some v.id

def ids : BinTree (Cell α) → List ℕ
  | nil => []
  | node v l r => v.id :: (ids l ++ ids r)

def ctxIds : List (TreeFrame (Cell α)) → List ℕ
  | [] => []
  | f :: ctx => f.v.id :: (ids f.sib ++ ctxIds ctx)

def topId : List (TreeFrame (Cell α)) → Option ℕ
  | [] => none
  | f :: _ => some f.v.id

@[simp] lemma rootId_nil : rootId (nil : BinTree (Cell α)) = none := rfl

@[simp] lemma rootId_node (v : Cell α) (l r : BinTree (Cell α)) :
    rootId (node v l r) = some v.id := rfl

@[simp] lemma rootId_fork (d : Side) (v : Cell α) (t s : BinTree (Cell α)) :
    rootId (fork d v t s) = some v.id := by
  cases d <;> rfl

@[simp] lemma topId_nil : topId ([] : List (TreeFrame (Cell α))) = none := rfl

@[simp] lemma topId_cons (f : TreeFrame (Cell α)) (ctx : List (TreeFrame (Cell α))) :
    topId (f :: ctx) = some f.v.id := rfl

variable {t s : BinTree (Cell α)} {i old : ℕ} {ctx : List (TreeFrame (Cell α))} {f : TreeFrame (Cell α)}
  {mem mem' : ℕ → RbNode α} {p c c' : Option ℕ} {self self' : RbTree α} {d : Side} {v : Cell α}

lemma mem_ids_of_rootId (h : rootId t = some i) : i ∈ ids t := by
  cases t with
  | nil => simp at h
  | node v l r =>
    simp only [rootId_node, Option.some.injEq] at h
    simp [ids, h]

lemma length_ids_pos (h : rootId t = some i) : 0 < (ids t).length := length_pos_of_mem (mem_ids_of_rootId h)

lemma ids_fork_perm (d : Side) (v : Cell α) (t s : BinTree (Cell α)) :
    (ids (fork d v t s)).Perm (v.id :: (ids t ++ ids s)) := by
  cases d
  · exact List.Perm.refl _
  · exact List.Perm.cons _ perm_append_comm

lemma ids_plug_perm (ctx : List (TreeFrame (Cell α))) (t : BinTree (Cell α)) :
    (ids (plug ctx t)).Perm (ids t ++ ctxIds ctx) := by
  induction ctx generalizing t with
  | nil => simp [ctxIds]
  | cons f ctx ih =>
    refine (ih _).trans ?_
    refine ((ids_fork_perm f.side f.v t f.sib).append_right _).trans ?_
    simp only [cons_append, append_assoc]
    exact (perm_middle).symm

lemma mem_ids_plug : i ∈ ids (plug ctx t) ↔ i ∈ ids t ∨ i ∈ ctxIds ctx := by
  rw [(ids_plug_perm ctx t).mem_iff, mem_append]

lemma rootId_plug_cons (f : TreeFrame (Cell α)) (ctx : List (TreeFrame (Cell α)))
    (t t' : BinTree (Cell α)) : rootId (plug (f :: ctx) t) = rootId (plug (f :: ctx) t') := by
  induction ctx generalizing f t t' with
  | nil => simp
  | cons g ctx ih => exact ih g _ _

lemma mem_ctxIds_of_rootId (h : rootId (plug (f :: ctx) t) = some i) : i ∈ ctxIds (f :: ctx) := by
  induction ctx generalizing f t with
  | nil =>
    simp only [plug_cons, plug_nil, rootId_fork, Option.some.injEq] at h
    simp [ctxIds, h]
  | cons g ctx ih =>
    have hmem := ih (f := g) (t := fork f.side f.v t f.sib) h
    exact mem_cons_of_mem _ (mem_append_right _ hmem)

/-! ## What the memory holds -/

def mkNode (v : Cell α) (p : Option ℕ) (d : Side) (c c' : Option ℕ) : RbNode α :=
  match d with
  | .left => ⟨v.obj, p, c, c', v.red⟩
  | .right => ⟨v.obj, p, c', c, v.red⟩

section MkNode

variable (v : Cell α) (p q : Option ℕ) (d : Side) (c c' x : Option ℕ)

lemma mkNode_flip : mkNode v p d.flip c c' = mkNode v p d c' c := by cases d <;> rfl

@[simp] lemma mkNode_obj : (mkNode v p d c c').obj = v.obj := by cases d <;> rfl

@[simp] lemma mkNode_parent : (mkNode v p d c c').parent = p := by cases d <;> rfl

@[simp] lemma mkNode_isRed : (mkNode v p d c c').isRed = v.red := by cases d <;> rfl

@[simp] lemma mkNode_child : (mkNode v p d c c').child d = c := by cases d <;> rfl

@[simp] lemma mkNode_child_flip : (mkNode v p d c c').child d.flip = c' := by cases d <;> rfl

@[simp] lemma mkNode_setChild : (mkNode v p d c c').setChild d x = mkNode v p d x c' := by
  cases d <;> rfl

@[simp] lemma mkNode_setChild_flip :
    (mkNode v p d c c').setChild d.flip x = mkNode v p d c x := by
  cases d <;> rfl

@[simp] lemma mkNode_setParent :
    { mkNode v p d c c' with parent := q } = mkNode v q d c c' := by
  cases d <;> rfl

@[simp] lemma mkNode_setRed (b : Bool) :
    { mkNode v p d c c' with isRed := b } = mkNode { v with red := b } p d c c' := by
  cases d <;> rfl

@[simp] lemma mkNode_setObj (o : Option α) :
    { mkNode v p d c c' with obj := o } = mkNode { v with obj := o } p d c c' := by
  cases d <;> rfl

end MkNode

def Owns (mem : ℕ → RbNode α) : Option ℕ → BinTree (Cell α) → Prop
  | _, nil => True
  | p, node v l r =>
    mem v.id = mkNode v p .left (rootId l) (rootId r) ∧ Owns mem (some v.id) l ∧ Owns mem (some v.id) r

def OwnsCtx (mem : ℕ → RbNode α) : Option ℕ → List (TreeFrame (Cell α)) → Prop
  | _, [] => True
  | c, f :: ctx =>
    mem f.v.id = mkNode f.v (topId ctx) f.side c (rootId f.sib) ∧ Owns mem (some f.v.id) f.sib ∧
      OwnsCtx mem (some f.v.id) ctx

@[simp] lemma owns_nil (mem : ℕ → RbNode α) (p : Option ℕ) : Owns mem p nil := trivial

@[simp] lemma owns_fork {mem : ℕ → RbNode α} {p : Option ℕ} {d : Side} {v : Cell α}
    {t s : BinTree (Cell α)} :
    Owns mem p (fork d v t s) ↔ mem v.id = mkNode v p d (rootId t) (rootId s) ∧
      Owns mem (some v.id) t ∧ Owns mem (some v.id) s := by
  cases d
  · exact Iff.rfl
  · exact and_congr Iff.rfl and_comm

lemma owns_plug : Owns mem none (plug ctx t) ↔ OwnsCtx mem (rootId t) ctx ∧ Owns mem (topId ctx) t := by
  induction ctx generalizing t with
  | nil => simp [OwnsCtx]
  | cons f ctx ih =>
    rw [plug_cons, ih, owns_fork, rootId_fork]
    simp only [OwnsCtx]
    tauto

lemma Owns.congr (h : Owns mem p t) (heq : ∀ i ∈ ids t, mem' i = mem i) : Owns mem' p t := by
  induction t generalizing p with
  | nil => trivial
  | node v l r ihl ihr =>
    obtain ⟨hv, hl, hr⟩ := h
    refine ⟨?_, ihl hl fun i hi => heq i (by simp [ids, hi]), ihr hr fun i hi => heq i (by simp [ids, hi])⟩
    rw [heq v.id (by simp [ids]), hv]

lemma OwnsCtx.congr (h : OwnsCtx mem c ctx) (heq : ∀ i ∈ ctxIds ctx, mem' i = mem i) : OwnsCtx mem' c ctx := by
  induction ctx generalizing c with
  | nil => trivial
  | cons f ctx ih =>
    obtain ⟨hv, hs, hc⟩ := h
    refine ⟨?_, hs.congr fun i hi => heq i (by simp [ctxIds, hi]), ih hc fun i hi => heq i (by simp [ctxIds, hi])⟩
    rw [heq f.v.id (by simp [ctxIds]), hv]

lemma Owns.setParent {q : Option ℕ} (h : Owns mem p t) (hnd : (ids t).Nodup)
    (hroot : ∀ i, rootId t = some i → mem' i = { mem i with parent := q })
    (heq : ∀ i ∈ ids t, rootId t ≠ some i → mem' i = mem i) : Owns mem' q t := by
  cases t with
  | nil => trivial
  | node v l r =>
    obtain ⟨hv, hl, hr⟩ := h
    simp only [ids, nodup_cons, mem_append, not_or] at hnd
    have hne : ∀ i ∈ ids l ++ ids r, rootId (node v l r) ≠ some i := by
      rintro i hi heq'
      simp only [rootId_node, Option.some.injEq] at heq'
      subst heq'
      rcases mem_append.mp hi with hi | hi
      · exact hnd.1.1 hi
      · exact hnd.1.2 hi
    refine ⟨?_, hl.congr fun i hi => heq i (by simp [ids, hi]) (hne i (by simp [hi])),
      hr.congr fun i hi => heq i (by simp [ids, hi]) (hne i (by simp [hi]))⟩
    rw [hroot v.id rfl, hv, mkNode_setParent]

lemma OwnsCtx.relink (h : OwnsCtx mem c (f :: ctx)) (htop : mem' f.v.id = (mem f.v.id).setChild f.side c')
    (heq : ∀ i ∈ ids f.sib ++ ctxIds ctx, mem' i = mem i) : OwnsCtx mem' c' (f :: ctx) := by
  obtain ⟨hv, hs, hc⟩ := h
  refine ⟨?_, hs.congr fun i hi => heq i (by simp [hi]), hc.congr fun i hi => heq i (by simp [hi])⟩
  rw [htop, hv, mkNode_setChild]

/-! ## The representation -/

/-- Source: `rb_ao2_integrity` (the checks of the links) -/
structure Rep (c : RbTree α) (t : BinTree (Cell α)) : Prop where
  root_eq : c.root = rootId t
  owns : Owns c.node none t
  nodup : (ids t).Nodup
  lt_fresh : ∀ i ∈ ids t, i < c.fresh

structure SameMeta (c c' : RbTree α) : Prop where
  fresh : c'.fresh = c.fresh
  isLinked : c'.isLinked = c.isLinked
  destroying : c'.destroying = c.destroying

lemma SameMeta.rfl : SameMeta self self := ⟨Eq.refl _, Eq.refl _, Eq.refl _⟩

lemma SameMeta.trans {s₁ s₂ s₃ : RbTree α} (h : SameMeta s₁ s₂) (h' : SameMeta s₂ s₃) : SameMeta s₁ s₃ :=
  ⟨h'.fresh.trans h.fresh, h'.isLinked.trans h.isLinked, h'.destroying.trans h.destroying⟩

/-- The same tree, looked at from the subtree `t` of a node. -/
lemma Rep.down (h : Rep self (plug ctx (fork d v t s))) : Rep self (plug (⟨d, v, s⟩ :: ctx) t) := h

lemma Rep.up (h : Rep self (plug (f :: ctx) t)) : Rep self (plug ctx (fork f.side f.v t f.sib)) := h

lemma Rep.whole (h : Rep self t) : Rep self (plug [] t) := h

lemma Rep.nodup_plug (h : Rep self (plug ctx t)) : (ids t ++ ctxIds ctx).Nodup :=
  (ids_plug_perm ctx t).nodup_iff.mp h.nodup

lemma Rep.length_ids_le (h : Rep self t) : (ids t).length ≤ self.fresh := by
  have hsub : ids t ⊆ range self.fresh := fun i hi => mem_range.mpr (h.lt_fresh i hi)
  simpa using (subperm_of_subset h.nodup hsub).length_le

lemma Rep.of_parts (hroot : self.root = rootId (plug ctx t)) (hctx : OwnsCtx self.node (rootId t) ctx)
    (ht : Owns self.node (topId ctx) t) (hnd : (ids t ++ ctxIds ctx).Nodup)
    (hlt : ∀ i ∈ ids t ++ ctxIds ctx, i < self.fresh) : Rep self (plug ctx t) :=
  ⟨hroot, owns_plug.mpr ⟨hctx, ht⟩, (ids_plug_perm ctx t).nodup_iff.mpr hnd,
    fun i hi => hlt i ((ids_plug_perm ctx t).mem_iff.mp hi)⟩

lemma Rep.congr (h : Rep self t) (hroot : self'.root = self.root)
    (hfr : self.fresh ≤ self'.fresh) (heq : ∀ i ∈ ids t, self'.node i = self.node i) : Rep self' t :=
  ⟨hroot.trans h.root_eq, h.owns.congr heq, h.nodup, fun i hi => (h.lt_fresh i hi).trans_le hfr⟩

/-! ## Memory after changes -/

section Memory

variable (self : RbTree α) (i j : ℕ) {b : Bool}

@[simp] lemma modify_root (f : RbNode α → RbNode α) : (self.modify i f).root = self.root := rfl

@[simp] lemma setParent_root (p : Option ℕ) : (self.setParent i p).root = self.root := rfl

@[simp] lemma setChild_root (d : Side) (c : Option ℕ) : (self.setChild i d c).root = self.root := rfl

lemma setRed_node (b : Bool) : (self.setRed i b).node j =
    if j = i then { self.node i with isRed := b } else self.node j := by
  simp [RbTree.setRed, RbTree.modify, update_apply]

lemma setRed_eq_self {self : RbTree α} {i : ℕ} (h : (self.node i).isRed = b) : self.setRed i b = self := by
  subst h
  simp [RbTree.setRed, RbTree.modify]

lemma setParent_node (p : Option ℕ) : (self.setParent i p).node j =
    if j = i then { self.node i with parent := p } else self.node j := by
  simp [RbTree.setParent, RbTree.modify, update_apply]

lemma setChild_node (d : Side) (c : Option ℕ) : (self.setChild i d c).node j =
    if j = i then (self.node i).setChild d c else self.node j := by
  simp [RbTree.setChild, RbTree.modify, update_apply]

lemma sameMeta_modify (f : RbNode α → RbNode α) : SameMeta self (self.modify i f) :=
  ⟨rfl, rfl, rfl⟩

lemma SameMeta.of_setRed {self : RbTree α} {i : ℕ}
    (h : SameMeta (self.setRed i b) self') : SameMeta self self' := { h with }

def RbTree.setParentAt (self : RbTree α) (i p : Option ℕ) : RbTree α :=
  match i with
  | none => self
  | some i => self.setParent i p

lemma setParentAt_node (o p : Option ℕ) : (self.setParentAt o p).node j =
    if o = some j then { self.node j with parent := p } else self.node j := by
  cases o with
  | none => simp [RbTree.setParentAt]
  | some i =>
    rw [RbTree.setParentAt, setParent_node]
    by_cases h : j = i
    · simp [h]
    · rw [if_neg h, if_neg (by simpa using fun heq => h heq.symm)]

@[simp] lemma setParentAt_root (o p : Option ℕ) : (self.setParentAt o p).root = self.root := by
  cases o <;> rfl

lemma sameMeta_setParentAt (o p : Option ℕ) : SameMeta self (self.setParentAt o p) := by
  cases o <;> exact ⟨rfl, rfl, rfl⟩

end Memory

def RbTree.relink (self : RbTree α) (ctx : List (TreeFrame (Cell α))) (c : Option ℕ) : RbTree α :=
  match ctx with
  | [] => { self with root := c }
  | f :: _ => self.setChild f.v.id f.side c

lemma linkParent_eq (h : OwnsCtx self.node (some old) ctx) (hold : old ∉ ctxIds ctx) (d : Side) (new : Option ℕ) :
    self.linkParent d (topId ctx) old new = self.relink ctx new := by
  cases ctx with
  | nil => rfl
  | cons f ctx =>
    obtain ⟨e, v, s⟩ := f
    obtain ⟨hv, -, -⟩ := h
    simp only [topId_cons, RbTree.linkParent, RbTree.relink, hv]
    rcases Side.eq_or_eq_flip d e with rfl | rfl
    · simp
    · rw [mkNode_flip, mkNode_child, if_neg]
      intro hs
      exact hold (by simp [ctxIds, mem_ids_of_rootId hs])

section

variable (h : Rep self (plug ctx (fork d v t s)))
include h

lemma Rep.modify (w : Cell α) (hid : w.id = v.id)
    (f : RbNode α → RbNode α) (hf : ∀ p c c', f (mkNode v p d c c') = mkNode w p d c c') :
    Rep (self.modify v.id f) (plug ctx (fork d w t s)) := by
  have hperm : (ids (fork d w t s)).Perm (ids (fork d v t s)) := by
    refine (ids_fork_perm d w t s).trans ?_
    rw [hid]
    exact (ids_fork_perm d v t s).symm
  have hflat : (v.id :: (ids t ++ ids s) ++ ctxIds ctx).Nodup :=
    ((ids_fork_perm d v t s).append_right _).nodup_iff.mp h.nodup_plug
  rw [cons_append, nodup_cons, mem_append, mem_append, not_or, not_or] at hflat
  obtain ⟨⟨⟨hvt, hvs⟩, hvx⟩, -⟩ := hflat
  obtain ⟨hctx, hv, ht, hs⟩ : OwnsCtx self.node (some v.id) ctx ∧
      self.node v.id = mkNode v (topId ctx) d (rootId t) (rootId s) ∧
      Owns self.node (some v.id) t ∧ Owns self.node (some v.id) s := by
    simpa using owns_plug.mp h.owns
  have hsame : ∀ l : List ℕ, v.id ∉ l → ∀ i ∈ l, (self.modify v.id f).node i = self.node i := by
    intro l hl i hi
    refine update_of_ne ?_ _ _
    rintro rfl
    exact hl hi
  refine Rep.of_parts ?_ ?_ ?_ ((hperm.append_right _).nodup_iff.mpr h.nodup_plug) fun i hi => ?_
  · cases ctx with
    | nil => simpa [hid] using h.root_eq
    | cons g ctx => exact h.root_eq.trans (rootId_plug_cons g ctx _ _)
  · rw [rootId_fork, hid]
    exact hctx.congr (hsame _ hvx)
  · refine owns_fork.mpr ⟨?_, ?_, ?_⟩
    · simp only [hid, RbTree.modify, update_self]
      rw [hv, hf]
    · rw [hid]
      exact ht.congr (hsame _ hvt)
    · rw [hid]
      exact hs.congr (hsame _ hvs)
  · exact h.lt_fresh i ((ids_plug_perm ctx _).mem_iff.mpr ((hperm.append_right _).mem_iff.mp hi))

lemma Rep.setRed (b : Bool) : Rep (self.setRed v.id b) (plug ctx (fork d { v with red := b } t s)) :=
  h.modify { v with red := b } rfl _ fun p c c' => mkNode_setRed v p d c c' b

lemma Rep.setObj (o : Option α) :
    Rep (self.modify v.id fun n => { n with obj := o }) (plug ctx (fork d { v with obj := o } t s)) :=
  h.modify { v with obj := o } rfl _ fun p c c' => mkNode_setObj v p d c c' o

lemma Rep.node_eq : self.node v.id = mkNode v (topId ctx) d (rootId t) (rootId s) :=
  (owns_fork.mp (owns_plug.mp h.owns).2).1

end

lemma relink_node_of_notMem (self : RbTree α) (c : Option ℕ) (hi : i ∉ ctxIds ctx) :
    (self.relink ctx c).node i = self.node i := by
  cases ctx with
  | nil => rfl
  | cons f ctx =>
    simp only [ctxIds, mem_cons, not_or] at hi
    simp [RbTree.relink, setChild_node, if_neg hi.1]

lemma sameMeta_relink (self : RbTree α) (ctx : List (TreeFrame (Cell α))) (c : Option ℕ) :
    SameMeta self (self.relink ctx c) := by
  cases ctx <;> exact ⟨rfl, rfl, rfl⟩

lemma OwnsCtx.of_relink (h : OwnsCtx self.node c ctx) (hnd : (ctxIds ctx).Nodup)
    (heq : ∀ i ∈ ctxIds ctx, mem i = (self.relink ctx c').node i) : OwnsCtx mem c' ctx := by
  cases ctx with
  | nil => trivial
  | cons f ctx =>
    simp only [ctxIds, nodup_cons] at hnd
    refine h.relink ?_ fun i hi => ?_
    · rw [heq _ (by simp [ctxIds]), RbTree.relink, setChild_node, if_pos rfl]
    · have hne : i ≠ f.v.id := by
        rintro rfl
        exact hnd.1 hi
      rw [heq i (by exact mem_cons_of_mem _ hi), RbTree.relink, setChild_node, if_neg hne]

lemma rootId_plug_relink (h : self.root = rootId (plug ctx t)) (t' : BinTree (Cell α)) :
    (self.relink ctx (rootId t')).root = rootId (plug ctx t') := by
  cases ctx with
  | nil => rfl
  | cons f ctx => exact h.trans (rootId_plug_cons f ctx t t')

lemma ids_rotated_perm (d : Side) (n ch : Cell α) (a b c : BinTree (Cell α)) :
    (ids (fork d ch (fork d n a b) c)).Perm (ids (fork d n a (fork d ch b c))) := by
  have h₁ : (ids (fork d ch (fork d n a b) c)).Perm (ch.id :: n.id :: (ids a ++ ids b ++ ids c)) :=
    (ids_fork_perm d ch _ c).trans (((ids_fork_perm d n a b).append_right _).cons _)
  have h₂ : (ids (fork d n a (fork d ch b c))).Perm (n.id :: (ids a ++ ch.id :: (ids b ++ ids c))) :=
    (ids_fork_perm d n a _).trans (((ids_fork_perm d ch b c).append_left _).cons _)
  refine h₁.trans (((List.Perm.swap _ _ _).trans ?_).trans h₂.symm)
  rw [append_assoc]
  exact perm_middle.symm.cons _

lemma rbRotate_rep {n ch : Cell α} {a b c : BinTree (Cell α)}
    (h : Rep self (plug ctx (fork d n a (fork d ch b c)))) :
    ∃ self', rbRotate d self n.id = some self' ∧ SameMeta self self' ∧
      Rep self' (plug ctx (fork d ch (fork d n a b) c)) := by
  have hperm := (ids_rotated_perm d n ch a b c).append_right (ctxIds ctx)
  have hnd := hperm.nodup_iff.mpr h.nodup_plug
  have hlt : ∀ i ∈ ids (fork d ch (fork d n a b) c) ++ ctxIds ctx, i < self.fresh :=
    fun i hi => h.lt_fresh i ((ids_plug_perm ctx _).mem_iff.mpr (hperm.mem_iff.mp hi))
  have hflat : (ch.id :: n.id :: (ids a ++ (ids b ++ (ids c ++ ctxIds ctx)))).Nodup := by
    refine (List.Perm.nodup_iff ?_).mp hnd
    refine ((ids_fork_perm d ch _ c).append_right _).trans ?_
    refine ((((ids_fork_perm d n a b).append_right _).append_right _).cons _).trans ?_
    simp
  obtain ⟨hctx, hn, ha, hch, hb, hc⟩ : OwnsCtx self.node (some n.id) ctx ∧
      self.node n.id = mkNode n (topId ctx) d (rootId a) (some ch.id) ∧
      Owns self.node (some n.id) a ∧
      self.node ch.id = mkNode ch (some n.id) d (rootId b) (rootId c) ∧
      Owns self.node (some ch.id) b ∧ Owns self.node (some ch.id) c := by
    simpa using owns_plug.mp h.owns
  simp only [nodup_cons, nodup_append, mem_cons, mem_append, not_or] at hflat
  obtain ⟨⟨hchn, hcha, hchb, hchc, hchx⟩, ⟨hna, hnb, hnc, hnx⟩, hda, ⟨hdb, ⟨hdc, hdx, hcx⟩, hbx⟩, hax⟩ :=
    hflat
  have hbroot : ∀ i, rootId b = some i → i ∈ ids b := fun i => mem_ids_of_rootId
  have hnx' := relink_node_of_notMem self (some ch.id) hnx
  have hchx' := relink_node_of_notMem self (some ch.id) hchx
  -- the states after the changes of `child`, `node` and the inner subtree
  set s₁ := self.relink ctx (some ch.id) with hs₁
  set s₂ := s₁.setParent ch.id (topId ctx) with hs₂
  set s₃ := s₂.setChild n.id d.flip (rootId b) with hs₃
  set s₄ := s₃.setParentAt (rootId b) (some n.id) with hs₄
  have hmeta₃ : SameMeta self s₃ := (sameMeta_relink self ctx (some ch.id)).trans ⟨rfl, rfl, rfl⟩
  have hmeta : SameMeta self ((s₄.setParent n.id (some ch.id)).setChild ch.id d (some n.id)) :=
    (hmeta₃.trans (sameMeta_setParentAt s₃ _ _)).trans ⟨rfl, rfl, rfl⟩
  refine ⟨(s₄.setParent n.id (some ch.id)).setChild ch.id d (some n.id), ?_, hmeta, ?_⟩
  · have h₂ : s₂.node ch.id = mkNode ch (topId ctx) d (rootId b) (rootId c) := by
      rw [setParent_node, if_pos rfl, hchx', hch, mkNode_setParent]
    have h₃ : (s₃.node n.id).child d.flip = rootId b := by
      rw [setChild_node, if_pos rfl, setParent_node, if_neg (Ne.symm hchn), hnx', hn, mkNode_setChild_flip,
        mkNode_child_flip]
    simp only [rbRotate, hn, mkNode_child_flip, mkNode_parent, Option.bind_eq_bind, Option.bind_some,
      linkParent_eq hctx hnx, ← hs₁, hnx', ← hs₂, h₂, mkNode_child, ← hs₃, h₃]
    rfl
  · have hnb' : rootId b ≠ some n.id := fun hi => hnb (hbroot _ hi)
    have hchb' : rootId b ≠ some ch.id := fun hi => hchb (hbroot _ hi)
    have hnode : ∀ i, ((s₄.setParent n.id (some ch.id)).setChild ch.id d (some n.id)).node i =
        if i = ch.id then mkNode ch (topId ctx) d (some n.id) (rootId c)
        else if i = n.id then mkNode n (some ch.id) d (rootId a) (rootId b)
        else if rootId b = some i then { s₁.node i with parent := some n.id } else s₁.node i := by
      intro i
      rw [setChild_node, setParent_node, setParent_node, setParentAt_node, setParentAt_node, setParentAt_node]
      by_cases hich : i = ch.id
      · cases d <;> simp [hich, hchn, hchb', hs₃, setChild_node, hs₂, setParent_node, hchx', hch, mkNode,
          RbNode.setChild]
      by_cases hin : i = n.id
      · cases d <;> simp [hin, Ne.symm hchn, hnb', hs₃, setChild_node, hs₂, setParent_node, hnx', hn, mkNode, RbNode.setChild,
          Side.flip]
      · simp [hich, hin, hs₃, setChild_node, hs₂, setParent_node]
    have hroot : ((s₄.setParent n.id (some ch.id)).setChild ch.id d (some n.id)).root =
        rootId (plug ctx (fork d ch (fork d n a b) c)) := by
      have hr := rootId_plug_relink h.root_eq (fork d ch (fork d n a b) c)
      rw [rootId_fork] at hr
      rwa [setChild_root, setParent_root, setParentAt_root]
    generalize (s₄.setParent n.id (some ch.id)).setChild ch.id d (some n.id) = s₆ at *
    have hsame : ∀ i, i ≠ n.id → i ≠ ch.id → rootId b ≠ some i → i ∉ ctxIds ctx → s₆.node i = self.node i := by
      intro i hin hich hib hx
      rw [hnode, if_neg hich, if_neg hin, if_neg hib, relink_node_of_notMem self _ hx]
    have houter : ∀ i ∈ ids a ++ ids c, s₆.node i = self.node i := by
      intro i hi
      refine hsame i ?_ ?_ ?_ ?_ <;> grind
    have hinner : ∀ i ∈ ids b, i ≠ n.id ∧ i ≠ ch.id ∧ i ∉ ctxIds ctx := by grind
    refine Rep.of_parts hroot ?_ ?_ hnd fun i hi => hmeta.fresh ▸ hlt i hi
    · rw [rootId_fork]
      refine hctx.of_relink hdx fun i hi => ?_
      rw [hnode, if_neg (by grind), if_neg (by grind), if_neg (by grind)]
    · refine owns_fork.mpr ⟨?_, owns_fork.mpr ⟨?_, ha.congr fun i hi => houter i (mem_append_left _ hi), ?_⟩,
        hc.congr fun i hi => houter i (mem_append_right _ hi)⟩
      · rw [hnode, if_pos rfl, rootId_fork]
      · rw [hnode, if_neg (Ne.symm hchn), if_pos rfl]
      · refine hb.setParent hdb (fun i hi => ?_) fun i hi hib => ?_
        · obtain ⟨hn, hch, hx⟩ := hinner i (hbroot i hi)
          rw [hnode, if_neg hch, if_neg hn, if_pos hi, relink_node_of_notMem self _ hx]
        · obtain ⟨hn, hch, hx⟩ := hinner i hi
          exact hsame i hn hch hib hx

end Rep

end Telephony.Ao2
