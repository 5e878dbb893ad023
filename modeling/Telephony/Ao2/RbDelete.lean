import Telephony.Ao2.RbInsert

/-!
# Deleting from the red-black container

A node with one child at most is taken out with the child in its place, and the fixup before or
after that keeps the tree balanced. A node with two children is first exchanged with the next one.
-/

namespace Telephony.Ao2

open Lib Lib.BinTree List Function

section Delete

variable {α : Type}

/-! ## Taking out a node with one child -/

/-- A node `v` with the child `t` on side `d` at the end of the path `ctx`. The parent link of the
child may be out of date.
Source: `rb_delete_node` ("We don't have to") -/
structure Hooked (c : RbTree α) (ctx : List (TreeFrame (Cell α))) (d : Side) (v : Cell α)
    (t : BinTree (Cell α)) : Prop where
  root_eq : c.root = rootId (plug ctx (fork d v t nil))
  owns_ctx : OwnsCtx c.node (some v.id) ctx
  node_eq : c.node v.id = mkNode v (topId ctx) d (rootId t) none
  owns_child : ∃ q, Owns c.node q t
  nodup : (v.id :: (ids t ++ ctxIds ctx)).Nodup
  lt_fresh : ∀ i ∈ v.id :: (ids t ++ ctxIds ctx), i < c.fresh

variable {self : RbTree α} {ctx inner : List (TreeFrame (Cell α))} {d e : Side} {v w : Cell α}
  {t l b r : BinTree (Cell α)} {i j m n k : ℕ} {c : Option ℕ}

lemma Rep.hooked (h : Rep self (plug ctx (fork d v t nil))) : Hooked self ctx d v t := by
  have hperm : (ids (fork d v t nil) ++ ctxIds ctx).Perm (v.id :: (ids t ++ ctxIds ctx)) := by
    refine ((ids_fork_perm d v t nil).append_right _).trans ?_
    simp [ids]
  obtain ⟨hctx, hv, ht⟩ : OwnsCtx self.node (some v.id) ctx ∧
      self.node v.id = mkNode v (topId ctx) d (rootId t) none ∧ Owns self.node (some v.id) t := by
    simpa using owns_plug.mp h.owns
  refine ⟨h.root_eq, hctx, hv, ⟨_, ht⟩, hperm.nodup_iff.mp h.nodup_plug, fun i hi => h.lt_fresh i ?_⟩
  exact (ids_plug_perm ctx _).mem_iff.mpr (hperm.mem_iff.mpr hi)

lemma Hooked.rep_leaf (h : Hooked self ctx d v nil) : Rep self (plug ctx (fork d v nil nil)) := by
  have hids : ids (fork d v nil nil) = [v.id] := by cases d <;> rfl
  refine Rep.of_parts h.root_eq ?_ (owns_fork.mpr ⟨h.node_eq, trivial, trivial⟩) ?_ ?_
  · rw [rootId_fork]
    exact h.owns_ctx
  · rw [hids]
    exact h.nodup
  · rw [hids]
    exact h.lt_fresh

lemma Hooked.relink (h : Hooked self ctx d v t) :
    Rep ((self.relink ctx (rootId t)).setParentAt (rootId t) (topId ctx)) (plug ctx t) := by
  have hnd := (nodup_cons.mp h.nodup).2
  obtain ⟨hndt, hndx, hdisj⟩ := nodup_append.mp hnd
  obtain ⟨q, ht⟩ := h.owns_child
  refine Rep.of_parts ?_ ?_ ?_ hnd fun i hi => ?_
  · rw [setParentAt_root]
    exact rootId_plug_relink h.root_eq t
  · refine h.owns_ctx.of_relink hndx fun i hi => ?_
    rw [setParentAt_node, if_neg]
    exact fun hroot => hdisj i (mem_ids_of_rootId hroot) i hi rfl
  · have hout : ∀ i ∈ ids t, (self.relink ctx (rootId t)).node i = self.node i := fun i hi =>
      relink_node_of_notMem self _ fun hx => hdisj i hi i hx rfl
    refine ht.setParent hndt (fun i hi => ?_) fun i hi hne => ?_
    · rw [setParentAt_node, if_pos hi, hout i (mem_ids_of_rootId hi)]
    · rw [setParentAt_node, if_neg hne, hout i hi]
  · have hfr : ((self.relink ctx (rootId t)).setParentAt (rootId t) (topId ctx)).fresh = self.fresh :=
      ((sameMeta_relink self ctx _).trans (sameMeta_setParentAt _ _ _)).fresh
    rw [hfr]
    exact h.lt_fresh i (mem_cons_of_mem _ hi)

/-- The tree after a deletion is represented and balanced, and has the nodes of `l`. -/
structure Deleted (c : RbTree α) (l : List (ℕ × Option α)) (c' : RbTree α) (t' : BinTree (Cell α)) :
    Prop where
  sameMeta : SameMeta c c'
  rep : Rep c' t'
  balanced : ∃ m, Balanced Cell.red t' false m
  listing_eq : listing t' = l

lemma listing_ids_perm (t : BinTree (Cell α)) : ((listing t).map Prod.fst).Perm (ids t) := by
  induction t with
  | nil => exact List.Perm.refl _
  | node v l r ihl ihr =>
    have hlist : listing (node v l r) = listing l ++ (v.id, v.obj) :: listing r := by simp [listing, inorder]
    rw [hlist, map_append]
    exact perm_middle.trans ((ihl.append ihr).cons _)

lemma listing_filter {o : Option α} {pre post : List (ℕ × Option α)} (hnd : (ids t).Nodup)
    (hlist : listing t = pre ++ (i, o) :: post) :
    (listing t).filter (fun e => e.1 ≠ i) = pre ++ post := by
  have hids := (listing_ids_perm t).nodup_iff.mpr hnd
  rw [hlist, map_append, map_cons, perm_middle.nodup_iff, nodup_cons, ← map_append] at hids
  have hkeep : ∀ e ∈ pre ++ post, decide (e.1 ≠ i) = true := by
    intro e he
    rw [decide_eq_true_eq]
    rintro rfl
    exact hids.1 (mem_map.mpr ⟨e, he, rfl⟩)
  rw [hlist, filter_append, filter_cons_of_neg (by simp), ← filter_append, List.filter_eq_self.mpr hkeep]

lemma listing_filter_fork (hnd : (ids (plug ctx (fork d v t nil))).Nodup) :
    (listing (plug ctx (fork d v t nil))).filter (fun e => e.1 ≠ v.id) = listing (plug ctx t) := by
  cases d with
  | left =>
    have hlist : listing (plug ctx (fork .left v t nil)) =
        ((ctxBefore .right ctx ++ inorder .right t).map fun c => (c.id, c.obj)) ++ (v.id, v.obj) ::
          (ctxAfter .right ctx).map fun c => (c.id, c.obj) := by
      simp [listing, inorder_plug, fork, inorder]
    rw [listing_filter hnd hlist]
    simp [listing, inorder_plug]
  | right =>
    have hlist : listing (plug ctx (fork .right v t nil)) =
        ((ctxBefore .right ctx).map fun c => (c.id, c.obj)) ++ (v.id, v.obj) ::
          (inorder .right t ++ ctxAfter .right ctx).map fun c => (c.id, c.obj) := by
      simp [listing, inorder_plug]
    rw [listing_filter hnd hlist]
    simp [listing, inorder_plug]

lemma rbUnhook_leaf (h : Rep self (plug ctx (fork d v nil nil))) (hdest : self.destroying = false)
    (hv : v.red = false) (hctx : CtxBalanced Cell.red ctx 1) :
    ∃ self' t', rbUnhook self v.id none = some self' ∧ Deleted self (listing (plug ctx nil)) self' t' := by
  obtain ⟨self₁, ctx', m, hfixup, hfix, hbal⟩ := rbDeleteFixup_spec h hv hctx
  have hooked := hfix.rep.hooked
  have hnode : (self.node v.id).isRed = false := by rw [h.node_eq, mkNode_isRed, hv]
  have hpar : (self₁.node v.id).parent = topId ctx' := by rw [hooked.node_eq, mkNode_parent]
  refine ⟨self₁.relink ctx' none, plug ctx' nil, ?_, hfix.sameMeta.trans (sameMeta_relink _ _ _),
    hooked.relink, ⟨m, hbal⟩, ?_⟩
  · have hlink := linkParent_eq hooked.owns_ctx
      (fun hx => (nodup_cons.mp hooked.nodup).1 (mem_append_right _ hx)) .left none
    simp [rbUnhook, hnode, hdest, hfixup, hpar, hlink]
  · rw [← listing_filter_fork hfix.rep.nodup, hfix.listing_eq, listing_filter_fork h.nodup]

lemma rbUnhook_spec {c : Bool} (h : Hooked self ctx d v t) (hdest : self.destroying = false)
    (hbal : Balanced Cell.red (fork d v t nil) c n) (hctx : CtxBalanced Cell.red ctx n)
    (htop : c = true → TopBlack Cell.red ctx) :
    ∃ self' t', rbUnhook self v.id (rootId t) = some self' ∧ Deleted self (listing (plug ctx t)) self' t' := by
  have hnode : (self.node v.id).isRed = v.red := by rw [h.node_eq, mkNode_isRed]
  have hpar : (self.node v.id).parent = topId ctx := by rw [h.node_eq, mkNode_parent]
  have hlink := linkParent_eq h.owns_ctx
    (fun hx => (nodup_cons.mp h.nodup).1 (mem_append_right _ hx)) .left (rootId t)
  have hrep := h.relink
  cases c with
  | true =>
    -- a red node with a missing child has none
    obtain ⟨hv, ht, hnil⟩ := hbal.red_inv
    cases hnil
    cases ht
    obtain ⟨m, hm⟩ := hctx.plug (show Balanced Cell.red nil false 0 from .nil) (by simp)
    refine ⟨self.relink ctx none, plug ctx nil, ?_, sameMeta_relink _ _ _, hrep, ⟨m, hm⟩, rfl⟩
    simp only [rootId_nil] at hlink
    simp [rbUnhook, hnode, hv, hpar, hlink]
  | false =>
    obtain ⟨hv, k, ct, c', rfl, ht, hnil⟩ := hbal.black_inv
    cases hnil
    cases t with
    | nil =>
      exact rbUnhook_leaf h.rep_leaf hdest hv hctx
    | node w l r =>
      -- the only child of a black node is red, and is painted black
      obtain rfl : ct = true := by
        cases ct with
        | true => rfl
        | false => cases ht
      have hw := ht.red_inv (d := .left)
      set self₁ := (self.relink ctx (some w.id)).setParent w.id (topId ctx) with hself₁
      have hrep₁ : Rep self₁ (plug ctx (fork .left w l r)) := hrep
      have hpar₁ : ((self.relink ctx (some w.id)).node v.id).parent = topId ctx := by
        rw [relink_node_of_notMem _ _ fun hx => (nodup_cons.mp h.nodup).1 (mem_append_right _ hx), hpar]
      have hred : (self₁.node w.id).isRed = true := by rw [hrep₁.node_eq, mkNode_isRed, hw.1]
      have hfixup : rbDeleteFixup self₁ w.id = some (self₁.setRed w.id false) := by
        have hstep : deleteFixupStep (self₁, w.id) = some (.inr (self₁, w.id)) := by
          rw [deleteFixupStep, if_pos (.inr hred)]
        simp [rbDeleteFixup, iterate_done hstep]
      obtain ⟨m, hm⟩ := hctx.plug (t := fork .left { w with red := false } l r)
        (.fork_black rfl hw.2.1 hw.2.2) (by simp)
      refine ⟨self₁.setRed w.id false, plug ctx (fork .left { w with red := false } l r), ?_,
        (sameMeta_relink self ctx (some w.id)).trans ⟨rfl, rfl, rfl⟩, hrep₁.setRed false, ⟨m, hm⟩, ?_⟩
      · simp only [rootId_node] at hlink
        simp [rbUnhook, hnode, hv, hdest, hpar, hlink, hpar₁, ← hself₁, hfixup]
      · refine listing_plug_congr ctx ?_
        simp [listing, fork, inorder]

/-! ## Exchanging a node with the next one -/

def segTop (c : Option ℕ) : List (TreeFrame (Cell α)) → Option ℕ
  | [] => c
  | f :: inner => segTop (some f.v.id) inner

lemma rootId_plug (inner : List (TreeFrame (Cell α))) (t : BinTree (Cell α)) :
    rootId (plug inner t) = segTop (rootId t) inner := by
  induction inner generalizing t with
  | nil => rfl
  | cons f inner ih => rw [plug_cons, ih, rootId_fork, segTop]

lemma segTop_mem (inner : List (TreeFrame (Cell α))) (h : segTop (some i) inner = some j) :
    j = i ∨ j ∈ ctxIds inner := by
  induction inner generalizing i with
  | nil => exact .inl (by simpa [segTop] using h.symm)
  | cons f inner ih =>
    rcases ih h with rfl | hmem
    · exact .inr (by simp [ctxIds])
    · exact .inr (by simp [ctxIds, hmem])

lemma exists_segTop (i : ℕ) (inner : List (TreeFrame (Cell α))) : ∃ j, segTop (some i) inner = some j := by
  induction inner generalizing i with
  | nil => exact ⟨i, rfl⟩
  | cons f inner ih => exact ih f.v.id

lemma segTop_cons_mem {f : TreeFrame (Cell α)} (h : segTop c (f :: inner) = some j) : j ∈ ctxIds (f :: inner) := by
  rcases segTop_mem inner h with rfl | hmem
  · simp [ctxIds]
  · simp [ctxIds, hmem]

lemma ctxIds_append (inner ctx : List (TreeFrame (Cell α))) : ctxIds (inner ++ ctx) = ctxIds inner ++ ctxIds ctx := by
  induction inner with
  | nil => rfl
  | cons f inner ih => simp [ctxIds, ih]

/-- A node at the top of a path is replaced by another one, to which the top of the path below
points. Induction on the path below. -/
lemma OwnsCtx.exchange {mem mem' : ℕ → RbNode α} (inner : List (TreeFrame (Cell α)))
    (h : OwnsCtx mem c (inner ++ ⟨e, v, l⟩ :: ctx)) (hnd : (ctxIds inner).Nodup)
    (hin : ∀ j ∈ ctxIds inner, mem' j = if segTop c inner = some j then { mem j with parent := some w.id } else mem j)
    (hw : ∀ k, mem v.id = mkNode v (topId ctx) e k (rootId l) → mem' w.id = mkNode w (topId ctx) e k (rootId l))
    (hl : Owns mem' (some w.id) l) (hctx : OwnsCtx mem' (some w.id) ctx) :
    OwnsCtx mem' c (inner ++ ⟨e, w, l⟩ :: ctx) := by
  induction inner generalizing c with
  | nil => exact ⟨hw c h.1, hl, hctx⟩
  | cons f inner ih =>
    obtain ⟨hf, hsib, hrest⟩ := h
    simp only [ctxIds, nodup_cons, mem_append, not_or, nodup_append] at hnd
    obtain ⟨⟨hfsib, hfin⟩, -, hndin, hdisj⟩ := hnd
    refine ⟨?_, hsib.congr fun j hj => ?_, ih hrest hndin fun j hj => hin j (by simp [ctxIds, hj])⟩
    · rw [hin f.v.id (by simp [ctxIds]), hf]
      cases inner with
      | nil => exact (if_pos rfl).trans (mkNode_setParent _ _ _ _ _ _)
      | cons g inner =>
        rw [if_neg]
        · rfl
        · intro htop
          exact hfin (segTop_cons_mem (show segTop (some f.v.id) (g :: inner) = some f.v.id from htop))
    · rw [hin j (by simp [ctxIds, hj]), if_neg]
      intro htop
      rcases segTop_mem inner htop with rfl | hmem
      · exact hfsib hj
      · exact hdisj j hj j hmem rfl

/-- A node `v` with two children, of which the left one is `i`, and the next node `w` at the end of
the left side of its right subtree.
Source: `rb_delete_node` ("Find the next child") -/
structure NextSwap (c : RbTree α) (ctx inner : List (TreeFrame (Cell α))) (v w : Cell α)
    (l b : BinTree (Cell α)) (i : ℕ) : Prop where
  root_eq : c.root = rootId (plug ctx (fork .left v l (plug inner (fork .left w nil b))))
  left_eq : rootId l = some i
  path : OwnsCtx c.node (some w.id) (inner ++ ⟨.right, v, l⟩ :: ctx)
  w_node : c.node w.id = mkNode w (topId (inner ++ ⟨.right, v, l⟩ :: ctx)) .left none (rootId b)
  v_node : c.node v.id = mkNode v (topId ctx) .left (rootId l) (segTop (some w.id) inner)
  owns_ctx : OwnsCtx c.node (some v.id) ctx
  owns_left : Owns c.node (some v.id) l
  owns_right : Owns c.node (some w.id) b
  nodup : (w.id :: (ids b ++ (ctxIds inner ++ v.id :: (ids l ++ ctxIds ctx)))).Nodup
  lt_fresh : ∀ j ∈ w.id :: (ids b ++ (ctxIds inner ++ v.id :: (ids l ++ ctxIds ctx))), j < c.fresh

lemma Rep.nextSwap (h : Rep self (plug ctx (fork .left v l (plug inner (fork .left w nil b)))))
    (hl : rootId l = some i) : NextSwap self ctx inner v w l b i := by
  have hw : Rep self (plug (inner ++ ⟨.right, v, l⟩ :: ctx) (fork .left w nil b)) := by
    rwa [plug_append]
  have hperm : (ids (fork .left w nil b) ++ ctxIds (inner ++ ⟨.right, v, l⟩ :: ctx)).Perm
      (w.id :: (ids b ++ (ctxIds inner ++ v.id :: (ids l ++ ctxIds ctx)))) := by
    simp [fork, ids, ctxIds_append, ctxIds]
  obtain ⟨hpath, hwnode, hb⟩ : OwnsCtx self.node (some w.id) (inner ++ ⟨.right, v, l⟩ :: ctx) ∧
      self.node w.id = mkNode w (topId (inner ++ ⟨.right, v, l⟩ :: ctx)) .left none (rootId b) ∧
      Owns self.node (some w.id) b := by
    simpa using owns_plug.mp hw.owns
  obtain ⟨hctx, hvnode, hlo, -⟩ : OwnsCtx self.node (some v.id) ctx ∧
      self.node v.id = mkNode v (topId ctx) .left (rootId l) (segTop (some w.id) inner) ∧
      Owns self.node (some v.id) l ∧ Owns self.node (some v.id) (plug inner (fork .left w nil b)) := by
    simpa [rootId_plug] using owns_plug.mp h.owns
  exact ⟨h.root_eq, hl, hpath, hwnode, hvnode, hctx, hlo, hb, hperm.nodup_iff.mp hw.nodup_plug,
    fun j hj => hw.lt_fresh j ((ids_plug_perm _ _).mem_iff.mpr (hperm.mem_iff.mpr hj))⟩

def innerTop (w : Cell α) (inner : List (TreeFrame (Cell α))) : Option ℕ :=
  if inner = [] then none else segTop (some w.id) inner

/-- The tree when the two nodes are exchanged, and the neighbours of `v` point to `w`.
Source: `rb_delete_node` ("Link back in the") -/
def swapRelinked (self : RbTree α) (ctx inner : List (TreeFrame (Cell α))) (v w : Cell α) (i : ℕ) : RbTree α :=
  (((self.swapLinks v.id w.id).relink ctx (some w.id)).setParent i (some w.id)).setParentAt
    (innerTop w inner) (some w.id)

lemma innerTop_mem (h : innerTop w inner = some j) : j ∈ ctxIds inner := by
  cases inner with
  | nil => simp [innerTop] at h
  | cons g inner => exact segTop_cons_mem (by simpa [innerTop] using h)

lemma swapLinks_node_of_ne (self : RbTree α) (hi : j ≠ i) (hk : j ≠ k) : (self.swapLinks i k).node j = self.node j := by
  simp [RbTree.swapLinks, RbTree.modify, update_of_ne hk, update_of_ne hi]

lemma sameMeta_swapRelinked (self : RbTree α) (ctx inner : List (TreeFrame (Cell α))) (v w : Cell α)
    (i : ℕ) : SameMeta self (swapRelinked self ctx inner v w i) := by
  have hswap : SameMeta self (self.swapLinks v.id w.id) := ⟨rfl, rfl, rfl⟩
  exact ((hswap.trans (sameMeta_relink _ ctx (some w.id))).trans (sameMeta_modify _ _ _)).trans
    (sameMeta_setParentAt _ _ _)

section NextSwap

variable {self s : RbTree α} {ctx inner : List (TreeFrame (Cell α))} {v w : Cell α}
  {l b : BinTree (Cell α)} {i : ℕ}

lemma swapRelinked_node {j : ℕ} (hctx : j ∉ ctxIds ctx) (hi : j ≠ i) (hinn : j ∉ ctxIds inner) :
    (swapRelinked self ctx inner v w i).node j = (self.swapLinks v.id w.id).node j := by
  rw [swapRelinked, setParentAt_node, if_neg fun h => hinn (innerTop_mem h), setParent_node, if_neg hi,
    relink_node_of_notMem _ _ hctx]

namespace NextSwap

lemma ids_perm (ctx inner : List (TreeFrame (Cell α))) (v w : Cell α) (l b : BinTree (Cell α)) :
    (v.id :: (ids b ++ ctxIds (inner ++ ⟨.right, { w with red := v.red }, l⟩ :: ctx))).Perm
      (w.id :: (ids b ++ (ctxIds inner ++ v.id :: (ids l ++ ctxIds ctx)))) := by
  rw [ctxIds_append, ← append_assoc, ← append_assoc]
  exact (perm_middle.cons _).trans ((List.Perm.swap _ _ _).trans (perm_middle.symm.cons _))

variable (h : NextSwap self ctx inner v w l b i)

include h

lemma of_mem_ctx {j : ℕ} (hj : j ∈ ctxIds ctx) : j ≠ v.id ∧ j ≠ w.id ∧ j ∉ ids l ∧ j ∉ ctxIds inner := by
  have hnd := h.nodup
  grind

lemma of_mem_left {j : ℕ} (hj : j ∈ ids l) : j ≠ v.id ∧ j ≠ w.id ∧ j ∉ ctxIds inner ∧ j ∉ ctxIds ctx := by
  have hnd := h.nodup
  grind

lemma of_mem_inner {j : ℕ} (hj : j ∈ ctxIds inner) : j ≠ v.id ∧ j ≠ w.id ∧ j ∉ ids l ∧ j ∉ ctxIds ctx := by
  have hnd := h.nodup
  grind

lemma of_mem_right {j : ℕ} (hj : j ∈ ids b) : j ≠ v.id ∧ j ≠ w.id ∧ j ∉ ids l ∧ j ∉ ctxIds inner ∧ j ∉ ctxIds ctx := by
  have hnd := h.nodup
  grind

lemma apart : w.id ≠ v.id ∧ (ids l).Nodup ∧ (ctxIds inner).Nodup ∧ (ctxIds ctx).Nodup := by
  have hnd := h.nodup
  grind

lemma left_mem : i ∈ ids l :=
  mem_ids_of_rootId h.left_eq

lemma swapLinks_w :
    (self.swapLinks v.id w.id).node w.id =
      mkNode { w with red := v.red } (topId ctx) .left (rootId l) (segTop (some w.id) inner) := by
  simp only [RbTree.swapLinks, RbTree.modify, update_self]
  rw [h.v_node, h.w_node]
  rfl

lemma swapLinks_v :
    (self.swapLinks v.id w.id).node v.id =
      mkNode { v with red := w.red } (topId (inner ++ ⟨.right, v, l⟩ :: ctx)) .left none (rootId b) := by
  simp only [RbTree.swapLinks, RbTree.modify, update_of_ne h.apart.1.symm, update_self]
  rw [h.v_node, h.w_node]
  rfl

lemma swapRelinked_w : (swapRelinked self ctx inner v w i).node w.id = (self.swapLinks v.id w.id).node w.id :=
  swapRelinked_node (fun hx => (h.of_mem_ctx hx).2.1 rfl) (h.of_mem_left h.left_mem).2.1.symm
    fun hin => (h.of_mem_inner hin).2.1 rfl

lemma owns_ctx_swapLinks : OwnsCtx (self.swapLinks v.id w.id).node (some v.id) ctx := by
  refine h.owns_ctx.congr fun j hj => ?_
  obtain ⟨hjv, hjw, -⟩ := h.of_mem_ctx hj
  exact swapLinks_node_of_ne self hjv hjw

lemma owns_left_swapRelinked : Owns (swapRelinked self ctx inner v w i).node (some w.id) l := by
  refine h.owns_left.setParent h.apart.2.1 (fun j hj => ?_) fun j hj hne => ?_
  · obtain rfl : i = j := by simpa [h.left_eq] using hj
    obtain ⟨hiv, hiw, hin, hix⟩ := h.of_mem_left h.left_mem
    rw [swapRelinked, setParentAt_node, if_neg fun htop => hin (innerTop_mem htop), setParent_node,
      if_pos rfl, relink_node_of_notMem _ _ hix, swapLinks_node_of_ne self hiv hiw]
  · have hji : j ≠ i := by
      rintro rfl
      exact hne h.left_eq
    obtain ⟨hjv, hjw, hjn, hjx⟩ := h.of_mem_left hj
    rw [swapRelinked_node hjx hji hjn, swapLinks_node_of_ne self hjv hjw]

lemma path_swapRelinked :
    OwnsCtx (swapRelinked self ctx inner v w i).node (some w.id)
      (inner ++ ⟨.right, { w with red := v.red }, l⟩ :: ctx) := by
  obtain ⟨-, -, hndin, hndx⟩ := h.apart
  refine h.path.exchange inner hndin (fun j hj => ?_) (fun k hk => ?_) h.owns_left_swapRelinked ?_
  · obtain ⟨hjv, hjw, hjl, hjx⟩ := h.of_mem_inner hj
    have hji : j ≠ i := fun heq => hjl (heq ▸ h.left_mem)
    have hne : inner ≠ [] := by
      rintro rfl
      simp [ctxIds] at hj
    rw [swapRelinked, setParentAt_node, setParent_node, if_neg hji, relink_node_of_notMem _ _ hjx,
      swapLinks_node_of_ne self hjv hjw, innerTop, if_neg hne]
  · have hkey : segTop (some w.id) inner = k := by
      rw [h.v_node] at hk
      exact congrArg RbNode.right hk
    rw [h.swapRelinked_w, h.swapLinks_w, hkey]
    rfl
  · refine h.owns_ctx_swapLinks.of_relink hndx fun j hj => ?_
    obtain ⟨-, -, hjl, hjn⟩ := h.of_mem_ctx hj
    have hji : j ≠ i := fun heq => hjl (heq ▸ h.left_mem)
    rw [swapRelinked, setParentAt_node, if_neg fun htop => hjn (innerTop_mem htop), setParent_node, if_neg hji]

lemma swapRelinked_v :
    (swapRelinked self ctx inner v w i).node v.id =
      mkNode { v with red := w.red } (topId (inner ++ ⟨.right, v, l⟩ :: ctx)) .left none (rootId b) := by
  rw [swapRelinked_node (fun hx => (h.of_mem_ctx hx).1 rfl) (h.of_mem_left h.left_mem).1.symm
    fun hin => (h.of_mem_inner hin).1 rfl, h.swapLinks_v]

lemma swapRelinked_right {j : ℕ} (hj : j ∈ ids b) : (swapRelinked self ctx inner v w i).node j = self.node j := by
  obtain ⟨hjv, hjw, hjl, hjn, hjx⟩ := h.of_mem_right hj
  rw [swapRelinked_node hjx (fun heq => hjl (heq ▸ h.left_mem)) hjn, swapLinks_node_of_ne self hjv hjw]

lemma hooked (hmeta : SameMeta (swapRelinked self ctx inner v w i) s)
    (hroot : s.root = (swapRelinked self ctx inner v w i).root)
    (hnodes : ∀ j ∈ ctxIds (inner ++ ⟨.right, { w with red := v.red }, l⟩ :: ctx), s.node j =
      ((swapRelinked self ctx inner v w i).relink
        (inner ++ ⟨.right, { w with red := v.red }, l⟩ :: ctx) (some v.id)).node j)
    (hv : s.node v.id = mkNode { v with red := w.red }
      (topId (inner ++ ⟨.right, { w with red := v.red }, l⟩ :: ctx)) .right (rootId b) none)
    (hb : ∀ j ∈ ids b, s.node j = self.node j) :
    Hooked s (inner ++ ⟨.right, { w with red := v.red }, l⟩ :: ctx) .right { v with red := w.red } b := by
  have hperm := ids_perm ctx inner v w l b
  have hnd := hperm.nodup_iff.mpr h.nodup
  have hroot' : (swapRelinked self ctx inner v w i).root =
      rootId (plug (inner ++ ⟨.right, { w with red := v.red }, l⟩ :: ctx)
        (fork .right { v with red := w.red } b nil)) := by
    rw [swapRelinked, setParentAt_root, plug_append]
    exact rootId_plug_relink (show (self.swapLinks v.id w.id).root = _ from h.root_eq)
      (fork .right { w with red := v.red } _ l)
  refine ⟨hroot.trans hroot', ?_, hv, ⟨some w.id, h.owns_right.congr hb⟩, hnd, fun j hj => ?_⟩
  · exact h.path_swapRelinked.of_relink (nodup_append.mp (nodup_cons.mp hnd).2).2.1 hnodes
  · rw [hmeta.fresh, (sameMeta_swapRelinked self ctx inner v w i).fresh]
    exact h.lt_fresh j (hperm.mem_iff.mp hj)

end NextSwap

end NextSwap

lemma rbSwapNext_spec (h : Rep self (plug ctx (fork .left v l (plug inner (fork .left w nil b)))))
    (hl : rootId l = some i) (hinn : ∀ f ∈ inner, f.side = .left) :
    ∃ self', rbSwapNext self v.id w.id = some self' ∧ SameMeta self self' ∧
      Hooked self' (inner ++ ⟨.right, { w with red := v.red }, l⟩ :: ctx) .right
        { v with red := w.red } b := by
  have hs := h.nextSwap hl
  have hmeta := sameMeta_swapRelinked self ctx inner v w i
  -- what the code reads between the changes
  have hlink := linkParent_eq hs.owns_ctx_swapLinks (fun hx => (hs.of_mem_ctx hx).1 rfl) .left (some w.id)
  have hparw : ((self.swapLinks v.id w.id).node w.id).parent = topId ctx := by
    rw [hs.swapLinks_w, mkNode_parent]
  have hw₂ : ((self.swapLinks v.id w.id).relink ctx (some w.id)).node w.id =
      (self.swapLinks v.id w.id).node w.id := relink_node_of_notMem _ _ fun hx => (hs.of_mem_ctx hx).2.1 rfl
  have hleft : (((self.swapLinks v.id w.id).relink ctx (some w.id)).node w.id).left = some i := by
    rw [hw₂, hs.swapLinks_w, ← hl]
    rfl
  have hrt : ((((self.swapLinks v.id w.id).relink ctx (some w.id)).setParent i (some w.id)).node
      w.id).right = segTop (some w.id) inner := by
    rw [setParent_node, if_neg (hs.of_mem_left hs.left_mem).2.1.symm, hw₂, hs.swapLinks_w]
    rfl
  cases inner with
  | nil =>
    have hrlk : swapRelinked self ctx [] v w i =
        ((self.swapLinks v.id w.id).relink ctx (some w.id)).setParent i (some w.id) := by
      simp [swapRelinked, innerTop, RbTree.setParentAt]
    refine ⟨((swapRelinked self ctx [] v w i).setChild w.id .right (some v.id)).setParent v.id (some w.id),
      ?_, hmeta.trans ⟨rfl, rfl, rfl⟩, hs.hooked ⟨rfl, rfl, rfl⟩ rfl ?_ ?_ ?_⟩
    · simp only [segTop] at hrt
      simp [rbSwapNext, hparw, hlink, hleft, hrt, hrlk]
    · intro j hj
      have hnd := (NextSwap.ids_perm ctx [] v w l b).nodup_iff.mpr hs.nodup
      rw [setParent_node, if_neg]
      · rfl
      · rintro rfl
        exact (nodup_cons.mp hnd).1 (mem_append_right _ hj)
    · rw [setParent_node, if_pos rfl, setChild_node, if_neg hs.apart.1.symm, hs.swapRelinked_v]
      rfl
    · intro j hj
      obtain ⟨hjv, hjw, -⟩ := hs.of_mem_right hj
      rw [setParent_node, if_neg hjv, setChild_node, if_neg hjw, hs.swapRelinked_right hj]
  | cons g inner =>
    have hg : g.side = .left := hinn g (by simp)
    obtain ⟨r, hr⟩ := exists_segTop w.id (g :: inner)
    have hrlk : swapRelinked self ctx (g :: inner) v w i =
        (((self.swapLinks v.id w.id).relink ctx (some w.id)).setParent i (some w.id)).setParent r (some w.id) := by
      simp [swapRelinked, innerTop, hr, RbTree.setParentAt]
    refine ⟨(swapRelinked self ctx (g :: inner) v w i).setChild g.v.id .left (some v.id), ?_,
      hmeta.trans ⟨rfl, rfl, rfl⟩, hs.hooked ⟨rfl, rfl, rfl⟩ rfl ?_ ?_ ?_⟩
    · have hrw : r ≠ w.id := (hs.of_mem_inner (segTop_cons_mem hr)).2.1
      have hparv : (((((self.swapLinks v.id w.id).relink ctx (some w.id)).setParent i (some w.id)).setParent
          r (some w.id)).node v.id).parent = some g.v.id := by
        rw [← hrlk, hs.swapRelinked_v]
        rfl
      rw [hr] at hrt
      simp [rbSwapNext, hparw, hlink, hleft, hrt, hrw, hparv, hrlk]
    · intro j hj
      rw [cons_append, RbTree.relink, hg]
    · rw [setChild_node, if_neg (hs.of_mem_inner (by simp [ctxIds])).1.symm, hs.swapRelinked_v]
      rfl
    · intro j hj
      have hjg : j ≠ g.v.id := fun heq => (hs.of_mem_right hj).2.2.2.1 (by simp [ctxIds, heq])
      rw [setChild_node, if_neg hjg, hs.swapRelinked_right hj]

/-! ## Deleting a node -/

lemma unhook_of_rep (h : Rep self (plug ctx (fork d v t nil)))
    (hbal : Balanced Cell.red (plug ctx (fork d v t nil)) false m) (hdest : self.destroying = false) :
    ∃ self' t', rbUnhook self v.id (rootId t) = some self' ∧
      Deleted self ((listing (plug ctx (fork d v t nil))).filter fun e => e.1 ≠ v.id) self' t' := by
  obtain ⟨c, n, hv, hctx, htop⟩ := balanced_plug hbal
  rw [listing_filter_fork h.nodup]
  exact rbUnhook_spec h.hooked hdest hv hctx htop

lemma rbDeleteNode_spec (h : Rep self (plug ctx (fork .left v l r)))
    (hbal : Balanced Cell.red (plug ctx (fork .left v l r)) false m) (hdest : self.destroying = false) :
    ∃ self' t', rbDeleteNode self v.id = some self' ∧
      Deleted self ((listing (plug ctx (fork .left v l r))).filter fun e => e.1 ≠ v.id) self' t' := by
  have hleft : (self.node v.id).left = rootId l := by rw [h.node_eq]; rfl
  have hrt : (self.node v.id).right = rootId r := by rw [h.node_eq]; rfl
  cases hl : rootId l with
  | none =>
    obtain rfl := eq_nil_of_rootId hl
    obtain ⟨self', t', hrun, hdel⟩ :=
      unhook_of_rep (show Rep self (plug ctx (fork .right v r nil)) from h) hbal hdest
    exact ⟨self', t', by simp [rbDeleteNode, hleft, hrt, hrun], hdel⟩
  | some i =>
    cases hr : rootId r with
    | none =>
      obtain rfl := eq_nil_of_rootId hr
      obtain ⟨self', t', hrun, hdel⟩ := unhook_of_rep h hbal hdest
      rw [hl] at hrun
      exact ⟨self', t', by simp [rbDeleteNode, hleft, hrt, hl, hrun], hdel⟩
    | some j =>
      obtain ⟨inner, w, b, rfl, hinn, hmost⟩ :=
        rbNodeMost_spec .left (show Rep self (plug (⟨.right, v, l⟩ :: ctx) r) from h) hr
      obtain ⟨self₁, hswap, hmeta₁, hooked⟩ := rbSwapNext_spec h hl hinn
      -- the two nodes exchange their colours too, so the tree stays balanced
      obtain ⟨m₁, hbal₁⟩ := hbal.replace (w := { w with red := v.red }) rfl
      have hbal₂ : Balanced Cell.red (plug (inner ++ ⟨.right, { w with red := v.red }, l⟩ :: ctx)
          (fork .left w nil b)) false m₁ := by
        rwa [plug_append]
      obtain ⟨m₂, hbal₃⟩ := hbal₂.replace (w := { v with red := w.red }) rfl
      obtain ⟨c, n, hv, hctx, htop⟩ := balanced_plug hbal₃
      obtain ⟨self', t', hrun, hdel⟩ :=
        rbUnhook_spec hooked (hmeta₁.destroying.trans hdest) hv hctx htop
      refine ⟨self', t', ?_, hmeta₁.trans hdel.sameMeta, hdel.rep, hdel.balanced, ?_⟩
      · have hch : (self₁.node v.id).right = rootId b := by
          rw [hooked.node_eq]
          rfl
        simp [rbDeleteNode, hleft, hrt, hl, hr, hmost, hswap, hch, hrun]
      · have hbef : ctxBefore .right inner = [] := ctxBefore_eq_nil hinn
        have hlist : listing (plug ctx (fork .left v l (plug inner (fork .left w nil b)))) =
            ((ctxBefore .right ctx ++ inorder .right l).map fun c => (c.id, c.obj)) ++ (v.id, v.obj) ::
              (w :: (inorder .right b ++ ctxAfter .right inner ++ ctxAfter .right ctx)).map
                fun c => (c.id, c.obj) := by
          simp [listing, inorder_plug, fork, inorder, hbef]
        rw [hdel.listing_eq, listing_filter h.nodup hlist, plug_append]
        simp [listing, inorder_plug, hbef]

end Delete

end Telephony.Ao2
