import Telephony.Ao2.RbRep
import Telephony.Lib.RedBlack

/-!
# The fixups of the red-black container

What the two fixup loops do to the tree of a container. Both keep the list of its nodes, and
both end.
-/

namespace Telephony.Ao2

open Lib Lib.BinTree List

section Fixup

variable {α : Type}

/-! ## The list of nodes -/

def listing (t : BinTree (Cell α)) : List (ℕ × Option α) :=
  (inorder .right t).map fun c => (c.id, c.obj)

variable {t s sp a b c u b₁ b₂ t' hole : BinTree (Cell α)} {self : RbTree α} {ctx inner : List (TreeFrame (Cell α))}
  {d e : Side} {v g p sv bv nv cv : Cell α} {i n fuel x r : ℕ} {f : TreeFrame (Cell α)}

section

variable (ctx : List (TreeFrame (Cell α)))

lemma listing_plug_congr (h : listing t' = listing t) : listing (plug ctx t') = listing (plug ctx t) := by
  simp only [listing, inorder_plug, map_append] at h ⊢
  rw [h]

lemma listing_plug_fork (d : Side) (a b : BinTree (Cell α)) :
    ∃ pre post, ∀ v : Cell α, listing (plug ctx (fork d v a b)) = pre ++ (v.id, v.obj) :: post := by
  cases d with
  | left =>
    refine ⟨(ctxBefore .right ctx ++ inorder .right a).map fun c => (c.id, c.obj),
      (inorder .right b ++ ctxAfter .right ctx).map fun c => (c.id, c.obj), fun v => ?_⟩
    simp [listing, inorder_plug, fork, inorder]
  | right =>
    refine ⟨(ctxBefore .right ctx ++ inorder .right b).map fun c => (c.id, c.obj),
      (inorder .right a ++ ctxAfter .right ctx).map fun c => (c.id, c.obj), fun v => ?_⟩
    simp [listing, inorder_plug]

/-! ## Looking around a node -/

lemma plug_flip (d : Side) (v : Cell α)
    (t s : BinTree (Cell α)) : plug (⟨d.flip, v, t⟩ :: ctx) s = plug ctx (fork d v t s) := by
  rw [plug_cons, fork_flip]

end

lemma Rep.sibling (h : Rep self (plug (⟨d, v, s⟩ :: ctx) t)) : Rep self (plug (⟨d.flip, v, t⟩ :: ctx) s) := by
  rwa [plug_flip]

lemma Rep.setRed_sibling (h : Rep self (plug (⟨d, v, fork e sv b c⟩ :: ctx) t)) (red : Bool) :
    Rep (self.setRed sv.id red) (plug (⟨d, v, fork e { sv with red } b c⟩ :: ctx) t) := by
  have hset := h.sibling.setRed red
  rwa [plug_flip] at hset

lemma Rep.parent_eq (h : Rep self (plug ctx t)) (hi : rootId t = some i) : (self.node i).parent = topId ctx := by
  cases t with
  | nil => simp at hi
  | node v l r =>
    simp only [rootId_node, Option.some.injEq] at hi
    rw [← hi, (owns_plug.mp h.owns).2.1, mkNode_parent]

lemma Rep.redAt_eq {c : Bool} (h : Rep self (plug ctx t)) (ht : Balanced Cell.red t c n) :
    self.redAt (rootId t) = c := by
  cases t with
  | nil => cases ht; rfl
  | node v l r =>
    have hroot : v.red = c := ht.red_root (d := .left)
    rw [rootId_node, RbTree.redAt, (owns_plug.mp h.owns).2.1, mkNode_isRed, hroot]

section

variable (h : Rep self (plug ctx (fork d v t s))) (hi : rootId t = some i)
include h hi

lemma Rep.rootId_ne : rootId s ≠ some i := by
  intro hs
  have hnd : (v.id :: (ids t ++ ids s)).Nodup :=
    (ids_fork_perm d v t s).nodup_iff.mp (nodup_append.mp h.nodup_plug).1
  have hdisj := (nodup_append.mp (nodup_cons.mp hnd).2).2.2
  exact hdisj i (mem_ids_of_rootId hi) i (mem_ids_of_rootId hs) rfl

lemma Rep.side_eq : (if (self.node v.id).left = some i then Side.left else Side.right) = d := by
  rw [h.node_eq]
  cases d with
  | left => exact if_pos hi
  | right => exact if_neg (h.rootId_ne hi)

end

/-! ## After an insertion -/

lemma insertFixupSide_uncle {u : Cell α} (h : Rep self (plug ctx (fork d g (fork e p t sp) (fork d u a b))))
    (hu : u.red = true) (node : ℕ) :
    ∃ self', insertFixupSide d self node p.id g.id = some (self', g.id) ∧ SameMeta self self' ∧
      Rep self' (plug ctx (fork d { g with red := true } (fork e { p with red := false } t sp)
        (fork d { u with red := false } a b))) := by
  have hu₀ := h.down.sibling
  have h₁ := h.down.setRed_sibling false
  have h₂ : Rep ((self.setRed u.id false).setRed p.id false)
      (plug ctx (fork d g (fork e { p with red := false } t sp)
        (fork d { u with red := false } a b))) := h₁.setRed false
  have hg₁ : (self.setRed u.id false).node g.id = mkNode g (topId ctx) d (some p.id) (some u.id) := by
    simpa using h₁.up.node_eq
  refine ⟨((self.setRed u.id false).setRed p.id false).setRed g.id true, ?_, ⟨rfl, rfl, rfl⟩, h₂.setRed true⟩
  simp [insertFixupSide, h.node_eq, hu₀.node_eq, RbTree.redAt, hu, hg₁]

lemma rbRotate_flip_rep {n ch : Cell α} (h : Rep self (plug ctx (fork d n (fork d ch b a) c))) :
    ∃ self', rbRotate d.flip self n.id = some self' ∧ SameMeta self self' ∧
      Rep self' (plug ctx (fork d ch b (fork d n a c))) := by
  have hflip : fork d n (fork d ch b a) c = fork d.flip n c (fork d.flip ch a b) := by rw [fork_flip, fork_flip]
  rw [hflip] at h
  obtain ⟨self', hrot, hmeta, hrep⟩ := rbRotate_rep h
  refine ⟨self', hrot, hmeta, ?_⟩
  rwa [fork_flip, fork_flip] at hrep

lemma insertFixupSide_outer (h : Rep self (plug ctx (fork d g (fork d p t sp) u))) (hi : rootId t = some i)
    (hu : self.redAt (rootId u) = false) :
    ∃ self', insertFixupSide d self i p.id g.id = some (self', i) ∧ SameMeta self self' ∧
      Rep self' (plug ctx (fork d { p with red := false } t (fork d { g with red := true } sp u))) := by
  have hp := h.down
  have hpar : (self.node i).parent = some p.id := hp.down.parent_eq hi
  have h₁ : Rep (self.setRed p.id false)
      (plug ctx (fork d g (fork d { p with red := false } t sp) u)) := hp.setRed false
  obtain ⟨self', hrot, hmeta, hrep⟩ := rbRotate_flip_rep (h₁.setRed true)
  refine ⟨self', ?_, hmeta.of_setRed.of_setRed, hrep⟩
  simp [insertFixupSide, h.node_eq, hp.node_eq, hu, hp.rootId_ne hi, hpar, hrot]

lemma insertFixupSide_inner (h : Rep self (plug ctx (fork d g (fork d p sp (fork d v a b)) u)))
    (hu : self.redAt (rootId u) = false) :
    ∃ self', insertFixupSide d self v.id p.id g.id = some (self', p.id) ∧ SameMeta self self' ∧
      Rep self' (plug ctx (fork d { v with red := false } (fork d p sp a) (fork d { g with red := true } b u))) := by
  have hp := h.down
  obtain ⟨self₁, hrot₁, hmeta₁, hrep₁⟩ := rbRotate_rep hp
  have hpar : (self₁.node p.id).parent = some v.id := by simp [hrep₁.down.node_eq]
  have h₂ : Rep (self₁.setRed v.id false)
      (plug ctx (fork d g (fork d { v with red := false } (fork d p sp a) b) u)) := hrep₁.setRed false
  obtain ⟨self', hrot, hmeta, hrep⟩ := rbRotate_flip_rep (h₂.setRed true)
  refine ⟨self', ?_, hmeta₁.trans hmeta.of_setRed.of_setRed, hrep⟩
  simp [insertFixupSide, h.node_eq, hp.node_eq, hu, hrot₁, hpar, hrot]

/-- What the loop leaves behind: a balanced tree with the same nodes, of which only the root may be
red. -/
structure Fixed (c : RbTree α) (t : BinTree (Cell α)) (c' : RbTree α) (t' : BinTree (Cell α)) : Prop where
  sameMeta : SameMeta c c'
  rep : Rep c' t'
  listing_eq : listing t' = listing t

lemma Fixed.trans {s₁ s₂ s₃ : RbTree α} {t₁ t₂ t₃ : BinTree (Cell α)} (h : Fixed s₁ t₁ s₂ t₂)
    (h' : Fixed s₂ t₂ s₃ t₃) : Fixed s₁ t₁ s₃ t₃ :=
  ⟨h.sameMeta.trans h'.sameMeta, h'.rep, h'.listing_eq.trans h.listing_eq⟩

lemma insertFixupStep_black (h : Rep self (plug (f :: ctx) t)) (hi : rootId t = some i) (hf : f.v.red = false) :
    insertFixupStep (self, i) = some (.inr self) := by
  have hv : (self.node f.v.id).isRed = false := by
    rw [h.up.node_eq, mkNode_isRed, hf]
  simp [insertFixupStep, h.parent_eq hi, hv]

lemma insertFixupStep_red {c : Bool} (h : Rep self (plug ctx (fork d g (fork e p (fork d v a b) sp) u)))
    (hp : p.red = true) (ht : Balanced Cell.red (fork d v a b) true n) (hsp : Balanced Cell.red sp false n)
    (hu : Balanced Cell.red u c n) :
    ∃ self' i t', insertFixupStep (self, v.id) = some (.inl (self', i)) ∧
      Fixed self (plug ctx (fork d g (fork e p (fork d v a b) sp) u)) self' (plug ctx t') ∧
      ((∃ g' x y, t' = fork d g' x y ∧ i = g'.id ∧ Balanced Cell.red t' true (n + 1)) ∨
        (insertFixupStep (self', i) = some (.inr self') ∧ Balanced Cell.red t' false (n + 1))) := by
  have hroot : rootId (fork d v a b) = some v.id := rootId_fork d v a b
  have hstep : insertFixupStep (self, v.id) = (insertFixupSide d self v.id p.id g.id).map .inl := by
    simp [insertFixupStep, h.down.down.parent_eq hroot, h.down.node_eq, hp, h.side_eq (rootId_fork e p _ sp)]
  have hured : self.redAt (rootId u) = c := h.down.sibling.redAt_eq hu
  rw [hstep]
  cases c with
  | true =>
    obtain ⟨uv, ua, ub, rfl⟩ := hu.exists_of_red d
    obtain ⟨huv, hua, hub⟩ := hu.red_inv
    obtain ⟨self', hside, hmeta, hrep⟩ := insertFixupSide_uncle h huv v.id
    refine ⟨self', g.id, _, by rw [hside]; rfl, ⟨hmeta, hrep, listing_plug_congr ctx ?_⟩,
      .inl ⟨_, _, _, rfl, rfl, ?_⟩⟩
    · cases d <;> cases e <;> simp [listing, fork, inorder]
    · exact .fork_red rfl (.fork_black rfl ht hsp) (.fork_black rfl hua hub)
  | false =>
    rcases Side.eq_or_eq_flip d e with rfl | rfl
    · obtain ⟨self', hside, hmeta, hrep⟩ := insertFixupSide_outer h hroot hured
      refine ⟨self', v.id, _, by rw [hside]; rfl, ⟨hmeta, hrep, listing_plug_congr ctx ?_⟩,
        .inr ⟨?_, .fork_black rfl ht (.fork_red rfl hsp hu)⟩⟩
      · cases e <;> simp [listing, fork, inorder]
      · exact insertFixupStep_black (f := ⟨e, { p with red := false }, _⟩) hrep hroot rfl
    rw [fork_flip] at h
    obtain ⟨self', hside, hmeta, hrep⟩ := insertFixupSide_inner h hured
    obtain ⟨-, ha, hb⟩ := ht.red_inv
    refine ⟨self', p.id, _, by rw [hside]; rfl, ⟨hmeta, hrep, listing_plug_congr ctx ?_⟩,
      .inr ⟨?_, .fork_black rfl (.fork_red hp hsp ha) (.fork_red rfl hb hu)⟩⟩
    · cases d <;> simp [listing, fork, inorder, Side.flip]
    · exact insertFixupStep_black (f := ⟨d, { v with red := false }, _⟩) hrep (rootId_fork d p sp a) rfl

lemma length_add_length_ids_le (ctx : List (TreeFrame (Cell α))) :
    ctx.length + (ids t).length ≤ (ids (plug ctx t)).length := by
  induction ctx generalizing t with
  | nil => simp
  | cons f ctx ih =>
    have hle := ih (t := fork f.side f.v t f.sib)
    have hlen := (ids_fork_perm f.side f.v t f.sib).length_eq
    simp only [length_cons, length_append, plug_cons] at hlen ⊢ hle
    omega

lemma Rep.length_ctx_lt (h : Rep self (plug ctx (fork d v a b))) : ctx.length < self.fresh := by
  have hlen := (length_add_length_ids_le ctx).trans h.length_ids_le
  rw [(ids_fork_perm d v a b).length_eq, length_cons] at hlen
  omega

section

variable (h : Rep self (plug ctx (fork d v a b))) (hbal : Balanced Cell.red (fork d v a b) true n)
  (hctx : CtxBalanced Cell.red ctx n)
include h hbal hctx

/-- **The loop after an insertion** ends with a balanced tree. Induction on the rounds that are
left, with more of them than nodes on the path up. -/
lemma insertFixup_loop (hfuel : ctx.length < fuel) :
    ∃ self' t' c m, iterate insertFixupStep fuel (self, v.id) = some self' ∧
      Fixed self (plug ctx (fork d v a b)) self' t' ∧ Balanced Cell.red t' c m := by
  induction fuel generalizing self ctx d v a b n with
  | zero => omega
  | succ fuel ih =>
    have hroot : rootId (fork d v a b) = some v.id := rootId_fork d v a b
    cases hctx with
    | nil =>
      refine ⟨self, _, true, n, iterate_done ?_ fuel, ⟨.rfl, h, rfl⟩, hbal⟩
      simp [insertFixupStep, h.parent_eq hroot]
    | @black f ctx _ _ hf hs hc =>
      obtain ⟨m, hm⟩ := hc.plug (.fork_black (d := f.side) hf hbal hs) (by simp)
      exact ⟨self, _, false, m, iterate_done (insertFixupStep_black h hroot hf) fuel, ⟨.rfl, h, rfl⟩, hm⟩
    | @red f ctx _ hf hs htop hc =>
      obtain ⟨g, ctx, rfl, hg⟩ := htop
      obtain ⟨cu, hu, hc⟩ := hc.black_inv hg
      obtain ⟨a', b', hab⟩ := fork_eq_fork d g.side v a b
      simp only [length_cons] at hfuel
      rw [hab] at hbal h ⊢
      obtain ⟨self₁, i, t₁, hstep, hfix, hcase⟩ := insertFixupStep_red h hf hbal hs hu
      rw [iterate_next hstep]
      rcases hcase with ⟨g', x, y, rfl, rfl, hbal₁⟩ | ⟨hend, hbal₁⟩
      · obtain ⟨self₂, t₂, c, m, hrun, hfix₂, hbal₂⟩ := ih hfix.rep hbal₁ hc (by omega)
        exact ⟨self₂, t₂, c, m, hrun, hfix.trans hfix₂, hbal₂⟩
      obtain ⟨m, hm⟩ := hc.plug hbal₁ (by simp)
      obtain _ | k := fuel
      · omega
      exact ⟨self₁, _, false, m, iterate_done hend k, hfix, hm⟩

lemma rbInsertFixup_spec : ∃ self' t' m, rbInsertFixup self v.id = some self' ∧
      Fixed self (plug ctx (fork d v a b)) self' t' ∧ Balanced Cell.red t' false m := by
  have hlen := h.length_ctx_lt
  obtain ⟨self₁, t₁, c, m, hrun, hfix, hbal₁⟩ :=
    insertFixup_loop h hbal hctx (show ctx.length < self.fresh + 1 by omega)
  cases t₁ with
  | nil =>
    obtain ⟨pre, post, hlist⟩ := listing_plug_fork ctx d a b
    have hnil := hfix.listing_eq
    rw [hlist] at hnil
    simp [listing] at hnil
  | node r x y =>
    obtain ⟨k, hk⟩ := Balanced.blacken (d := .left) (w := { r with red := false }) hbal₁ rfl
    have hwhole : Rep self₁ (plug [] (fork .left r x y)) := hfix.rep
    have hrep := hwhole.setRed false
    refine ⟨self₁.setRed r.id false, _, k, ?_, ⟨hfix.sameMeta.trans ⟨rfl, rfl, rfl⟩, hrep, ?_⟩, hk⟩
    · simp [rbInsertFixup, hrun, hfix.rep.root_eq]
    · exact Eq.trans (by simp [listing, fork, inorder]) hfix.listing_eq

end

/-! ## After a deletion -/

lemma deleteFixupRedSibling_rep (h : Rep self (plug (⟨d, p, fork d sv (fork d bv b₁ b₂) c⟩ :: ctx) t))
    (hx : rootId t = some x) (hred : sv.red = true) :
    ∃ self', deleteFixupRedSibling d self x p.id sv.id = some (self', bv.id) ∧ SameMeta self self' ∧
      Rep self' (plug (⟨d, { p with red := true }, fork d bv b₁ b₂⟩ ::
        ⟨d, { sv with red := false }, c⟩ :: ctx) t) := by
  have hs := h.sibling
  have h₁ : Rep (self.setRed sv.id false)
      (plug ctx (fork d p t (fork d { sv with red := false } (fork d bv b₁ b₂) c))) := h.setRed_sibling false
  obtain ⟨self', hrot, hmeta, hrep⟩ := rbRotate_rep (h₁.setRed true)
  refine ⟨self', ?_, hmeta.of_setRed.of_setRed, hrep⟩
  have hpar : (self'.node x).parent = some p.id := hrep.down.down.parent_eq hx
  have hnode : (self'.node p.id).child d.flip = some bv.id := by simpa using congrArg (·.child d.flip) hrep.down.node_eq
  simp [deleteFixupRedSibling, hs.node_eq, hred, hrot, RbTree.siblingOf, hpar, hnode]

lemma deleteFixupInner_rep (h : Rep self (plug (⟨d, p, fork d sv (fork d nv b₁ b₂) c⟩ :: ctx) t))
    (hx : rootId t = some x) (hc : self.redAt (rootId c) = false) :
    ∃ self', deleteFixupInner d self x sv.id = some (self', nv.id) ∧ SameMeta self self' ∧
      Rep self' (plug (⟨d, p, fork d { nv with red := false } b₁
        (fork d { sv with red := true } b₂ c)⟩ :: ctx) t) := by
  have hs := h.sibling
  have h₁ : Rep (self.setRed nv.id false)
      (plug (⟨d.flip, p, t⟩ :: ctx) (fork d sv (fork d { nv with red := false } b₁ b₂) c)) :=
    hs.down.setRed false
  obtain ⟨self', hrot, hmeta, hrep⟩ := rbRotate_flip_rep (h₁.setRed true)
  rw [plug_flip] at hrep
  refine ⟨self', ?_, hmeta.of_setRed.of_setRed, hrep⟩
  have hpar : (self'.node x).parent = some p.id := hrep.down.parent_eq hx
  simp [deleteFixupInner, hs.node_eq, hc, hrot, RbTree.siblingOf, hpar, hrep.node_eq]

lemma deleteFixupOuter_rep {c₁ c₂ : BinTree (Cell α)}
    (h : Rep self (plug (⟨d, p, fork d sv b (fork d cv c₁ c₂)⟩ :: ctx) t)) (hx : rootId t = some x) :
    ∃ self' r, deleteFixupOuter d self x sv.id = some (self', r) ∧ self'.root = some r ∧
      SameMeta self self' ∧
      Rep self' (plug (⟨d, { p with red := false }, b⟩ ::
        ⟨d, { sv with red := p.red }, fork d { cv with red := false } c₁ c₂⟩ :: ctx) t) := by
  have hpar : (self.node x).parent = some p.id := h.parent_eq hx
  have hp : (self.node p.id).isRed = p.red := by
    rw [h.up.node_eq, mkNode_isRed]
  have h₁ : Rep (self.setRed sv.id p.red)
      (plug ctx (fork d p t (fork d { sv with red := p.red } b (fork d cv c₁ c₂)))) := h.setRed_sibling p.red
  have h₂ := h₁.setRed false
  rw [← plug_flip] at h₂
  have hsv := h₂.node_eq
  rw [← plug_flip] at h₂
  have h₃ := h₂.setRed false
  rw [plug_flip, plug_flip] at h₃
  obtain ⟨self', hrot, hmeta, hrep⟩ := rbRotate_rep h₃
  obtain ⟨r, hr⟩ : ∃ r, self'.root = some r := by
    obtain ⟨w, y, z, heq⟩ := exists_plug_fork ctx d { sv with red := p.red } _ _
    rw [heq] at hrep
    exact ⟨w.id, hrep.root_eq⟩
  refine ⟨self', r, ?_, hr, hmeta.of_setRed.of_setRed.of_setRed, hrep⟩
  simp [deleteFixupOuter, hpar, hp, hsv, hrot, hr]

lemma Rep.root_black (h : Rep self (plug (f :: ctx) t)) (hctx : CtxBalanced Cell.red (f :: ctx) n)
    (hr : self.root = some r) :
    (self.node r).isRed = false := by
  obtain ⟨v, a, b, heq, hv⟩ := hctx.exists_black_root t
  rw [heq] at h
  obtain rfl : v.id = r := by simpa [h.root_eq] using hr
  rw [h.whole.node_eq, mkNode_isRed, hv]

lemma deleteFixupOuter_spec {cb : Bool} (h : Rep self (plug (⟨d, p, fork d sv b c⟩ :: ctx) t))
    (hx : rootId t = some x) (hctx : CtxBalanced Cell.red (⟨d, p, s⟩ :: ctx) (n + 1))
    (hb : Balanced Cell.red b cb n) (hc : Balanced Cell.red c true n) :
    ∃ self' y ctx', deleteFixupOuter d self x sv.id = some (self', y) ∧ self'.root = some y ∧
      CtxBalanced Cell.red ctx' n ∧
      Fixed self (plug (⟨d, p, fork d sv b c⟩ :: ctx) t) (self'.setRed y false) (plug ctx' t) := by
  obtain ⟨cv, c₁, c₂, rfl⟩ := hc.exists_of_red d
  obtain ⟨-, hc₁, hc₂⟩ := hc.red_inv
  obtain ⟨self', y, hrun, hroot, hmeta, hrep⟩ := deleteFixupOuter_rep h hx
  have hnew : CtxBalanced Cell.red (⟨d, { p with red := false }, b⟩ ::
      ⟨d, { sv with red := p.red }, fork d { cv with red := false } c₁ c₂⟩ :: ctx) n :=
    .black rfl hb (hctx.replace rfl (.fork_black rfl hc₁ hc₂))
  have hblack : self'.setRed y false = self' := setRed_eq_self (hrep.root_black hnew hroot)
  rw [← hblack] at hmeta hrep
  refine ⟨self', y, _, hrun, hroot, hnew, hmeta, hrep, ?_⟩
  refine listing_plug_congr ctx ?_
  cases d <;> simp [listing, fork, inorder]

/-- How a round of the loop ends: at the parent, which has one black too few now, or the loop is
done. -/
def DeleteRound (self : RbTree α) (d : Side) (p : Cell α) (s : BinTree (Cell α)) (ctx : List (TreeFrame (Cell α)))
    (t : BinTree (Cell α)) (n : ℕ) (self' : RbTree α) (y : ℕ) : Prop :=
  (∃ s', y = p.id ∧ p.red = false ∧ Balanced Cell.red s' true n ∧ CtxBalanced Cell.red ctx (n + 2) ∧
    Fixed self (plug (⟨d, p, s⟩ :: ctx) t) self' (plug (⟨d, p, s'⟩ :: ctx) t)) ∨
  ∃ ctx', (self'.root = some y ∨ (self'.node y).isRed = true) ∧ CtxBalanced Cell.red ctx' n ∧
    Fixed self (plug (⟨d, p, s⟩ :: ctx) t) (self'.setRed y false) (plug ctx' t)

lemma deleteFixupBlackSibling_spec (h : Rep self (plug (⟨d, p, fork d sv b c⟩ :: ctx) t))
    (hx : rootId t = some x) (hctx : CtxBalanced Cell.red (⟨d, p, fork d sv b c⟩ :: ctx) (n + 1))
    (hsv : sv.red = false) :
    ∃ self' y, deleteFixupBlackSibling d self x sv.id = some (self', y) ∧
      DeleteRound self d p (fork d sv b c) ctx t n self' y := by
  have hs := h.sibling
  obtain ⟨cs, hsib⟩ := hctx.exists_sib
  obtain rfl : cs = false := hsib.red_root.symm.trans hsv
  obtain ⟨-, n', cb, cc, heq, hb, hc⟩ := hsib.black_inv
  obtain rfl : n = n' := by omega
  have hbred : self.redAt (rootId b) = cb := hs.down.redAt_eq hb
  have hcred : self.redAt (rootId c) = cc := hs.down.sibling.redAt_eq hc
  have hpar : (self.node x).parent = some p.id := h.parent_eq hx
  by_cases hcase : cb = false ∧ cc = false
  · -- Case 2
    obtain ⟨rfl, rfl⟩ := hcase
    have hred : Balanced Cell.red (fork d { sv with red := true } b c) true n := .fork_red rfl hb hc
    have hrep := h.setRed_sibling true
    have hlist : ∀ q : Cell α, q.id = p.id → q.obj = p.obj →
        listing (plug (⟨d, q, fork d { sv with red := true } b c⟩ :: ctx) t) =
          listing (plug (⟨d, p, fork d sv b c⟩ :: ctx) t) := by
      intro q hid hobj
      refine listing_plug_congr ctx ?_
      cases d <;> simp [listing, fork, inorder, hid, hobj]
    refine ⟨self.setRed sv.id true, p.id, ?_, ?_⟩
    · simp [deleteFixupBlackSibling, hpar, hs.node_eq, hbred, hcred]
    cases hp : p.red with
    | false =>
      obtain ⟨_, -, hup⟩ := hctx.black_inv hp
      exact .inl ⟨_, rfl, hp, hred, hup, ⟨rfl, rfl, rfl⟩, hrep, hlist p rfl rfl⟩
    | true =>
      obtain ⟨-, -, hup⟩ := hctx.red_inv hp
      refine .inr ⟨⟨d, { p with red := false }, fork d { sv with red := true } b c⟩ :: ctx, Or.inr ?_,
        .black rfl hred hup, ⟨rfl, rfl, rfl⟩, hrep.setRed false, hlist _ rfl rfl⟩
      rw [hrep.up.node_eq, mkNode_isRed, hp]
  · cases cc with
    | true =>
      -- Case 4
      obtain ⟨self', y, ctx', hrun, hroot, hnew, hfix⟩ := deleteFixupOuter_spec h hx hctx hb hc
      refine ⟨self', y, ?_, .inr ⟨ctx', .inl hroot, hnew, hfix⟩⟩
      simp [deleteFixupBlackSibling, deleteFixupInner, hpar, hs.node_eq, hcred, hrun]
    | false =>
      -- Case 3, then case 4
      obtain rfl : cb = true := by simpa using hcase
      obtain ⟨nv, b₁, b₂, rfl⟩ := hb.exists_of_red d
      obtain ⟨-, hb₁, hb₂⟩ := hb.red_inv
      obtain ⟨self₁, hinn, hmeta₁, hrep₁⟩ := deleteFixupInner_rep h hx hcred
      have houter : Balanced Cell.red (fork d { sv with red := true } b₂ c) true n := .fork_red rfl hb₂ hc
      obtain ⟨self', y, ctx', hrun, hroot, hnew, hfix⟩ := deleteFixupOuter_spec hrep₁ hx hctx hb₁ houter
      refine ⟨self', y, ?_, .inr ⟨ctx', .inl hroot, hnew, Fixed.trans ⟨hmeta₁, hrep₁, ?_⟩ hfix⟩⟩
      · simp only [rootId_fork] at hrun hbred
        simp [deleteFixupBlackSibling, hpar, hs.node_eq, hbred, hinn, hrun]
      · refine listing_plug_congr ctx ?_
        cases d <;> simp [listing, fork, inorder]

lemma deleteFixupSide_spec (h : Rep self (plug (⟨d, p, s⟩ :: ctx) t)) (hx : rootId t = some x)
    (hctx : CtxBalanced Cell.red (⟨d, p, s⟩ :: ctx) (n + 1)) :
    ∃ self' y, deleteFixupSide d self x p.id = some (self', y) ∧ DeleteRound self d p s ctx t n self' y := by
  obtain ⟨cs, hsib⟩ := hctx.exists_sib
  obtain ⟨sv, b, c, hs⟩ := hsib.exists_of_pos d
  obtain rfl : s = fork d sv b c := hs
  have hp : (self.node p.id).child d.flip = some sv.id := by
    rw [h.up.node_eq]
    simp
  have hsv : (self.node sv.id).isRed = sv.red := by rw [h.sibling.node_eq, mkNode_isRed]
  have hcs : sv.red = cs := hsib.red_root
  cases cs with
  | false =>
    obtain ⟨self', y, hrun, hcase⟩ := deleteFixupBlackSibling_spec h hx hctx hcs
    refine ⟨self', y, ?_, hcase⟩
    simp [deleteFixupSide, deleteFixupRedSibling, hp, hsv, hcs, hrun]
  | true =>
    have hpb : p.red = false := by
      cases hp : p.red with
      | false => rfl
      | true => simpa using hsib.red_root.symm.trans (hctx.red_inv hp).1.red_root
    obtain ⟨-, hb, hc⟩ := hsib.red_inv
    obtain ⟨_, -, hup⟩ := hctx.black_inv hpb
    obtain ⟨bv, b₁, b₂, rfl⟩ := hb.exists_of_pos d
    obtain ⟨self₁, hfst, hmeta₁, hrep₁⟩ := deleteFixupRedSibling_rep h hx hcs
    have hctx₁ : CtxBalanced Cell.red (⟨d, { p with red := true }, fork d bv b₁ b₂⟩ ::
        ⟨d, { sv with red := false }, c⟩ :: ctx) (n + 1) :=
      .red rfl hb ⟨_, _, rfl, rfl⟩ (.black rfl hc hup)
    have hfix₁ : Fixed self (plug (⟨d, p, fork d sv (fork d bv b₁ b₂) c⟩ :: ctx) t) self₁ _ :=
      ⟨hmeta₁, hrep₁, listing_plug_congr ctx (by cases d <;> simp [listing, fork, inorder])⟩
    obtain ⟨self', y, hrun, hcase⟩ := deleteFixupBlackSibling_spec hrep₁ hx hctx₁ hb.red_root
    refine ⟨self', y, by simp [deleteFixupSide, hp, hfst, hrun], ?_⟩
    -- the parent is red now, so the loop does not go on
    rcases hcase with ⟨s', -, hp', -⟩ | ⟨ctx', hend, hnew, hfix⟩
    · simp at hp'
    · exact .inr ⟨ctx', hend, hnew, hfix₁.trans hfix⟩

/-- **The loop after a deletion** ends with a tree that is balanced once the doomed node `hole` is
taken out. Induction on the rounds that are left; the tree below the child of a round has one black
too few. -/
lemma deleteFixup_loop (h : Rep self (plug ctx (plug inner hole))) (hx : rootId (plug inner hole) = some x)
    (hblack : (self.node x).isRed = false) (hbal : Balanced Cell.red (plug inner nil) false n)
    (hctx : CtxBalanced Cell.red ctx (n + 1)) (hfuel : ctx.length + 1 < fuel) :
    ∃ self' y ctx' m, iterate deleteFixupStep fuel (self, x) = some (self', y) ∧
      Fixed self (plug ctx (plug inner hole)) (self'.setRed y false) (plug ctx' hole) ∧
      Balanced Cell.red (plug ctx' nil) false m := by
  induction fuel generalizing self ctx inner x n with
  | zero => omega
  | succ fuel ih =>
    cases ctx with
    | nil =>
      refine ⟨self, x, inner, n, iterate_done ?_ fuel, ?_, hbal⟩
      · rw [deleteFixupStep, if_pos (.inl (h.root_eq.trans hx))]
      · rw [setRed_eq_self hblack]
        exact ⟨.rfl, h, rfl⟩
    | cons f ctx =>
      have hroot : self.root ≠ some x := by
        intro hr
        exact (nodup_append.mp h.nodup_plug).2.2 x (mem_ids_of_rootId hx) x
          (mem_ctxIds_of_rootId (h.root_eq.symm.trans hr)) rfl
      obtain ⟨self₁, y, hside, hcase⟩ := deleteFixupSide_spec h hx hctx
      have hstep : deleteFixupStep (self, x) = some (.inl (self₁, y)) := by
        have hpar : (self.node x).parent = some f.v.id := h.parent_eq hx
        simp [deleteFixupStep, hroot, hblack, hpar, h.up.side_eq hx, hside]
      simp only [length_cons] at hfuel
      rw [iterate_next hstep]
      rcases hcase with ⟨s', rfl, hp, hs', hup, hfix⟩ | ⟨ctx', hend, hnew, hfix⟩
      · -- the subtree of the parent is the next one with a black too few
        have happ : ∀ t : BinTree (Cell α),
            plug (inner ++ [⟨f.side, f.v, s'⟩]) t = fork f.side f.v (plug inner t) s' := by
          intro t
          rw [plug_append]
          rfl
        have hnode := hfix.rep.up.node_eq
        have hfocus : Rep self₁ (plug ctx (plug (inner ++ [⟨f.side, f.v, s'⟩]) hole)) := by
          rw [happ]
          exact hfix.rep
        have hbal₁ : Balanced Cell.red (plug (inner ++ [⟨f.side, f.v, s'⟩]) nil) false (n + 1) := by
          rw [happ]
          exact .fork_black hp hbal hs'
        obtain ⟨self', y, ctx', m, hrun, hfix', hbal'⟩ :=
          ih hfocus (by rw [happ, rootId_fork]) (by rw [hnode, mkNode_isRed, hp]) hbal₁ hup (by omega)
        rw [happ] at hfix'
        exact ⟨self', y, ctx', m, hrun, hfix.trans hfix', hbal'⟩
      · obtain ⟨k, rfl⟩ : ∃ k, fuel = k + 1 := ⟨fuel - 1, by omega⟩
        obtain ⟨m, hm⟩ := hnew.plug hbal (by simp)
        refine ⟨self₁, y, inner ++ ctx', m, iterate_done ?_ k, ?_, by rwa [plug_append]⟩
        · rw [deleteFixupStep, if_pos hend]
        · rwa [plug_append]

lemma rbDeleteFixup_spec (h : Rep self (plug ctx (fork d v a b))) (hv : v.red = false)
    (hctx : CtxBalanced Cell.red ctx 1) :
    ∃ self' ctx' m, rbDeleteFixup self v.id = some self' ∧
      Fixed self (plug ctx (fork d v a b)) self' (plug ctx' (fork d v a b)) ∧
      Balanced Cell.red (plug ctx' nil) false m := by
  have hlen := h.length_ctx_lt
  obtain ⟨self', y, ctx', m, hrun, hfix, hbal⟩ :=
    deleteFixup_loop (show Rep self (plug ctx (plug [] (fork d v a b))) from h) (rootId_fork d v a b)
      (by rw [h.node_eq, mkNode_isRed, hv]) .nil hctx (show ctx.length + 1 < self.fresh + 1 by omega)
  exact ⟨self'.setRed y false, ctx', m, by simp [rbDeleteFixup, hrun], hfix, hbal⟩

end Fixup

end Telephony.Ao2
