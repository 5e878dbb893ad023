import Telephony.Ao2.RbFixup

/-!
# Walking through the red-black container

What the walks along the links return, read off the in-order list of the tree. Each of them ends
within as many rounds as the tree has nodes.
-/

namespace Telephony.Ao2

open Lib Lib.BinTree
open List hiding nil

section Walk

variable {α : Type}

lemma length_ids (d : Side) (t : BinTree (Cell α)) : (ids t).length = (inorder d t).length := by
  rw [length_inorder]
  induction t with
  | nil => rfl
  | node v l r ihl ihr =>
    simp only [ids, length_cons, length_append, size]
    omega

variable {self : RbTree α} {t r l : BinTree (Cell α)} {x fuel : ℕ} {d : Side}
  {ctx inner : List (TreeFrame (Cell α))} {pre post : List (Cell α)} {c e : Cell α}

lemma Rep.length_inorder_le (h : Rep self t) (d : Side) :
    (inorder d t).length ≤ self.fresh := length_ids d t ▸ h.length_ids_le

/-! ## The last node on one side -/

lemma exists_fork_of_rootId (hx : rootId t = some x) (d : Side) : ∃ v a b, t = fork d v a b ∧ v.id = x := by
  obtain ⟨v, a, b, rfl⟩ := exists_fork (t := t) (by rintro rfl; cases hx) d
  exact ⟨v, a, b, rfl, by simpa using hx⟩

lemma eq_nil_of_rootId (h : rootId t = none) : t = nil := by
  cases t with
  | nil => rfl
  | node => simp at h

lemma Rep.obj_eq (h : Rep self (plug ctx t)) (hlist : inorder d t = pre ++ c :: post) :
    (self.node c.id).obj = c.obj := by
  obtain ⟨inner, a, b, rfl, -, -⟩ := exists_plug_of_inorder d hlist
  rw [← plug_append] at h
  rw [h.node_eq, mkNode_obj]

section

variable (d : Side) (h : Rep self (plug ctx t)) (hx : rootId t = some x)
include h hx

lemma rbNodeMost_loop (hfuel : (ids t).length ≤ fuel) :
    ∃ inner w b, t = plug inner (fork d w nil b) ∧ (∀ f ∈ inner, f.side = d) ∧
      iterate (mostStep d self) fuel x = some w.id := by
  induction fuel generalizing t ctx x with
  | zero =>
    exact absurd hfuel (Nat.not_le.mpr (length_ids_pos hx))
  | succ fuel ih =>
    obtain ⟨v, a, b, rfl, rfl⟩ := exists_fork_of_rootId hx d
    cases ha : rootId a with
    | none =>
      obtain rfl : a = nil := eq_nil_of_rootId ha
      refine ⟨[], v, b, rfl, by simp, iterate_done ?_ fuel⟩
      simp [mostStep, h.node_eq]
    | some y =>
      have hlen := (ids_fork_perm d v a b).length_eq
      simp only [length_cons, length_append] at hlen
      obtain ⟨inner, w, b', rfl, hinn, hrun⟩ :=
        ih h.down ha (by omega)
      refine ⟨inner ++ [⟨d, v, b⟩], w, b', by rw [plug_append]; rfl, ?_, (iterate_next ?_ fuel).trans hrun⟩
      · intro f hf
        rcases mem_append.mp hf with hf | hf
        · exact hinn f hf
        · rw [mem_singleton.mp hf]
      · simp [mostStep, h.node_eq, ha]

lemma rbNodeMost_spec : ∃ inner w b, t = plug inner (fork d w nil b) ∧ (∀ f ∈ inner, f.side = d) ∧
      rbNodeMost d self x = some w.id := by
  have hlen := (length_add_length_ids_le ctx (t := t)).trans h.length_ids_le
  exact rbNodeMost_loop d h hx (by omega)

end

lemma ctxAfter_eq_nil (h : ∀ f ∈ inner, f.side = d) : ctxAfter d inner = [] := by
  induction inner with
  | nil => rfl
  | cons f inner ih =>
    rw [ctxAfter, if_pos (h f (by simp)), ih fun g hg => h g (by simp [hg]), append_nil]

section

variable (w : Cell α) (b : BinTree (Cell α)) (h : ∀ f ∈ inner, f.side = d)
include h

lemma inorder_most : inorder d (plug inner (fork d w nil b)) = ctxBefore d inner ++ inorder d b ++ [w] := by
  rw [inorder_plug, ctxAfter_eq_nil h]
  simp

lemma inorder_flip_most : ∃ rest, inorder d.flip (plug inner (fork d w nil b)) = w :: rest := by
  rw [inorder_flip, inorder_most w b h]
  simp

end

lemma Rep.rbNodeMost_flip (h : Rep self (plug ctx (fork d c b a))) (hb : rootId b = some x) :
    ∃ w : Cell α, rbNodeMost d.flip self x = some w.id ∧ (inorder d b).head? = some w := by
  obtain ⟨inner, w, b', rfl, hinn, hmost⟩ :=
    rbNodeMost_spec d.flip h.down hb
  obtain ⟨rest, hrest⟩ := inorder_flip_most w b' hinn
  rw [Side.flip_flip] at hrest
  exact ⟨w, hmost, by rw [hrest]; rfl⟩

/-! ## The next node -/

lemma climb_loop (d : Side) (ctx : List (TreeFrame (Cell α))) (h : Rep self (plug ctx t))
    (hx : rootId t = some x) (hfuel : ctx.length < fuel) :
    iterate (climbStep d self) fuel x = some ((ctxAfter d ctx).head?.map Cell.id) := by
  induction ctx generalizing t x fuel with
  | nil =>
    obtain _ | fuel := fuel
    · omega
    refine iterate_done ?_ fuel
    simp [climbStep, h.parent_eq hx]
  | cons f ctx ih =>
    obtain _ | fuel := fuel
    · omega
    have hf : Rep self (plug ctx (fork f.side f.v t f.sib)) := h
    simp only [length_cons] at hfuel
    rcases Side.eq_or_eq_flip d f.side with hside | hside
    · refine (iterate_next ?_ fuel).trans ((ih hf (rootId_fork _ _ _ _) (by omega)).trans ?_)
      · rw [hside] at hf
        simp [climbStep, h.parent_eq hx, hf.node_eq, hf.rootId_ne hx]
      · simp [ctxAfter, hside]
    have hhead : (ctxAfter d (f :: ctx)).head?.map Cell.id = some f.v.id := by simp [ctxAfter, hside]
    refine (iterate_done ?_ fuel).trans (congrArg some hhead.symm)
    · rw [hside] at hf
      have hnode := hf.node_eq
      simp [climbStep, h.parent_eq hx, hnode, hx]

section

variable (h : Rep self t) (hlist : inorder d t = pre ++ c :: post)
include h hlist

lemma rbNodeStep_spec : rbNodeStep d self c.id = some (post.head?.map Cell.id) := by
  obtain ⟨ctx, a, b, rfl, -, rfl⟩ := exists_plug_of_inorder d hlist
  have hch : (self.node c.id).child d = rootId b := by rw [h.node_eq, mkNode_child]
  cases hb : rootId b with
  | none =>
    obtain rfl : b = nil := eq_nil_of_rootId hb
    rw [rbNodeStep, hch]
    simpa using climb_loop d ctx h (rootId_fork d c nil a) h.length_ctx_lt
  | some y =>
    obtain ⟨w, hmost, hhead⟩ := h.rbNodeMost_flip hb
    rw [rbNodeStep, hch, hb]
    simp [hmost, hhead]

lemma rbNodeStepFull_loop (hfuel : post.length < fuel) :
    iterate (stepFullStep d self) fuel c.id = some ((post.find? (·.obj.isSome)).map Cell.id) := by
  induction post generalizing pre c fuel with
  | nil =>
    obtain _ | fuel := fuel
    · omega
    refine iterate_done ?_ fuel
    simp [stepFullStep, rbNodeStep_spec h hlist]
  | cons e post ih =>
    obtain _ | fuel := fuel
    · omega
    have hlist' : inorder d t = (pre ++ [c]) ++ e :: post := by simp [hlist]
    have hobj : (self.node e.id).obj = e.obj := h.whole.obj_eq hlist'
    simp only [length_cons] at hfuel
    cases he : e.obj.isSome with
    | true =>
      refine iterate_done ?_ fuel
      simp [stepFullStep, rbNodeStep_spec h hlist, hobj, he]
    | false =>
      refine (iterate_next ?_ fuel).trans ((ih hlist' (by omega)).trans ?_)
      · simp [stepFullStep, rbNodeStep_spec h hlist, hobj, he]
      · simp [he]

lemma rbNodeStepFull_spec : rbNodeStepFull d self c.id = some ((post.find? (·.obj.isSome)).map Cell.id) := by
  have hlen := h.length_inorder_le d
  rw [hlist, length_append, length_cons] at hlen
  exact rbNodeStepFull_loop h hlist (by omega)

end

/-! ## Below an empty node -/

lemma mem_ctxIds_append (f : TreeFrame (Cell α)) (inner ctx : List (TreeFrame (Cell α))) :
    f.v.id ∈ ctxIds (inner ++ f :: ctx) := by
  induction inner with
  | nil => simp [ctxIds]
  | cons g inner ih => simp [ctxIds, ih]

/-- The way up to the previous node, no further than the empty node. Induction on the path. -/
lemma climbBelow_loop (inner : List (TreeFrame (Cell α)))
    (h : Rep self (plug (inner ++ ⟨.left, e, r⟩ :: ctx) t)) (hx : rootId t = some x)
    (hfuel : inner.length < fuel) :
    iterate (climbBelowStep self e.id) fuel x = some ((ctxAfter .left inner).head?.map Cell.id) := by
  induction inner generalizing t x fuel with
  | nil =>
    obtain _ | fuel := fuel
    · omega
    refine iterate_done ?_ fuel
    simp [climbBelowStep, h.parent_eq hx]
  | cons f inner ih =>
    obtain _ | fuel := fuel
    · omega
    have hf : Rep self (plug (inner ++ ⟨.left, e, r⟩ :: ctx) (fork f.side f.v t f.sib)) := h
    have hne : f.v.id ≠ e.id := by
      intro heq
      have hmem : f.v.id ∈ ids (fork f.side f.v t f.sib) := mem_ids_of_rootId (rootId_fork _ _ _ _)
      exact (nodup_append.mp hf.nodup_plug).2.2 _ hmem _ (mem_ctxIds_append ⟨.left, e, r⟩ inner ctx) heq
    have hpar : (self.node x).parent = some f.v.id := h.parent_eq hx
    simp only [length_cons] at hfuel
    obtain ⟨side, v, sib⟩ := f
    cases side with
    | left =>
      refine (iterate_next ?_ fuel).trans ((ih hf (rootId_fork _ _ _ _) (by omega)).trans ?_)
      · have hrt : (self.node v.id).right = rootId sib := by rw [hf.node_eq]; rfl
        simp [climbBelowStep, hpar, hne, hrt, hf.rootId_ne hx]
      · simp [ctxAfter]
    | right =>
      refine iterate_done ?_ fuel
      have hrt : (self.node v.id).right = some x := by rw [hf.node_eq, ← hx]; rfl
      simp [climbBelowStep, hpar, hne, hrt, ctxAfter]

lemma rbPrevBelow_spec (h : Rep self (plug ctx (fork .left e l r))) (hlist : inorder .left l = pre ++ c :: post) :
    rbPrevBelow self e.id c.id = some (post.head?.map Cell.id) := by
  obtain ⟨inner, a, b, rfl, -, rfl⟩ := exists_plug_of_inorder .left hlist
  have hc : Rep self (plug (inner ++ ⟨.left, e, r⟩ :: ctx) (fork .left c b a)) := by
    rwa [plug_append]
  have hch : (self.node c.id).left = rootId b := by rw [hc.node_eq]; rfl
  cases hb : rootId b with
  | none =>
    obtain rfl : b = nil := eq_nil_of_rootId hb
    have hlen := hc.length_ctx_lt
    simp only [length_append, length_cons] at hlen
    rw [rbPrevBelow, hch]
    exact climbBelow_loop inner hc (rootId_fork _ _ _ _) (by omega)
  | some y =>
    obtain ⟨w, hmost, hhead⟩ : ∃ w : Cell α, rbNodeMost .right self y = some w.id ∧ _ := hc.rbNodeMost_flip hb
    rw [rbPrevBelow, hch, hb]
    simp [hmost, hhead]

end Walk

end Telephony.Ao2
