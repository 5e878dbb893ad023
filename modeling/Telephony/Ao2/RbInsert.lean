import Telephony.Ao2.RbWalk
import Telephony.Lib.Comparator

/-!
# Inserting into the red-black container

Every insertion finds a place, also around empty nodes whose objects are unknown, and the objects
stay sorted there.
-/

namespace Telephony.Ao2

open Lib Lib.BinTree Option List

section Insert

variable {α : Type} {f : α → α → ℤ} {x : α}

/-! ## Sorted objects -/

def objs (t : BinTree (Cell α)) : List α := (inorder .right t).filterMap Cell.obj

variable {t l r s b a : BinTree (Cell α)} {o : α} {bias : Bias} {cmp : ℤ} {pre post : List (Cell α)} {c v : Cell α}
  {d : Side} {self : RbTree α} {ctx : List (TreeFrame (Cell α))} {lo hi : α → Prop} {conf : RbConf α}
  {i m fuel cur root : ℕ}

lemma mem_objs (d : Side) : o ∈ objs t ↔ ∃ c ∈ inorder d t, c.obj = some o := by
  have hrev : inorder .left t = (inorder .right t).reverse := inorder_flip .right t
  cases d with
  | right => simp [objs]
  | left => simp [objs, hrev]

lemma objs_fork (v : Cell α) (l r : BinTree (Cell α)) :
    objs (fork .left v l r) = objs l ++ v.obj.toList ++ objs r := by
  cases hv : v.obj <;> simp [objs, fork, inorder, hv]

def Sorted (f : α → α → ℤ) (l : List α) : Prop := l.Pairwise fun a b => f a b ≤ 0

/-! ## Which way to go from an empty node -/

lemma goPast_eq_right (h : goPast bias cmp = .right) : cmp ≤ 0 := by
  unfold goPast at h
  split_ifs at h <;> omega

lemma goPast_eq_left (h : goPast bias cmp = .left) : 0 ≤ cmp := by
  unfold goPast at h
  split_ifs at h
  omega

lemma goBefore_eq_right (h : goBefore bias cmp = .right) : cmp ≤ 0 := by
  unfold goBefore at h
  split_ifs at h
  omega

lemma goBefore_eq_left (h : goBefore bias cmp = .left) : 0 ≤ cmp := by
  unfold goBefore at h
  split_ifs at h <;> omega

/-- What the direction depends on: no object before the empty node or none after it, the last one
before it, or the first one after it.
Source: `rb_find_empty_direction` -/
inductive Decided {β : Type} (f : α → β → ℤ) (bias : Bias) (x : β) (l r : List α) : Side → Prop
  | noneBefore (h : l = []) : Decided f bias x l r .right
  | noneAfter (h : r = []) : Decided f bias x l r .left
  | past {pre : List α} {o : α} (h : l = pre ++ [o]) : Decided f bias x l r (goPast bias (f o x))
  | before {o : α} {post : List α} (h : r = o :: post) : Decided f bias x l r (goBefore bias (f o x))

lemma objs_eq_concat (hlist : inorder .left l = pre ++ c :: post)
    (hpre : ∀ c ∈ pre, c.obj = none) (hc : c.obj = some o) :
    objs l = post.reverse.filterMap Cell.obj ++ [o] := by
  have hrev : inorder .right l = (inorder .left l).reverse := inorder_flip .left l
  have hnone : pre.reverse.filterMap Cell.obj = [] := by
    rw [filterMap_eq_nil_iff]
    exact fun c hc => hpre c (mem_reverse.mp hc)
  simp [objs, hrev, hlist, hc, hnone]

section Direction

variable {β : Type} {g : α → β → ℤ} {y : β}

variable {self : RbTree α} {ctx : List (TreeFrame (Cell α))} {e : Cell α} {l r : BinTree (Cell α)}

section

variable (bias : Bias) (h : Rep self (plug ctx (fork .left e l r)))
include h

/-- The search for an object before the empty node. Induction on what is left of the list of the
left subtree; everything seen so far is empty. -/
lemma emptyScan_loop {c : Cell α} {pre : List (Cell α)} (hlist : inorder .left l = pre ++ c :: post)
    (hnone : ∀ c' ∈ pre ++ [c], c'.obj = none) (hfuel : post.length < fuel) :
    ∃ d, iterate (emptyScanStep g bias self e.id y) fuel c.id = some d ∧ Decided g bias y (objs l) (objs r) d := by
  obtain _ | fuel := fuel
  · omega
  have hprev := rbPrevBelow_spec h hlist
  induction post generalizing pre c fuel with
  | nil =>
    refine ⟨.right, iterate_done ?_ fuel, .noneBefore ?_⟩
    · simp [emptyScanStep, hprev]
    · rw [eq_nil_iff_forall_not_mem]
      intro o ho
      obtain ⟨c', hc', hobj⟩ := (mem_objs .left).mp ho
      rw [hlist] at hc'
      simp [hnone c' hc'] at hobj
  | cons c' post ih =>
    have hlist' : inorder .left l = (pre ++ [c]) ++ c' :: post := by simp [hlist]
    have hobj : (self.node c'.id).obj = c'.obj :=
      h.down.obj_eq hlist'
    cases hc' : c'.obj with
    | some o =>
      refine ⟨goPast bias (g o y), iterate_done ?_ fuel, .past (objs_eq_concat hlist' hnone hc')⟩
      simp [emptyScanStep, hprev, hobj, hc']
    | none =>
      simp only [length_cons] at hfuel
      obtain _ | fuel := fuel
      · omega
      have hnone' : ∀ c'' ∈ pre ++ [c] ++ [c'], c''.obj = none := by
        intro c'' hmem
        rcases mem_append.mp hmem with hmem | hmem
        · exact hnone c'' hmem
        · rw [mem_singleton.mp hmem, hc']
      obtain ⟨d, hrun, hgood⟩ := ih hlist' hnone' fuel (by omega) (rbPrevBelow_spec h hlist')
      refine ⟨d, (iterate_next ?_ _).trans hrun, hgood⟩
      simp [emptyScanStep, hprev, hobj, hc']

lemma rbFindEmptyDirection_decided :
    ∃ d, rbFindEmptyDirection g bias self e.id y = some d ∧ Decided g bias y (objs l) (objs r) d := by
  have hleft : (self.node e.id).left = rootId l := by rw [h.node_eq]; rfl
  have hrt : (self.node e.id).right = rootId r := by rw [h.node_eq]; rfl
  have hl : Rep self (plug (⟨.left, e, r⟩ :: ctx) l) := h
  have hr : Rep self (plug (⟨.right, e, l⟩ :: ctx) r) := h
  cases hlroot : rootId l with
  | none =>
    obtain rfl := eq_nil_of_rootId hlroot
    exact ⟨.right, by simp [rbFindEmptyDirection, hleft], .noneBefore rfl⟩
  | some i =>
    obtain ⟨inner, w, b, rfl, hinn, hmost⟩ := rbNodeMost_spec .right hl hlroot
    obtain ⟨post, hpost⟩ : ∃ post, inorder .left (plug inner (fork .right w nil b)) = w :: post :=
      inorder_flip_most w b hinn
    have hlist : inorder .left (plug inner (fork .right w nil b)) = [] ++ w :: post := hpost
    have hw := hl.obj_eq hlist
    cases hobj : w.obj with
    | some o =>
      refine ⟨goPast bias (g o y), ?_, .past (objs_eq_concat hlist (by simp) hobj)⟩
      simp [rbFindEmptyDirection, hleft, hlroot, hmost, hw, hobj]
    | none =>
      cases hrroot : rootId r with
      | none =>
        obtain rfl := eq_nil_of_rootId hrroot
        refine ⟨.left, ?_, .noneAfter rfl⟩
        simp [rbFindEmptyDirection, hleft, hrt, hlroot, hmost, hw, hobj]
      | some j =>
        obtain ⟨inner', w', b', rfl, hinn', hmost'⟩ := rbNodeMost_spec .left hr hrroot
        obtain ⟨rest, hrest⟩ : ∃ rest, inorder .right (plug inner' (fork .left w' nil b')) = w' :: rest :=
          inorder_flip_most w' b' hinn'
        have hw' := hr.obj_eq (show inorder .right _ = [] ++ w' :: rest from hrest)
        cases hobj' : w'.obj with
        | some o =>
          have hfst : objs (plug inner' (fork .left w' nil b')) = o :: rest.filterMap Cell.obj := by
            simp [objs, hrest, hobj']
          refine ⟨goBefore bias (g o y), ?_, .before hfst⟩
          simp [rbFindEmptyDirection, hleft, hrt, hlroot, hrroot, hmost, hmost', hw, hw', hobj, hobj']
        | none =>
          have hlen := h.length_inorder_le .left
          rw [inorder_plug, inorder_fork, hlist] at hlen
          simp only [length_append, length_cons] at hlen
          obtain ⟨d, hrun, hgood⟩ := emptyScan_loop (y := y) bias h hlist (by simp [hobj])
            (show post.length < self.fresh by omega)
          refine ⟨d, ?_, hgood⟩
          simp [rbFindEmptyDirection, hleft, hrt, hlroot, hrroot, hmost, hmost', hw, hw', hobj, hobj', hrun]

end

end Direction

def GoodSide (f : α → α → ℤ) (x : α) (l r : List α) (d : Side) : Prop :=
  (d = .right → ∀ o ∈ l, f o x ≤ 0) ∧ (d = .left → ∀ o ∈ r, 0 ≤ f o x)

lemma Decided.goodSide (hf : Comparator f) {l r : List α} (h : Decided f bias x l r d)
    (hsort : Sorted f (l ++ r)) : GoodSide f x l r d := by
  cases h with
  | noneBefore hl =>
    subst hl
    exact ⟨nofun, nofun⟩
  | noneAfter hr =>
    subst hr
    exact ⟨nofun, nofun⟩
  | @past pre o hl =>
    rw [hl, append_assoc] at hsort
    obtain ⟨hbef, haft⟩ := pairwise_around hsort
    refine ⟨fun hd a ha => ?_, fun hd a ha => hf.ge_of_ge_of_le (goPast_eq_left hd) (haft a ha)⟩
    have hox := goPast_eq_right hd
    rw [hl] at ha
    rcases mem_append.mp ha with ha | ha
    · exact hf.trans a o x (hbef a ha) hox
    · rwa [mem_singleton.mp ha]
  | @before o post hr =>
    rw [hr] at hsort
    obtain ⟨hbef, haft⟩ := pairwise_around hsort
    refine ⟨fun hd a ha => hf.trans a o x (hbef a ha) (goBefore_eq_right hd), fun hd a ha => ?_⟩
    have hox := goBefore_eq_left hd
    rw [hr] at ha
    rcases mem_cons.mp ha with rfl | ha
    · exact hox
    · exact hf.ge_of_ge_of_le hox (haft a ha)

lemma rbFindEmptyDirection_spec (hf : Comparator f) {e : Cell α} (bias : Bias)
    (h : Rep self (plug ctx (fork .left e l r))) (hsort : Sorted f (objs l ++ objs r)) :
    ∃ d, rbFindEmptyDirection f bias self e.id x = some d ∧ GoodSide f x (objs l) (objs r) d := by
  obtain ⟨d, hd, hdecided⟩ := rbFindEmptyDirection_decided bias h
  exact ⟨d, hd, hdecided.goodSide hf hsort⟩

/-! ## The place of a new node -/

/-- What comes before the end of a path in one direction satisfies `lo`, and what comes after it
`hi`. -/
def Between (d : Side) (lo hi : α → Prop) (ctx : List (TreeFrame (Cell α))) : Prop :=
  (∀ c ∈ ctxBefore d ctx, ∀ o, c.obj = some o → lo o) ∧ ∀ c ∈ ctxAfter d ctx, ∀ o, c.obj = some o → hi o

lemma Between.flip (h : Between d lo hi ctx) (hv : ∀ o, v.obj = some o → hi o) (ht : ∀ o ∈ objs t, hi o) :
    Between d lo hi (⟨d.flip, v, t⟩ :: ctx) := by
  constructor
  · intro c hc
    rw [ctxBefore, if_neg (Side.flip_ne d), append_nil] at hc
    exact h.1 c hc
  · intro c hc o ho
    rw [ctxAfter, if_neg (Side.flip_ne d), cons_append, mem_cons, mem_append] at hc
    rcases hc with rfl | hc | hc
    · exact hv o ho
    · exact ht o ((mem_objs d).mpr ⟨c, hc, ho⟩)
    · exact h.2 c hc o ho

lemma Between.same (h : Between d lo hi ctx) (hv : ∀ o, v.obj = some o → lo o) (hs : ∀ o ∈ objs s, lo o) :
    Between d lo hi (⟨d, v, s⟩ :: ctx) := by
  constructor
  · intro c hc o ho
    rw [ctxBefore, if_pos rfl, mem_append, mem_append, mem_singleton] at hc
    rcases hc with hc | hc | rfl
    · exact h.1 c hc o ho
    · exact hs o ((mem_objs d).mpr ⟨c, hc, ho⟩)
    · exact hv o ho
  · intro c hc
    rw [ctxAfter, if_pos rfl] at hc
    exact h.2 c hc

/-- `x` fits at the end of a path: what comes before is not larger, and what comes after not
smaller. -/
def Fits (f : α → α → ℤ) (x : α) (ctx : List (TreeFrame (Cell α))) : Prop :=
  (∀ c ∈ ctxBefore .right ctx, ∀ o, c.obj = some o → f o x ≤ 0) ∧
    ∀ c ∈ ctxAfter .right ctx, ∀ o, c.obj = some o → 0 ≤ f o x

lemma Fits.left (h : Fits f x ctx) (hv : ∀ o, v.obj = some o → 0 ≤ f o x) (hr : ∀ o ∈ objs r, 0 ≤ f o x) :
    Fits f x (⟨.left, v, r⟩ :: ctx) :=
  (show Between .right (fun o => f o x ≤ 0) (fun o => 0 ≤ f o x) ctx from h).flip hv hr

lemma Fits.right (h : Fits f x ctx) (hv : ∀ o, v.obj = some o → f o x ≤ 0) (hl : ∀ o ∈ objs l, f o x ≤ 0) :
    Fits f x (⟨.right, v, l⟩ :: ctx) :=
  (show Between .right (fun o => f o x ≤ 0) (fun o => 0 ≤ f o x) ctx from h).same hv hl

def GoodPlace (conf : RbConf α) (x : α) (t : BinTree (Cell α)) (place : Place) : Prop :=
  (∃ ctx d c b, place = .child c.id d ∧ t = plug (⟨d, c, b⟩ :: ctx) nil ∧
      Fits conf.sortFn x (⟨d, c, b⟩ :: ctx)) ∨
    ∃ ctx c a b o, place = .dup c.id ∧ t = plug ctx (fork .left c a b) ∧ c.obj = some o ∧
      conf.sortFn o x = 0 ∧ conf.bias = .equal

lemma objs_plug (ctx : List (TreeFrame (Cell α))) (t : BinTree (Cell α)) :
    objs (plug ctx t) = (ctxBefore .right ctx).filterMap Cell.obj ++ objs t ++
      (ctxAfter .right ctx).filterMap Cell.obj := by
  simp [objs, inorder_plug]

lemma descend_eq (h : Rep self (plug ctx (fork d v t s))) :
    self.descend v.id d =
      match rootId t with
      | some c => .inl c
      | none => .inr (.child v.id d) := by
  have hch : (self.node v.id).child d = rootId t := by rw [h.node_eq, mkNode_child]
  cases hroot : rootId t with
  | none | some c => simp [RbTree.descend, hch, hroot]

section

variable (hf : Comparator conf.sortFn)
include hf

lemma findPlaceStep_spec (h : Rep self (plug ctx (fork .left v l r)))
    (hsort : Sorted conf.sortFn (objs (plug ctx (fork .left v l r)))) (hfits : Fits conf.sortFn x ctx) :
    (∃ d, findPlaceStep conf self x v.id = some (self.descend v.id d) ∧
      (d = .left → Fits conf.sortFn x (⟨.left, v, r⟩ :: ctx)) ∧
      (d = .right → Fits conf.sortFn x (⟨.right, v, l⟩ :: ctx))) ∨
    (findPlaceStep conf self x v.id = some (.inr (.dup v.id)) ∧
      ∃ o, v.obj = some o ∧ conf.sortFn o x = 0 ∧ conf.bias = .equal) := by
  have hsub : Sorted conf.sortFn (objs l ++ v.obj.toList ++ objs r) := by
    rw [objs_plug, objs_fork, append_assoc] at hsort
    exact (pairwise_append.mp (pairwise_append.mp hsort).2.1).1
  have hobj : (self.node v.id).obj = v.obj := by rw [h.node_eq, mkNode_obj]
  cases hv : v.obj with
  | none =>
    rw [hv, toList_none, append_nil] at hsub
    obtain ⟨d, hd, hrt, hleft⟩ := rbFindEmptyDirection_spec (x := x) hf conf.bias h hsub
    refine .inl ⟨d, ?_, fun hd' => hfits.left (by simp [hv]) (hleft hd'),
      fun hd' => hfits.right (by simp [hv]) (hrt hd')⟩
    simp [findPlaceStep, hobj, hv, hd]
  | some o =>
    rw [hv, toList_some, append_assoc] at hsub
    obtain ⟨hbef, haft⟩ := pairwise_around hsub
    have hleft : 0 ≤ conf.sortFn o x → Fits conf.sortFn x (⟨.left, v, r⟩ :: ctx) := by
      intro hcmp
      refine hfits.left ?_ fun a ha => hf.ge_of_ge_of_le hcmp (haft a ha)
      intro o' ho'
      obtain rfl : o = o' := by simpa [hv] using ho'
      exact hcmp
    have hrt : conf.sortFn o x ≤ 0 → Fits conf.sortFn x (⟨.right, v, l⟩ :: ctx) := by
      intro hcmp
      refine hfits.right ?_ fun a ha => hf.trans a o x (hbef a ha) hcmp
      intro o' ho'
      obtain rfl : o = o' := by simpa [hv] using ho'
      exact hcmp
    rcases lt_trichotomy (conf.sortFn o x) 0 with hcmp | hcmp | hcmp
    · refine .inl ⟨.right, ?_, by simp, fun _ => hrt hcmp.le⟩
      simp [findPlaceStep, hobj, hv, hcmp, not_lt.mpr hcmp.le]
    · cases hbias : conf.bias with
      | first =>
        refine .inl ⟨.left, ?_, fun _ => hleft hcmp.ge, by simp⟩
        simp [findPlaceStep, hobj, hv, hcmp, hbias]
      | last =>
        refine .inl ⟨.right, ?_, by simp, fun _ => hrt hcmp.le⟩
        simp [findPlaceStep, hobj, hv, hcmp, hbias]
      | equal =>
        simp [findPlaceStep, hobj, hv, hcmp, hbias]
    · refine .inl ⟨.left, ?_, fun _ => hleft hcmp.le, by simp⟩
      simp [findPlaceStep, hobj, hv, hcmp]

lemma findPlace_loop (h : Rep self (plug ctx t))
    (hsort : Sorted conf.sortFn (objs (plug ctx t))) (hfits : Fits conf.sortFn x ctx)
    (hcur : rootId t = some cur) (hfuel : (ids t).length ≤ fuel) :
    ∃ place, iterate (findPlaceStep conf self x) fuel cur = some place ∧ GoodPlace conf x (plug ctx t) place := by
  induction fuel generalizing ctx t cur with
  | zero =>
    exact absurd hfuel (Nat.not_le.mpr (length_ids_pos hcur))
  | succ fuel ih =>
    obtain ⟨v, l, r, rfl, rfl⟩ := exists_fork_of_rootId hcur .left
    rcases findPlaceStep_spec hf h hsort hfits with ⟨d, hstep, hleft, hrt⟩ | ⟨hstep, o, ho, hcmp, hbias⟩
    · -- the two sides are one case, seen from side `d`
      obtain ⟨t, s, hside⟩ := fork_eq_fork .left d v l r
      rw [hside] at h hsort hfuel ⊢
      have hfits' : Fits conf.sortFn x (⟨d, v, s⟩ :: ctx) := by
        cases d with
        | left =>
          simp only [fork, node.injEq] at hside
          rw [← hside.2.2]
          exact hleft rfl
        | right =>
          simp only [fork, node.injEq] at hside
          rw [← hside.2.1]
          exact hrt rfl
      rw [descend_eq h] at hstep
      cases ht : rootId t with
      | none =>
        obtain rfl := eq_nil_of_rootId ht
        exact ⟨_, iterate_done hstep fuel, .inl ⟨ctx, d, v, s, rfl, rfl, hfits'⟩⟩
      | some c =>
        rw [ht] at hstep
        have hlen := (ids_fork_perm d v t s).length_eq
        simp only [length_cons, length_append] at hlen
        obtain ⟨place, hrun, hgood⟩ :=
          ih h.down hsort hfits' ht (by omega)
        exact ⟨place, (iterate_next hstep fuel).trans hrun, hgood⟩
    · exact ⟨_, iterate_done hstep fuel, .inr ⟨ctx, v, l, r, o, rfl, rfl, ho, hcmp, hbias⟩⟩

lemma rbFindPlace_spec (h : Rep self t) (hsort : Sorted conf.sortFn (objs t)) (hroot : rootId t = some root) :
    ∃ place, rbFindPlace conf self x root = some place ∧ GoodPlace conf x t place :=
  findPlace_loop hf h.whole hsort ⟨by simp, by simp⟩ hroot h.length_ids_le

end

/-! ## Attaching a node -/

structure NewNode (c : RbTree α) (t : BinTree (Cell α)) (i : ℕ) (x : α) (red : Bool) : Prop where
  node_eq : c.node i = ⟨some x, none, none, none, red⟩
  notMem : i ∉ ids t
  lt_fresh : i < c.fresh

lemma Rep.hang (h : Rep self (plug (⟨d, c, b⟩ :: ctx) nil))
    (hnew : NewNode self (plug (⟨d, c, b⟩ :: ctx) nil) i x true) :
    Rep ((self.setChild c.id d (some i)).setParent i (some c.id))
      (plug (⟨d, c, b⟩ :: ctx) (fork .left ⟨i, some x, true⟩ nil nil)) := by
  have hids : ∀ j, j ∈ ctxIds (⟨d, c, b⟩ :: ctx) → j ≠ i ∧ j < self.fresh := by
    intro j hj
    have hmem : j ∈ ids (plug (⟨d, c, b⟩ :: ctx) nil) := mem_ids_plug.mpr (.inr hj)
    refine ⟨?_, h.lt_fresh j hmem⟩
    rintro rfl
    exact hnew.notMem hmem
  have hci : c.id ≠ i := (hids c.id (by simp [ctxIds])).1
  have hnd : (ctxIds (⟨d, c, b⟩ :: ctx)).Nodup := by simpa [ids] using h.nodup_plug
  have hnd' := hnd
  rw [ctxIds, nodup_cons] at hnd'
  obtain ⟨hctx, -⟩ := owns_plug.mp h.owns
  refine Rep.of_parts ?_ ?_ ?_ ?_ ?_
  · exact h.root_eq.trans (rootId_plug_cons _ _ _ _)
  · refine hctx.relink ?_ ?_
    · rw [setParent_node, if_neg hci, setChild_node, if_pos rfl, rootId_fork]
    · intro j hj
      have hji : j ≠ i := (hids j (by exact mem_cons_of_mem _ hj)).1
      have hjc : j ≠ c.id := by
        rintro rfl
        exact hnd'.1 hj
      rw [setParent_node, if_neg hji, setChild_node, if_neg hjc]
  · refine owns_fork.mpr ⟨?_, trivial, trivial⟩
    rw [setParent_node, if_pos rfl, setChild_node, if_neg (Ne.symm hci), hnew.node_eq]
    rfl
  · rw [fork, ids, ids, append_nil, singleton_append, nodup_cons]
    exact ⟨fun hi => (hids i hi).1 rfl, hnd⟩
  · intro j hj
    rw [fork, ids, ids, append_nil, singleton_append, mem_cons] at hj
    rcases hj with rfl | hj
    · exact hnew.lt_fresh
    · exact (hids j hj).2

lemma objs_eq_listing (t : BinTree (Cell α)) : objs t = (listing t).filterMap Prod.snd := by
  simp [objs, listing]

def Effect (f : α → α → ℤ) (i : ℕ) (x : α) (res : InsertResult) (l l' : List (ℕ × Option α)) : Prop :=
  match res with
  | .inserted => ∃ pre post, l = pre ++ post ∧ l' = pre ++ (i, some x) :: post
  | .objReplaced => ∃ pre post j o, l = pre ++ (j, some o) :: post ∧ l' = pre ++ (j, some x) :: post ∧
      f o x = 0
  | .rejected => l' = l ∧ ∃ j o, (j, some o) ∈ l ∧ f o x = 0

structure Done (f : α → α → ℤ) (c : RbTree α) (t : BinTree (Cell α)) (i : ℕ) (x : α)
    (res : InsertResult) (c' : RbTree α) (t' : BinTree (Cell α)) : Prop where
  sameMeta : SameMeta c c'
  rep : Rep c' t'
  balanced : ∃ m, Balanced Cell.red t' false m
  sorted : Sorted f (objs t')
  effect : Effect f i x res (listing t) (listing t')

lemma rbAttach_spec (hf : Comparator f) (h : Rep self (plug (⟨d, c, b⟩ :: ctx) nil))
    (hbal : Balanced Cell.red (plug (⟨d, c, b⟩ :: ctx) nil) false m)
    (hsort : Sorted f (objs (plug (⟨d, c, b⟩ :: ctx) nil)))
    (hnew : NewNode self (plug (⟨d, c, b⟩ :: ctx) nil) i x true) (hfits : Fits f x (⟨d, c, b⟩ :: ctx)) :
    ∃ self' t', rbAttach self c.id d i = some self' ∧
      Done f self (plug (⟨d, c, b⟩ :: ctx) nil) i x .inserted self' t' := by
  obtain ⟨_, n, hnil, hctx, -⟩ := balanced_plug hbal
  cases hnil
  obtain ⟨self', t', m', hrun, hfix, hbal'⟩ :=
    rbInsertFixup_spec (h.hang hnew) (.fork_red rfl .nil .nil) hctx
  refine ⟨self', t', hrun, { hfix.sameMeta with }, hfix.rep, ⟨m', hbal'⟩, ?_, ?_⟩
  · rw [objs_eq_listing, hfix.listing_eq, ← objs_eq_listing, objs_plug]
    rw [objs_plug] at hsort
    have hleaf : objs (fork .left (⟨i, some x, true⟩ : Cell α) nil nil) = [x] := rfl
    rw [hleaf, append_assoc]
    refine pairwise_insert_between hf (by simpa [objs, Sorted] using hsort) ?_ ?_
    · intro o ho
      obtain ⟨c, hc, hobj⟩ := mem_filterMap.mp ho
      exact hfits.1 c hc o hobj
    · intro o ho
      obtain ⟨c, hc, hobj⟩ := mem_filterMap.mp ho
      exact hfits.2 c hc o hobj
  · refine ⟨(ctxBefore .right (⟨d, c, b⟩ :: ctx)).map fun c => (c.id, c.obj),
      (ctxAfter .right (⟨d, c, b⟩ :: ctx)).map fun c => (c.id, c.obj), ?_, ?_⟩
    · rw [listing, inorder_plug]
      simp
    · rw [hfix.listing_eq, listing, inorder_plug]
      simp [fork, inorder]

/-! ## Duplicates -/

section Duplicates

variable [DecidableEq α] {conf : RbConf α}

variable {self : RbTree α} {t : BinTree (Cell α)} {c : Cell α} {o : α}

/-- The loop over the duplicates. Induction on the rounds that are left; every node reached has an
object equal to the new one. -/
lemma scanDups_loop {d : Side} {pre : List (Cell α)} (h : Rep self t)
    (hlist : inorder d t = pre ++ c :: post) (hobj : c.obj = some o) (hcmp : conf.sortFn o x = 0)
    (hfuel : post.length < fuel) :
    ∃ same c' pre' post' o', iterate (scanDupsStep conf self x d) fuel c.id = some (same, c'.id) ∧
      inorder d t = pre' ++ c' :: post' ∧ c'.obj = some o' ∧ conf.sortFn o' x = 0 := by
  induction fuel generalizing pre c post o with
  | zero => omega
  | succ fuel ih =>
    have hnext := rbNodeStepFull_spec h hlist
    cases hfind : post.find? (·.obj.isSome) with
    | none =>
      refine ⟨false, c, pre, post, o, iterate_done ?_ fuel, hlist, hobj, hcmp⟩
      simp [scanDupsStep, hnext, hfind]
    | some n =>
      obtain ⟨hsome, p, q, rfl, -⟩ := find?_eq_some_iff_append.mp hfind
      obtain ⟨o₂, ho₂⟩ := isSome_iff_exists.mp hsome
      have hlist' : inorder d t = (pre ++ c :: p) ++ n :: q := by simp [hlist]
      have hn : (self.node n.id).obj = some o₂ := by rw [h.whole.obj_eq hlist', ho₂]
      by_cases hsame : o₂ = x
      · refine ⟨true, c, pre, _, o, iterate_done ?_ fuel, hlist, hobj, hcmp⟩
        simp [scanDupsStep, hnext, hfind, hn, hsame]
      by_cases heq : conf.sortFn o₂ x = 0
      · simp only [length_append, length_cons] at hfuel
        obtain ⟨same, c', pre', post', o', hrun, hrest⟩ := ih hlist' ho₂ heq (by omega)
        refine ⟨same, c', pre', post', o', (iterate_next ?_ fuel).trans hrun, hrest⟩
        simp [scanDupsStep, hnext, hfind, hn, hsame, heq]
      · refine ⟨false, c, pre, _, o, iterate_done ?_ fuel, hlist, hobj, hcmp⟩
        simp [scanDupsStep, hnext, hfind, hn, hsame, heq]

lemma rbScanDups_spec {ctx : List (TreeFrame (Cell α))} {a b : BinTree (Cell α)} (h : Rep self t)
    (ht : t = plug ctx (fork .left c a b)) (hobj : c.obj = some o) (hcmp : conf.sortFn o x = 0) (d : Side) :
    ∃ same c' ctx' a' b' o', rbScanDups conf self x d c.id = some (same, c'.id) ∧
      t = plug ctx' (fork d c' b' a') ∧ c'.obj = some o' ∧ conf.sortFn o' x = 0 := by
  obtain ⟨b₁, a₁, hside⟩ := fork_eq_fork .left d c a b
  have hlist : inorder d t = (ctxBefore d ctx ++ inorder d a₁) ++ c :: (inorder d b₁ ++ ctxAfter d ctx) := by
    rw [ht, hside, inorder_plug]
    simp
  have hlen := h.length_inorder_le d
  rw [hlist, length_append, length_cons] at hlen
  obtain ⟨same, c', pre', post', o', hrun, hlist', hobj', hcmp'⟩ :=
    scanDups_loop h hlist hobj hcmp (show _ < self.fresh + 1 by omega)
  obtain ⟨ctx', a', b', ht', -, -⟩ := exists_plug_of_inorder d hlist'
  exact ⟨same, c', ctx', a', b', o', hrun, ht', hobj', hcmp'⟩

end Duplicates

lemma fits_next (hf : Comparator f) (hsort : Sorted f (objs (plug ctx nil)))
    (hbef : ctxBefore d ctx = pre ++ [c]) (hobj : c.obj = some o) (hcmp : f o x = 0) :
    Fits f x ctx := by
  have hle : ∀ a, f a o ≤ 0 ∨ a = o → f a x ≤ 0 := by
    rintro a (ha | rfl)
    · exact hf.trans a o x ha hcmp.le
    · exact hcmp.le
  have hge : ∀ a, f o a ≤ 0 ∨ a = o → 0 ≤ f a x := by
    rintro a (ha | rfl)
    · exact hf.ge_of_ge_of_le hcmp.ge ha
    · exact hcmp.ge
  have hnil : objs (nil : BinTree (Cell α)) = [] := rfl
  rw [objs_plug, hnil, append_nil] at hsort
  cases d with
  | right =>
    rw [hbef, filterMap_append, append_assoc] at hsort
    simp only [filterMap_cons, hobj] at hsort
    obtain ⟨h₁, h₂⟩ := pairwise_around hsort
    refine ⟨fun c' hc' a ha => hle a ?_, fun c' hc' a ha =>
      hge a (.inl (h₂ a (mem_filterMap.mpr ⟨c', hc', ha⟩)))⟩
    rw [hbef, mem_append, mem_singleton] at hc'
    rcases hc' with hc' | rfl
    · exact .inl (h₁ a (mem_filterMap.mpr ⟨c', hc', ha⟩))
    · exact .inr (by simpa [hobj] using ha.symm)
  | left =>
    have haft : ctxAfter .right ctx = c :: pre.reverse := by
      have := ctxAfter_flip .left ctx
      rw [hbef] at this
      simpa [Side.flip] using this
    rw [haft, filterMap_cons, hobj] at hsort
    obtain ⟨h₁, h₂⟩ := pairwise_around hsort
    refine ⟨fun c' hc' a ha => hle a (.inl (h₁ a (mem_filterMap.mpr ⟨c', hc', ha⟩))), fun c' hc' a ha => hge a ?_⟩
    rw [haft, mem_cons] at hc'
    rcases hc' with rfl | hc'
    · exact .inr (by simpa [hobj] using ha.symm)
    · exact .inl (h₂ a (mem_filterMap.mpr ⟨c', hc', ha⟩))

lemma rbAttachNext_spec (hf : Comparator f) (h : Rep self (plug ctx (fork d c b a)))
    (hbal : Balanced Cell.red (plug ctx (fork d c b a)) false m)
    (hsort : Sorted f (objs (plug ctx (fork d c b a)))) (hnew : NewNode self (plug ctx (fork d c b a)) i x true)
    (hobj : c.obj = some o) (hcmp : f o x = 0) :
    ∃ self' t', rbAttachNext self d c.id i = some self' ∧
      Done f self (plug ctx (fork d c b a)) i x .inserted self' t' := by
  have hch : (self.node c.id).child d = rootId b := by rw [h.node_eq, mkNode_child]
  cases hb : rootId b with
  | none =>
    obtain rfl := eq_nil_of_rootId hb
    have hbef : ctxBefore d (⟨d, c, a⟩ :: ctx) = (ctxBefore d ctx ++ inorder d a) ++ [c] := by simp [ctxBefore]
    rw [rbAttachNext, hch]
    exact rbAttach_spec hf h hbal hsort hnew (fits_next hf hsort hbef hobj hcmp)
  | some y =>
    obtain ⟨inner, w, b', rfl, hinn, hmost⟩ :=
      rbNodeMost_spec d.flip h.down hb
    have hpl : plug ctx (fork d c (plug inner (fork d.flip w nil b')) a) =
        plug (⟨d.flip, w, b'⟩ :: (inner ++ ⟨d, c, a⟩ :: ctx)) nil := by
      rw [plug_cons, plug_append]
      rfl
    have hbef : ctxBefore d (⟨d.flip, w, b'⟩ :: (inner ++ ⟨d, c, a⟩ :: ctx)) =
        (ctxBefore d ctx ++ inorder d a) ++ [c] := by
      simp [ctxBefore, ctxBefore_append, ctxBefore_eq_nil hinn]
    rw [hpl] at h hbal hsort hnew ⊢
    obtain ⟨self', t', hrun, hdone⟩ :=
      rbAttach_spec hf h hbal hsort hnew (fits_next hf hsort hbef hobj hcmp)
    exact ⟨self', t', by simp [rbAttachNext, hch, hb, hmost, hrun], hdone⟩

/-! ## Inserting a node -/

lemma Done.rejected (h : Rep self (plug ctx (fork .left c a b)))
    (hbal : Balanced Cell.red (plug ctx (fork .left c a b)) false m)
    (hsort : Sorted f (objs (plug ctx (fork .left c a b)))) (hobj : c.obj = some o) (hcmp : f o x = 0) (i : ℕ) :
    Done f self (plug ctx (fork .left c a b)) i x .rejected self (plug ctx (fork .left c a b)) := by
  obtain ⟨pre, post, hlist⟩ := listing_plug_fork ctx .left a b
  exact ⟨.rfl, h, ⟨m, hbal⟩, hsort, rfl, c.id, o, by simp [hlist, hobj], hcmp⟩

section InsertNode

variable [DecidableEq α] {conf : RbConf α}

variable {self : RbTree α} {t : BinTree (Cell α)} {i m : ℕ}

lemma rbInsertDup_spec (hf : Comparator conf.sortFn) {ctx : List (TreeFrame (Cell α))} {c : Cell α}
    {a b : BinTree (Cell α)} {o : α} (h : Rep self t) (hbal : Balanced Cell.red t false m)
    (hsort : Sorted conf.sortFn (objs t)) (hnew : NewNode self t i x true)
    (ht : t = plug ctx (fork .left c a b)) (hobj : c.obj = some o) (hcmp : conf.sortFn o x = 0) :
    ∃ res self' t', rbInsertDup conf self i x c.id = some (res, self') ∧
      (res = .inserted ∨ res = .rejected) ∧ Done conf.sortFn self t i x res self' t' := by
  have hc : (self.node c.id).obj = some o := by
    rw [ht] at h
    rw [h.node_eq, mkNode_obj, hobj]
  have hrej : Done conf.sortFn self t i x .rejected self t := by
    subst ht
    exact .rejected h hbal hsort hobj hcmp i
  by_cases hsame : o = x
  · exact ⟨.rejected, self, t, by simp [rbInsertDup, hc, hsame], .inr rfl, hrej⟩
  set d := if conf.insertBegin then Side.left else Side.right with hd
  obtain ⟨same₁, c₁, -, -, -, -, hscan₁, -⟩ := rbScanDups_spec h ht hobj hcmp d.flip
  obtain ⟨same₂, c₂, ctx₂, a₂, b₂, o₂, hscan₂, rfl, hobj₂, hcmp₂⟩ := rbScanDups_spec h ht hobj hcmp d
  have hrun : rbInsertDup conf self i x c.id =
      if same₁ then some (.rejected, self) else if same₂ then some (.rejected, self) else
        (rbAttachNext self d c₂.id i).map (.inserted, ·) := by
    simp [rbInsertDup, hc, hsame, ← hd, hscan₁, hscan₂]
  cases same₁ with
  | true => exact ⟨.rejected, self, _, by simp [hrun], .inr rfl, hrej⟩
  | false =>
    cases same₂ with
    | true => exact ⟨.rejected, self, _, by simp [hrun], .inr rfl, hrej⟩
    | false =>
      obtain ⟨self', t', hatt, hdone⟩ := rbAttachNext_spec hf h hbal hsort hnew hobj₂ hcmp₂
      exact ⟨.inserted, self', t', by simp [hrun, hatt], .inl rfl, hdone⟩

/-- Source: `rb_ao2_insert_node` (the `switch` over the duplicate options) -/
def RbConf.Permits (conf : RbConf α) : InsertResult → Prop
  | .inserted => True
  | .objReplaced => conf.dups = .replace
  | .rejected => conf.dups = .reject ∨ conf.dups = .objReject

lemma rbAo2InsertNode_spec (hf : Comparator conf.sortFn) (h : Rep self t) (hbal : Balanced Cell.red t false m)
    (hsort : Sorted conf.sortFn (objs t)) (hnew : NewNode self t i x false) :
    ∃ res self' t', rbAo2InsertNode conf self i x = some (res, self') ∧ conf.Permits res ∧
      Done conf.sortFn self t i x res self' t' := by
  cases hroot : rootId t with
  | none =>
    obtain rfl := eq_nil_of_rootId hroot
    refine ⟨.inserted, { self with root := some i }, fork .left ⟨i, some x, false⟩ nil nil, ?_, trivial,
      ⟨rfl, rfl, rfl⟩, ?_, ⟨1, .fork_black rfl .nil .nil⟩, by simp [objs, Sorted, fork, inorder],
      ⟨[], [], rfl, rfl⟩⟩
    · simp [rbAo2InsertNode, h.root_eq]
    · refine ⟨rfl, owns_fork.mpr ⟨hnew.node_eq, trivial, trivial⟩, by simp [fork, ids], ?_⟩
      intro j hj
      obtain rfl : j = i := by simpa [fork, ids] using hj
      exact hnew.lt_fresh
  | some root =>
    have hrep : Rep (self.setRed i true) t := by
      refine h.congr rfl le_rfl fun j hj => ?_
      rw [setRed_node, if_neg]
      rintro rfl
      exact hnew.notMem hj
    have hred : NewNode (self.setRed i true) t i x true :=
      { hnew with node_eq := by rw [setRed_node, if_pos rfl, hnew.node_eq] }
    have hself : self.root = some root := h.root_eq.trans hroot
    have hlift : ∀ {res self' t'}, Done conf.sortFn (self.setRed i true) t i x res self' t' →
        Done conf.sortFn self t i x res self' t' :=
      fun hdone => ⟨hdone.sameMeta.of_setRed, hdone.rep, hdone.balanced, hdone.sorted, hdone.effect⟩
    obtain ⟨place, hpl, hgood⟩ := rbFindPlace_spec (x := x) hf hrep hsort hroot
    rcases hgood with ⟨ctx, d, c, b, rfl, rfl, hfits⟩ | ⟨ctx, c, a, b, o, rfl, rfl, hobj, hcmp, hbias⟩
    · obtain ⟨self', t', hatt, hdone⟩ := rbAttach_spec hf hrep hbal hsort hred hfits
      refine ⟨.inserted, self', t', ?_, trivial, hlift hdone⟩
      simp [rbAo2InsertNode, hself, hpl, hatt]
    have hrej := hlift (.rejected hrep hbal hsort hobj hcmp i)
    simp only [rbAo2InsertNode, hself, hpl]
    cases hdups : conf.dups with
    | allow =>
      -- the search never ends at an equal object then
      simp only [RbConf.bias, hdups] at hbias
      split_ifs at hbias
    | reject => exact ⟨.rejected, _, _, rfl, .inl hdups, hrej⟩
    | objReject =>
      obtain ⟨res, self', t', hdup, hres, hdone⟩ :=
        rbInsertDup_spec hf hrep hbal hsort hred rfl hobj hcmp
      refine ⟨res, self', t', hdup, ?_, hlift hdone⟩
      rcases hres with rfl | rfl
      · trivial
      · exact .inr hdups
    | replace =>
      refine ⟨.objReplaced, _, _, rfl, hdups, ⟨rfl, rfl, rfl⟩, hrep.setObj (some x),
        hbal.replace (w := { c with obj := some x }) rfl, ?_, ?_⟩
      · rw [objs_plug, objs_fork, hobj] at hsort
        rw [objs_plug, objs_fork, toList_some]
        simp only [append_assoc] at hsort ⊢
        rw [← append_assoc] at hsort ⊢
        exact pairwise_replace hf hsort hcmp
      · obtain ⟨pre, post, hlist⟩ := listing_plug_fork ctx .left a b
        exact ⟨pre, post, c.id, o, by rw [hlist, hobj], hlist _, hcmp⟩

end InsertNode

end Insert

end Telephony.Ao2
