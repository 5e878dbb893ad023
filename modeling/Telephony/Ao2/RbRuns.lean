import Telephony.Ao2.RbDelete
import Telephony.Lib.Runs

/-!
# Runs of the red-black container

The operations on a container in any order: objects are linked, the objects of linked nodes are
taken out while the nodes stay in the tree, and empty nodes are destroyed.
-/

namespace Telephony.Ao2

open Lib Lib.BinTree List Function

section Runs

variable {α : Type}

/-! ## Runs -/

def rbStep [DecidableEq α] (conf : RbConf α) (self : RbTree α) : ContainerOp α → Option (RbTree α)
  | .link obj => (self.link conf obj).map Prod.snd
  | .unlinkObj i => some (self.unlinkObj i)
  | .destroyNode i => self.destroyNode i

def rbRun [DecidableEq α] (conf : RbConf α) (ops : List (ContainerOp α)) (self : RbTree α) : Option (RbTree α) :=
  ops.foldlM (rbStep conf) self

def RbTree.objects (self : RbTree α) : List α :=
  ((range self.fresh).filter self.isLinked).filterMap fun i => (self.node i).obj

/-- How an operation changes the objects in the container, in any order.
Source: `rb_ao2_insert_node`, `__container_unlink_node_debug` -/
def Changes [DecidableEq α] (conf : RbConf α) (self : RbTree α) (op : ContainerOp α) (self' : RbTree α) : Prop :=
  match op with
  | .link x =>
    ∃ res, self.link conf x = some (res, self') ∧ conf.Permits res ∧
      match res with
      | .inserted => self'.objects.Perm (x :: self.objects)
      | .objReplaced => ∃ o rest, conf.sortFn o x = 0 ∧ self.objects.Perm (o :: rest) ∧
          self'.objects.Perm (x :: rest)
      | .rejected => self'.objects.Perm self.objects ∧ ∃ o ∈ self.objects, conf.sortFn o x = 0
  | .unlinkObj i =>
    match if self.isLinked i then (self.node i).obj else none with
    | some o => self.objects.Perm (o :: self'.objects)
    | none => self'.objects.Perm self.objects
  | .destroyNode _ => self'.objects.Perm self.objects

/-! ## Valid containers -/

/-- The container holds the balanced and sorted tree `t` of the linked nodes.
Source: `rb_ao2_integrity` -/
structure Valid (conf : RbConf α) (c : RbTree α) (t : BinTree (Cell α)) : Prop where
  rep : Rep c t
  balanced : ∃ m, Balanced Cell.red t false m
  sorted : Sorted conf.sortFn (objs t)
  isLinked_iff : ∀ i, c.isLinked i = true ↔ i ∈ ids t
  destroying : c.destroying = false

lemma valid_new (conf : RbConf α) : Valid conf RbTree.new nil where
  rep := ⟨rfl, trivial, nodup_nil, by simp [ids]⟩
  balanced := ⟨0, .nil⟩
  sorted := List.Pairwise.nil
  isLinked_iff i := by simp [RbTree.new, ids]
  destroying := rfl

variable {self : RbTree α} {t l r : BinTree (Cell α)} {conf : RbConf α} {i : ℕ}
  {ctx : List (TreeFrame (Cell α))} {v : Cell α}

lemma Rep.obj_of_mem_listing (h : Rep self t) {e : ℕ × Option α} (he : e ∈ listing t) :
    (self.node e.1).obj = e.2 := by
  obtain ⟨c, hc, rfl⟩ := mem_map.mp he
  obtain ⟨pre, post, hlist⟩ := append_of_mem hc
  exact h.whole.obj_eq hlist

lemma mem_ids_iff : i ∈ ids t ↔ i ∈ (listing t).map Prod.fst :=
  (listing_ids_perm t).mem_iff.symm

section

variable (h : Valid conf self t)
include h

lemma Valid.objects_perm : self.objects.Perm (objs t) := by
  have hids : ((range self.fresh).filter self.isLinked).Perm ((listing t).map Prod.fst) := by
    refine List.Perm.trans ?_ (listing_ids_perm t).symm
    rw [perm_ext_iff_of_nodup (List.nodup_range.filter _) h.rep.nodup]
    intro i
    rw [mem_filter, mem_range, h.isLinked_iff]
    exact ⟨fun hi => hi.2, fun hi => ⟨h.rep.lt_fresh i hi, hi⟩⟩
  refine (hids.filterMap _).trans ?_
  rw [filterMap_map, objs_eq_listing]
  exact List.Perm.of_eq (filterMap_congr fun e he => h.rep.obj_of_mem_listing he)

lemma Valid.exists_cell (hi : self.isLinked i = true) : ∃ ctx v l r, t = plug ctx (fork .left v l r) ∧ v.id = i := by
  have hmem := mem_ids_iff.mp ((h.isLinked_iff i).mp hi)
  obtain ⟨e, he, rfl⟩ := mem_map.mp hmem
  obtain ⟨c, hc, rfl⟩ := mem_map.mp he
  obtain ⟨pre, post, hlist⟩ := append_of_mem hc
  obtain ⟨ctx, a, b, ht, -⟩ := exists_plug_of_inorder .right hlist
  exact ⟨ctx, c, a, b, ht, rfl⟩

lemma Valid.nodup_listing : ((listing t).map Prod.fst).Nodup :=
  (listing_ids_perm t).nodup_iff.mpr h.rep.nodup

lemma Valid.lt_fresh : ∀ k ∈ (listing t).map Prod.fst, k < self.fresh := fun k hk =>
  h.rep.lt_fresh k (mem_ids_iff.mpr hk)

end

/-! ## The operations -/

lemma link_valid [DecidableEq α] (hf : Comparator conf.sortFn) (h : Valid conf self t) (x : α) :
    ∃ self' t', rbStep conf self (.link x) = some self' ∧ Valid conf self' t' ∧
      Changes conf self (.link x) self' ∧
      NodesEdit (.link x) self.fresh self'.fresh (listing t) (listing t') := by
  obtain ⟨m, hbal⟩ := h.balanced
  set s₀ : RbTree α := { self with
    node := update self.node self.fresh ⟨some x, none, none, none, false⟩
    fresh := self.fresh + 1 } with hs₀
  have hfr : self.fresh ∉ ids t := fun hi => lt_irrefl _ (h.rep.lt_fresh _ hi)
  have hrep₀ : Rep s₀ t := by
    refine h.rep.congr rfl (Nat.le_succ _) fun i hi => ?_
    refine Function.update_of_ne ?_ _ _
    rintro rfl
    exact hfr hi
  have hnew : NewNode s₀ t self.fresh x false := ⟨Function.update_self _ _ _, hfr, Nat.lt_succ_self _⟩
  obtain ⟨res, s₁, t', hins, hperm, hdone⟩ := rbAo2InsertNode_spec hf hrep₀ hbal h.sorted hnew
  have hlnk : ∀ i, s₁.isLinked i = true ↔ i ∈ ids t := by
    intro i
    rw [hdone.sameMeta.isLinked]
    exact h.isLinked_iff i
  have hdest : s₁.destroying = false := hdone.sameMeta.destroying.trans h.destroying
  have hcnt : s₁.fresh = self.fresh + 1 := hdone.sameMeta.fresh
  have hold := h.objects_perm
  rw [objs_eq_listing] at hold
  cases res with
  | inserted =>
    obtain ⟨pre, post, hlist, hlist'⟩ := hdone.effect
    set s₂ : RbTree α := { s₁ with isLinked := update s₁.isLinked self.fresh true } with hs₂
    have hlink : self.link conf x = some (.inserted, s₂) := by simp [RbTree.link, ← hs₀, hins, hs₂]
    have hval : Valid conf s₂ t' := by
      refine ⟨hdone.rep.congr rfl le_rfl fun _ _ => rfl, hdone.balanced, hdone.sorted, fun i => ?_, hdest⟩
      rw [mem_ids_iff, hlist', map_append, map_cons, perm_middle.mem_iff, mem_cons,
        ← map_append, ← hlist, ← mem_ids_iff, ← hlnk]
      by_cases hi : i = self.fresh <;> simp [hs₂, hi]
    refine ⟨s₂, t', by simp [rbStep, hlink], hval, ⟨.inserted, hlink, hperm, ?_⟩, ?_⟩
    · have hnew := hval.objects_perm
      rw [objs_eq_listing, hlist', filterMap_append] at hnew
      refine hnew.trans (perm_middle.trans (List.Perm.cons x ?_))
      rw [← filterMap_append, ← hlist]
      exact hold.symm
    · rw [show s₂.fresh = self.fresh + 1 from hcnt]
      exact .of_insert (p := pre.map Prod.fst) (q := post.map Prod.fst) h.nodup_listing h.lt_fresh
        (by rw [hlist, map_append]) (by rw [hlist', map_append, map_cons])
  | objReplaced =>
    obtain ⟨pre, post, j, o, hlist, hlist', hcmp⟩ := hdone.effect
    have hlink : self.link conf x = some (.objReplaced, s₁) := by simp [RbTree.link, ← hs₀, hins]
    have hval : Valid conf s₁ t' := by
      refine ⟨hdone.rep, hdone.balanced, hdone.sorted, fun i => ?_, hdest⟩
      rw [hlnk, mem_ids_iff, mem_ids_iff, hlist, hlist']
      simp
    refine ⟨s₁, t', by simp [rbStep, hlink], hval, ⟨.objReplaced, hlink, hperm, o,
      (pre ++ post).filterMap Prod.snd, hcmp, ?_, ?_⟩, ?_⟩
    · rw [hlist, filterMap_append] at hold
      rw [filterMap_append]
      exact hold.trans perm_middle
    · have hnew := hval.objects_perm
      rw [objs_eq_listing, hlist', filterMap_append] at hnew
      rw [filterMap_append]
      exact hnew.trans perm_middle
    · exact .of_keys h.nodup_listing (by omega) (by rw [hlist, hlist']; simp)
  | rejected =>
    obtain ⟨hlist, j, o, hmem, hcmp⟩ := hdone.effect
    have hlink : self.link conf x = some (.rejected, s₁) := by simp [RbTree.link, ← hs₀, hins]
    have hval : Valid conf s₁ t' := by
      refine ⟨hdone.rep, hdone.balanced, hdone.sorted, fun i => ?_, hdest⟩
      rw [hlnk, mem_ids_iff, mem_ids_iff, hlist]
    refine ⟨s₁, t', by simp [rbStep, hlink], hval, ⟨.rejected, hlink, hperm, ?_, o, ?_, hcmp⟩, ?_⟩
    · have hnew := hval.objects_perm
      rw [objs_eq_listing, hlist] at hnew
      exact hnew.trans hold.symm
    · exact hold.mem_iff.mpr (mem_filterMap.mpr ⟨_, hmem, rfl⟩)
    · exact .of_keys h.nodup_listing (by omega) (by rw [hlist])

lemma Valid.unlinkObj (h : Valid conf self (plug ctx (fork .left v l r))) :
    Valid conf (self.unlinkObj v.id) (plug ctx (fork .left { v with obj := none } l r)) := by
  obtain ⟨m, hbal⟩ := h.balanced
  obtain ⟨pre, post, hlist⟩ := listing_plug_fork ctx .left l r
  have hi : self.isLinked v.id = true := by
    rw [h.isLinked_iff, mem_ids_iff, hlist]
    simp
  have hrep := h.rep.setObj none
  rw [RbTree.unlinkObj, if_pos hi]
  refine ⟨hrep, hbal.replace rfl, ?_, fun i => ?_, h.destroying⟩
  · refine h.sorted.sublist ?_
    rw [objs_eq_listing, objs_eq_listing, hlist, hlist]
    cases v.obj <;> simp
  · rw [mem_ids_iff, hlist]
    have hold := h.isLinked_iff i
    rw [mem_ids_iff, hlist] at hold
    simp only [map_append] at hold ⊢
    exact hold

lemma unlinkObj_valid [DecidableEq α] (h : Valid conf self t) (i : ℕ) :
    ∃ self' t', rbStep conf self (.unlinkObj i) = some self' ∧ Valid conf self' t' ∧
      Changes conf self (.unlinkObj i) self' ∧
      NodesEdit (.unlinkObj i) self.fresh self'.fresh (listing t) (listing t') := by
  cases hi : self.isLinked i with
  | false =>
    have hsame : self.unlinkObj i = self := by simp [RbTree.unlinkObj, hi]
    refine ⟨self, t, by rw [rbStep, hsame], h, ?_, .of_keys h.nodup_listing le_rfl rfl⟩
    simp [Changes, hi]
  | true =>
    obtain ⟨ctx, v, l, r, rfl, rfl⟩ := h.exists_cell hi
    obtain ⟨pre, post, hlist⟩ := listing_plug_fork ctx .left l r
    have hobj : (self.node v.id).obj = v.obj := by rw [h.rep.node_eq, mkNode_obj]
    have hedit : NodesEdit (.unlinkObj v.id) self.fresh (self.unlinkObj v.id).fresh
        (listing (plug ctx (fork .left v l r)))
        (listing (plug ctx (fork .left { v with obj := none } l r))) := by
      refine .of_keys h.nodup_listing ?_ (by simp [hlist])
      rw [RbTree.unlinkObj, if_pos hi]
      exact le_rfl
    refine ⟨_, _, rfl, h.unlinkObj, ?_, hedit⟩
    have hold := h.objects_perm
    have hnew := h.unlinkObj.objects_perm
    rw [objs_eq_listing, hlist, filterMap_append] at hold hnew
    cases hv : v.obj with
    | none =>
      simp only [Changes, hi, hobj, hv]
      simp only [hv] at hold hnew
      exact hnew.trans hold.symm
    | some o =>
      simp only [Changes, hi, hobj, hv]
      simp only [hv] at hold hnew
      exact hold.trans (perm_middle.trans (hnew.symm.cons o))

lemma Valid.destroyNode {pre post : List (ℕ × Option α)} (h : Valid conf self (plug ctx (fork .left v l r)))
    (hobj : v.obj = none) (hlist : listing (plug ctx (fork .left v l r)) = pre ++ (v.id, v.obj) :: post) :
    ∃ self' t', self.destroyNode v.id = some self' ∧ Valid conf self' t' ∧ listing t' = pre ++ post ∧
      objs t' = objs (plug ctx (fork .left v l r)) ∧ self'.fresh = self.fresh := by
  obtain ⟨m, hbal⟩ := h.balanced
  have hi : self.isLinked v.id = true ∧ (self.node v.id).obj = none := by
    refine ⟨?_, by rw [h.rep.node_eq, mkNode_obj, hobj]⟩
    rw [h.isLinked_iff, mem_ids_iff, hlist]
    simp
  obtain ⟨s₁, t', hrun, hdel⟩ := rbDeleteNode_spec h.rep hbal h.destroying
  have hlist' : listing t' = pre ++ post := hdel.listing_eq.trans (listing_filter h.rep.nodup hlist)
  have hobjs : objs t' = objs (plug ctx (fork .left v l r)) := by
    rw [objs_eq_listing, objs_eq_listing, hlist', hlist, hobj]
    simp
  refine ⟨{ s₁ with isLinked := update s₁.isLinked v.id false }, t', ?_, ?_, hlist', hobjs, hdel.sameMeta.fresh⟩
  · simp [RbTree.destroyNode, hi.1, hi.2, hrun]
  refine ⟨hdel.rep.congr rfl le_rfl fun _ _ => rfl, hdel.balanced, hobjs ▸ h.sorted, fun i => ?_,
    hdel.sameMeta.destroying.trans h.destroying⟩
  have hnd := (listing_ids_perm _).nodup_iff.mpr h.rep.nodup
  have hold := h.isLinked_iff i
  rw [hlist, map_append, map_cons, perm_middle.nodup_iff, nodup_cons, ← map_append, ← hlist', ← mem_ids_iff] at hnd
  rw [mem_ids_iff, hlist, map_append, map_cons, perm_middle.mem_iff, mem_cons,
    ← map_append, ← hlist', ← mem_ids_iff] at hold
  by_cases hiv : i = v.id
  · simpa [hiv] using hnd.1
  · simpa [hiv, hdel.sameMeta.isLinked] using hold

lemma destroyNode_valid [DecidableEq α] (h : Valid conf self t) (i : ℕ) :
    ∃ self' t', rbStep conf self (.destroyNode i) = some self' ∧ Valid conf self' t' ∧
      Changes conf self (.destroyNode i) self' ∧
      NodesEdit (.destroyNode i) self.fresh self'.fresh (listing t) (listing t') := by
  by_cases hi : self.isLinked i = true ∧ (self.node i).obj = none
  · obtain ⟨ctx, v, l, r, rfl, rfl⟩ := h.exists_cell hi.1
    obtain ⟨pre, post, hlist⟩ := listing_plug_fork ctx .left l r
    have hobj : v.obj = none := by rw [← hi.2, h.rep.node_eq, mkNode_obj]
    obtain ⟨self', t', hrun, hval, hlist', hobjs, hfr⟩ := h.destroyNode hobj (hlist v)
    refine ⟨self', t', hrun, hval, ?_, ?_, ?_, ?_⟩
    · exact hval.objects_perm.trans (hobjs ▸ h.objects_perm.symm)
    · refine Edit.of_sublist h.nodup_listing ?_
      rw [hlist, hlist']
      exact ((List.Sublist.refl pre).append (sublist_cons_self _ post)).map _
    · exact hfr.ge
    · intro k hk hne
      rw [hlist, map_append, map_cons, perm_middle.mem_iff, mem_cons] at hk
      rw [hlist', map_append]
      refine hk.resolve_left ?_
      rintro rfl
      exact hne rfl
  · exact ⟨self, t, by rw [rbStep, RbTree.destroyNode, if_neg hi], h, List.Perm.refl _,
      .of_keys h.nodup_listing le_rfl rfl⟩

/-! ## Every run -/

section Every

variable [DecidableEq α] {conf : RbConf α}

variable {self : RbTree α} {t : BinTree (Cell α)}

lemma rbStep_valid (hf : Comparator conf.sortFn) (h : Valid conf self t) (op : ContainerOp α) :
    ∃ self' t', rbStep conf self op = some self' ∧ Valid conf self' t' ∧ Changes conf self op self' ∧
      NodesEdit op self.fresh self'.fresh (listing t) (listing t') := by
  cases op with
  | link x => exact link_valid hf h x
  | unlinkObj i => exact unlinkObj_valid h i
  | destroyNode i => exact destroyNode_valid h i

lemma rbRun_new (hf : Comparator conf.sortFn) (ops : List (ContainerOp α)) :
    ∃ self, rbRun conf ops RbTree.new = some self ∧ ∃ t, Valid conf self t := by
  refine foldlM_total (fun op _ self h => ?_) ⟨nil, valid_new conf⟩
  obtain ⟨t, hval⟩ := h
  obtain ⟨self', t', hstep, hval', -⟩ := rbStep_valid hf hval op
  exact ⟨self', hstep, t', hval'⟩

/-- **The red-black container in every run.** Any operations on a new container succeed and leave it
valid, and any further operation changes its objects exactly by what it inserts, replaces or
removes. -/
theorem rbRun_valid (hf : Comparator conf.sortFn) (ops : List (ContainerOp α)) :
    ∃ self t, rbRun conf ops RbTree.new = some self ∧ Valid conf self t ∧
      ∀ op, ∃ self' t', rbStep conf self op = some self' ∧ Valid conf self' t' ∧ Changes conf self op self' := by
  obtain ⟨self, hrun, t, hval⟩ := rbRun_new hf ops
  refine ⟨self, t, hrun, hval, fun op => ?_⟩
  obtain ⟨self', t', hstep, hval', hchanges, -⟩ := rbStep_valid hf hval op
  exact ⟨self', t', hstep, hval', hchanges⟩

end Every

/-- A run with empty nodes: four objects are linked, two are taken out, a fifth one is linked past
the empty nodes, and one of these is destroyed. -/
theorem rbRun_valid_empty_nodes :
    let conf : RbConf ℤ := ⟨fun a b => a - b, .allow, false⟩
    let ops : List (ContainerOp ℤ) :=
      [.link 2, .link 1, .link 4, .link 3, .unlinkObj 0, .unlinkObj 2, .link 5, .destroyNode 0]
    (rbRun conf ops RbTree.new).map RbTree.objects = some [1, 3, 5] ∧
      ∃ self t, rbRun conf ops RbTree.new = some self ∧ Valid conf self t ∧
        ∀ op, ∃ self' t', rbStep conf self op = some self' ∧ Valid conf self' t' ∧ Changes conf self op self' := by
  intro conf ops
  have hf : Comparator conf.sortFn := ⟨fun a b => by simp only [conf]; omega,
    fun a b c hab hbc => by simp only [conf] at hab hbc ⊢; omega⟩
  exact ⟨by decide +kernel, rbRun_valid hf ops⟩

end Runs

end Telephony.Ao2
