import Mathlib.Algebra.Order.Ring.Int
import Telephony.Ao2.Container

/-!
# The hash container

`main/astobj2_hash.c`: buckets of nodes, each a list in its own order. A list container is one with
a single bucket. An emptied node stays in its bucket as long as it is referenced.

The container has one reference to a node and drops it when the object is unlinked. An emptied node
that gets an object again has none left, and the next unlinking drops a reference that somebody else
has; such a step has no result (`none`). A sort function that never takes a missing object for an
equal one keeps this from happening (`HashConf.KeepsEmpty`, `hashStep_valid`). The next node of an
iterator is `hashAo2IteratorNext_spec`.
-/

namespace Telephony.Ao2

open Lib List Function

/-- The settings of a hash container. The sort function, if there is one, is also called with the
missing object of an emptied node.
Source: `struct ao2_container_hash` (`hash_fn`, `n_buckets`), `struct ao2_container` (`sort_fn`,
`options`) -/
structure HashConf (α : Type) where
  hashFn : α → ℤ
  nBuckets : ℕ
  pos : 0 < nBuckets
  sortFn : Option (Option α → α → ℤ)
  dups : Dups
  insertBegin : Bool

/-- The container: the nodes of each bucket in their order, with their objects. `released` is set
for the nodes whose reference the container gave up.
Source: `struct ao2_container_hash`, `struct hash_bucket_node` (`my_bucket`) -/
structure HashTable (α : Type) where
  buckets : List (List (ℕ × Option α))
  myBucket : ℕ → ℕ
  released : ℕ → Bool
  fresh : ℕ

section Hash

variable {α : Type}

/-- Source: `__ao2_container_alloc_hash` -/
def HashTable.new (conf : HashConf α) : HashTable α :=
  ⟨List.replicate conf.nBuckets [], fun _ => 0, fun _ => false, 0⟩

/-- Source: `hash_ao2_new_node` (`abs(self->hash_fn(obj_new, OBJ_SEARCH_OBJECT) %
self->n_buckets)`) -/
def HashConf.bucket (conf : HashConf α) (obj : α) : ℕ := ((conf.hashFn obj).tmod conf.nBuckets).natAbs

/-- Source: `hash_ao2_insert_node` (`AST_DLLIST_TRAVERSE_SAFE_BEGIN`) -/
def scanBucket [DecidableEq α] (dups : Dups) (cmp : Option α → ℤ) (node : ℕ) (obj : α) :
    List (ℕ × Option α) → InsertResult × List (ℕ × Option α)
  | [] => (.inserted, [(node, some obj)])
  | cur :: rest =>
    let goOn := ((scanBucket dups cmp node obj rest).1, cur :: (scanBucket dups cmp node obj rest).2)
    if cmp cur.2 < 0 then goOn
    else if 0 < cmp cur.2 then (.inserted, (node, some obj) :: cur :: rest)
    else
      match dups with
      | .allow => goOn
      | .reject => (.rejected, cur :: rest)
      | .objReject => if cur.2 = some obj then (.rejected, cur :: rest) else goOn
      | .replace => (.objReplaced, (cur.1, some obj) :: rest)

/-- Insert a node into its bucket. With `INSERT_BEGIN` a sorted bucket is gone through backwards.
Source: `hash_ao2_insert_node` -/
def insertBucket [DecidableEq α] (conf : HashConf α) (node : ℕ) (obj : α)
    (bucket : List (ℕ × Option α)) : InsertResult × List (ℕ × Option α) :=
  match conf.insertBegin, conf.sortFn with
  | true, some f =>
    let res := scanBucket conf.dups (fun o => -f o obj) node obj bucket.reverse
    (res.1, res.2.reverse)
  | true, none => (.inserted, (node, some obj) :: bucket)
  | false, some f => scanBucket conf.dups (fun o => f o obj) node obj bucket
  | false, none => (.inserted, bucket ++ [(node, some obj)])

def HashTable.bucketAt (self : HashTable α) (i : ℕ) : List (ℕ × Option α) := self.buckets.getD i []

def hashAo2InsertNode [DecidableEq α] (conf : HashConf α) (self : HashTable α) (node : ℕ) (obj : α) :
    InsertResult × HashTable α :=
  let res := insertBucket conf node obj (self.bucketAt (self.myBucket node))
  (res.1, { self with buckets := self.buckets.set (self.myBucket node) res.2 })

/-- Source: `__ao2_link`, `hash_ao2_new_node` -/
def HashTable.link [DecidableEq α] (conf : HashConf α) (self : HashTable α) (obj : α) : InsertResult × HashTable α :=
  hashAo2InsertNode conf
    { self with
      myBucket := update self.myBucket self.fresh (conf.bucket obj)
      fresh := self.fresh + 1 } self.fresh obj

/-- Source: `__container_unlink_node_debug` -/
def HashTable.unlinkObj (self : HashTable α) (node : ℕ) : HashTable α :=
  if node < self.fresh then
    { self with
      buckets := self.buckets.map fun b => b.map fun e => if e.1 = node then (e.1, none) else e
      released := update self.released node true }
  else self

/-- Source: `hash_ao2_node_destructor` -/
def HashTable.destroyNode (self : HashTable α) (node : ℕ) : HashTable α :=
  let i := self.myBucket node
  if self.released node then
    { self with buckets := self.buckets.set i ((self.bucketAt i).filter fun e => e.1 ≠ node) }
  else self

def HashTable.isFull (self : HashTable α) (node : ℕ) : Bool :=
  self.buckets.flatten.any fun e => e.1 = node && e.2.isSome

/-- Source: `__ao2_link`, `__container_unlink_node_debug` (`ao2_ref(node, -1)`),
`hash_ao2_node_destructor` -/
def hashStep [DecidableEq α] (conf : HashConf α) (self : HashTable α) : ContainerOp α → Option (HashTable α)
  | .link obj => some (self.link conf obj).2
  | .unlinkObj i => if self.isFull i && self.released i then none else some (self.unlinkObj i)
  | .destroyNode i => some (self.destroyNode i)

/-- An emptied node is not taken for one with an equal object, and filled again. -/
def HashConf.KeepsEmpty (conf : HashConf α) : Prop :=
  conf.dups = .replace → ∀ f, conf.sortFn = some f → ∀ obj, f none obj ≠ 0

/-! ## Iterating -/

def firstFull (l : List (ℕ × Option α)) : Option ℕ := (l.find? fun e => e.2.isSome).map Prod.fst

def HashTable.walkFrom (self : HashTable α) (d : Side) (i node : ℕ) : List (ℕ × Option α) :=
  ((inDirection d (self.bucketAt i)).dropWhile fun e => e.1 ≠ node).tail

def HashTable.remaining (self : HashTable α) (d : Side) (i : ℕ) : List (ℕ × Option α) :=
  match d with
  | .right => (self.buckets.drop (i + 1)).flatten
  | .left => (self.buckets.take i).flatten.reverse

def hashAo2IteratorNext (self : HashTable α) (d : Side) : Option ℕ → Option ℕ
  | none => firstFull (inDirection d self.buckets.flatten)
  | some node =>
    match firstFull (self.walkFrom d (self.myBucket node) node) with
    | some next => some next
    | none => firstFull (self.remaining d (self.myBucket node))

/-! ## Valid containers -/

structure HashTable.Valid (conf : HashConf α) (c : HashTable α) : Prop where
  length_eq : c.buckets.length = conf.nBuckets
  nodup : (c.buckets.flatten.map Prod.fst).Nodup
  lt_fresh : ∀ k ∈ c.buckets.flatten.map Prod.fst, k < c.fresh
  myBucket_eq : ∀ i, ∀ e ∈ c.bucketAt i, c.myBucket e.1 = i
  held : ∀ e ∈ c.buckets.flatten, e.2.isSome = true → c.released e.1 = false
  held_fresh : ∀ k, c.fresh ≤ k → c.released k = false

lemma HashTable.valid_new (conf : HashConf α) : (HashTable.new conf).Valid conf := by
  refine ⟨by simp [new], by simp [new], by simp [new], fun i e he => ?_, by simp [new], fun _ _ => rfl⟩
  have hnil : (HashTable.new conf).bucketAt i = [] := by
    simp only [HashTable.bucketAt, HashTable.new, getD_eq_getElem?_getD, getElem?_replicate]
    split_ifs <;> rfl
  simp [hnil] at he

lemma HashConf.bucket_lt (conf : HashConf α) (obj : α) : conf.bucket obj < conf.nBuckets := by
  rw [HashConf.bucket, Int.natAbs_tmod]
  exact Nat.mod_lt _ conf.pos

variable {self : HashTable α} {i node : ℕ} {e : ℕ × Option α} {obj : α} {l : List (ℕ × Option α)}
  {res : InsertResult × List (ℕ × Option α)} {conf : HashConf α}

lemma HashTable.split_at (hi : i < self.buckets.length) :
    ∃ a b, a.length = i ∧ self.buckets = a ++ self.bucketAt i :: b ∧ ∀ l, self.buckets.set i l = a ++ l :: b := by
  refine ⟨self.buckets.take i, self.buckets.drop (i + 1), by simp; omega, ?_, fun l => ?_⟩
  · have hget : self.bucketAt i = self.buckets[i] := by simp [HashTable.bucketAt, getElem?_eq_getElem hi]
    rw [hget, getElem_cons_drop, take_append_drop]
  · exact set_eq_take_append_cons_drop.trans (if_pos hi)

lemma HashTable.bucketAt_set (self : HashTable α) (hi : i < self.buckets.length) (l : List (ℕ × Option α))
    (j : ℕ) :
    (self.buckets.set i l).getD j [] = if j = i then l else self.bucketAt j := by
  rw [getD_eq_getElem?_getD, getElem?_set]
  by_cases hij : i = j
  · subst hij
    simp [hi]
  · rw [if_neg hij, if_neg (Ne.symm hij), HashTable.bucketAt, getD_eq_getElem?_getD]

lemma HashTable.mem_bucketAt_lt (he : e ∈ self.bucketAt i) : i < self.buckets.length := by
  by_contra hi
  rw [HashTable.bucketAt, getD_eq_getElem?_getD, getElem?_eq_none (by omega)] at he
  simp at he

lemma HashTable.mem_flatten_of_mem_bucketAt (he : e ∈ self.bucketAt i) : e ∈ self.buckets.flatten := by
  obtain ⟨a, b, -, hspl, -⟩ := self.split_at (HashTable.mem_bucketAt_lt he)
  rw [hspl]
  simp [he]

/-! ## What the operations do to the nodes in order -/

/-- What an insertion does to a list of nodes: a new node, an object for an old one whose object may
be replaced, or nothing. -/
inductive InsertShape (refills : Option α → Prop) (node : ℕ) (obj : α) (l l' : List (ℕ × Option α)) : Prop
  | inserted (pre post : List (ℕ × Option α)) (hl : l = pre ++ post) (hl' : l' = pre ++ (node, some obj) :: post)
  | replaced (pre post : List (ℕ × Option α)) (k : ℕ) (o : Option α) (ho : refills o)
      (hl : l = pre ++ (k, o) :: post) (hl' : l' = pre ++ (k, some obj) :: post)
  | rejected (hl : l' = l)

section Shape

variable {refills : Option α → Prop} {l' : List (ℕ × Option α)}

section

variable (h : InsertShape refills node obj l l')
include h

lemma InsertShape.around (a b : List (ℕ × Option α)) :
    InsertShape refills node obj (a ++ (l ++ b)) (a ++ (l' ++ b)) := by
  cases h with
  | inserted pre post hl hl' => exact .inserted (a ++ pre) (post ++ b) (by simp [hl]) (by simp [hl'])
  | replaced pre post k o ho hl hl' =>
    exact .replaced (a ++ pre) (post ++ b) k o ho (by simp [hl]) (by simp [hl'])
  | rejected hl => exact .rejected (by rw [hl])

lemma InsertShape.reverse : InsertShape refills node obj l.reverse l'.reverse := by
  cases h with
  | inserted pre post hl hl' => exact .inserted post.reverse pre.reverse (by simp [hl]) (by simp [hl'])
  | replaced pre post k o ho hl hl' =>
    exact .replaced post.reverse pre.reverse k o ho (by simp [hl]) (by simp [hl'])
  | rejected hl => exact .rejected (by rw [hl])

lemma InsertShape.mem (he : e ∈ l') :
    e = (node, some obj) ∨ ∃ o, (e.1, o) ∈ l ∧ (e.2 = o ∨ refills o ∧ e.2 = some obj) := by
  cases h with
  | inserted pre post hl hl' =>
    rw [hl', perm_middle.mem_iff, mem_cons, ← hl] at he
    exact he.imp_right fun he => ⟨e.2, he, .inl rfl⟩
  | replaced pre post k o ho hl hl' =>
    rw [hl', perm_middle.mem_iff, mem_cons] at he
    rw [hl]
    rcases he with rfl | he
    · exact .inr ⟨o, by simp, .inr ⟨ho, rfl⟩⟩
    · exact .inr ⟨e.2, perm_middle.mem_iff.mpr (mem_cons_of_mem _ he), .inl rfl⟩
  | rejected hl => exact .inr ⟨e.2, hl ▸ he, .inl rfl⟩

lemma InsertShape.edit (hnd : (l.map Prod.fst).Nodup) (hlt : ∀ k ∈ l.map Prod.fst, k < node) :
    NodesEdit (.link obj) node (node + 1) l l' := by
  cases h with
  | inserted pre post hl hl' =>
    exact .of_insert (p := pre.map Prod.fst) (q := post.map Prod.fst) hnd hlt (by simp [hl]) (by simp [hl'])
  | replaced pre post k o ho hl hl' => exact .of_keys hnd (Nat.le_succ _) (by simp [hl, hl'])
  | rejected hl => exact .of_keys hnd (Nat.le_succ _) (by rw [hl])

end

lemma scanBucket_shape [DecidableEq α] {dups : Dups} {cmp : Option α → ℤ}
    (hcmp : ∀ o, dups = .replace → cmp o = 0 → refills o) (node : ℕ) (obj : α)
    (l : List (ℕ × Option α)) : InsertShape refills node obj l (scanBucket dups cmp node obj l).2 := by
  induction l with
  | nil => exact .inserted [] [] rfl rfl
  | cons cur rest ih =>
    have hnext : InsertShape refills node obj (cur :: rest) (cur :: (scanBucket dups cmp node obj rest).2) := by
      simpa using ih.around [cur] []
    unfold scanBucket
    by_cases hlt : cmp cur.2 < 0
    · rwa [if_pos hlt]
    rw [if_neg hlt]
    by_cases hgt : 0 < cmp cur.2
    · rw [if_pos hgt]
      exact .inserted [] (cur :: rest) rfl rfl
    rw [if_neg hgt]
    cases dups with
    | allow => exact hnext
    | reject => exact .rejected rfl
    | objReject =>
      by_cases hsame : cur.2 = some obj
      · exact .rejected (by simp only [if_pos hsame])
      · simpa only [if_neg hsame]
    | replace => exact .replaced [] rest cur.1 cur.2 (hcmp _ rfl (by omega)) rfl rfl

end Shape

lemma insertBucket_shape [DecidableEq α] (hconf : conf.KeepsEmpty) (node : ℕ) (obj : α)
    (l : List (ℕ × Option α)) : InsertShape (· ≠ none) node obj l (insertBucket conf node obj l).2 := by
  unfold insertBucket
  cases hsort : conf.sortFn with
  | none =>
    cases conf.insertBegin
    · exact .inserted l [] (by simp) rfl
    · exact .inserted [] l rfl rfl
  | some f =>
    have hne : ∀ o, conf.dups = .replace → f o obj = 0 → o ≠ none := by
      rintro o hdups hzero rfl
      exact hconf hdups f hsort obj hzero
    cases conf.insertBegin
    · exact scanBucket_shape hne node obj l
    · have hneg : ∀ o, conf.dups = .replace → -f o obj = 0 → o ≠ none := fun o hdups hzero => hne o hdups (by omega)
      simpa using (scanBucket_shape hneg node obj l.reverse).reverse

lemma keys_emptied (node : ℕ) (l : List (ℕ × Option α)) :
    (l.map fun e => if e.1 = node then (e.1, none) else e).map Prod.fst = l.map Prod.fst := by
  rw [map_map]
  refine map_congr_left fun e _ => ?_
  simp only [comp_apply]
  split_ifs <;> rfl

section

variable (h : self.Valid conf)
include h

lemma HashTable.link_valid [DecidableEq α] (hconf : conf.KeepsEmpty) (obj : α) : (self.link conf obj).2.Valid conf ∧
      NodesEdit (.link obj) self.fresh (self.link conf obj).2.fresh self.buckets.flatten
        (self.link conf obj).2.buckets.flatten := by
  have hlt : conf.bucket obj < self.buckets.length := h.length_eq ▸ conf.bucket_lt obj
  obtain ⟨a, b, -, hspl, hset⟩ := self.split_at hlt
  have hshape := insertBucket_shape hconf self.fresh obj (self.bucketAt (conf.bucket obj))
  set res := insertBucket conf self.fresh obj (self.bucketAt (conf.bucket obj)) with hres
  have hbuckets : (self.link conf obj).2.buckets = self.buckets.set (conf.bucket obj) res.2 := by
    simp [HashTable.link, hashAo2InsertNode, HashTable.bucketAt, hres]
  have hall : InsertShape (· ≠ none) self.fresh obj self.buckets.flatten (self.link conf obj).2.buckets.flatten := by
    have hflat : self.buckets.flatten = a.flatten ++ (self.bucketAt (conf.bucket obj) ++ b.flatten) := by
      conv_lhs => rw [hspl]
      simp
    rw [hflat, hbuckets, hset, flatten_append, flatten_cons]
    exact hshape.around _ _
  have hedit := hall.edit h.nodup h.lt_fresh
  have hmy : ∀ i, ∀ e ∈ self.bucketAt i, (self.link conf obj).2.myBucket e.1 = i := by
    intro i e he
    have hlt := h.lt_fresh e.1 (mem_map_of_mem (HashTable.mem_flatten_of_mem_bucketAt he))
    exact (update_of_ne hlt.ne _ _).trans (h.myBucket_eq i e he)
  refine ⟨⟨?_, hedit.edit.nodup, fun k hk => ?_, fun i e he => ?_, fun e he hfull => ?_,
    fun k hk => h.held_fresh k (Nat.le_of_succ_le hk)⟩, hedit⟩
  · rw [hbuckets, length_set, h.length_eq]
  · obtain ⟨e, he, rfl⟩ := mem_map.mp hk
    rcases hall.mem he with rfl | ⟨o, ho, -⟩
    · exact Nat.lt_succ_self _
    · exact Nat.lt_succ_of_lt (h.lt_fresh e.1 (mem_map.mpr ⟨_, ho, rfl⟩))
  · rw [HashTable.bucketAt, hbuckets, self.bucketAt_set hlt] at he
    split_ifs at he with hi
    · rw [hi]
      rcases hshape.mem he with rfl | ⟨o, ho, -⟩
      · exact update_self _ _ _
      · exact hmy _ (e.1, o) ho
    · exact hmy i e he
  · change self.released e.1 = false
    rcases hall.mem he with rfl | ⟨o, ho, heq | ⟨hne, -⟩⟩
    · exact h.held_fresh _ le_rfl
    · exact h.held (e.1, o) ho (heq ▸ hfull)
    · exact h.held (e.1, o) ho (Option.isSome_iff_ne_none.mpr hne)

lemma HashTable.unlinkObj_valid (node : ℕ) : (self.unlinkObj node).Valid conf ∧
      NodesEdit (.unlinkObj node) self.fresh (self.unlinkObj node).fresh self.buckets.flatten
        (self.unlinkObj node).buckets.flatten := by
  unfold HashTable.unlinkObj
  split_ifs with hnode
  · set f : ℕ × Option α → ℕ × Option α := fun e => if e.1 = node then (e.1, none) else e with hf
    have hkeys : (self.buckets.map fun b => b.map f).flatten.map Prod.fst = self.buckets.flatten.map Prod.fst := by
      rw [← map_flatten, keys_emptied]
    refine ⟨⟨?_, hkeys ▸ h.nodup, hkeys ▸ h.lt_fresh, ?_, ?_, ?_⟩, .of_keys h.nodup le_rfl hkeys⟩
    · rw [length_map, h.length_eq]
    · intro i e he
      have hmap : (self.buckets.map fun b => b.map f).getD i [] = (self.bucketAt i).map f := by
        simp only [HashTable.bucketAt, getD_eq_getElem?_getD, getElem?_map]
        cases self.buckets[i]? <;> rfl
      rw [HashTable.bucketAt, hmap] at he
      obtain ⟨e', he', rfl⟩ := mem_map.mp he
      have hfst : (f e').1 = e'.1 := by
        simp only [hf]
        split_ifs <;> rfl
      rw [hfst]
      exact h.myBucket_eq i e' he'
    · intro e he hfull
      rw [← map_flatten] at he
      obtain ⟨e', he', rfl⟩ := mem_map.mp he
      by_cases hsame : e'.1 = node
      · simp [hf, hsame] at hfull
      simp only [hf, if_neg hsame] at hfull ⊢
      rw [update_of_ne hsame]
      exact h.held e' he' hfull
    · intro k hk
      exact (update_of_ne (hnode.trans_le hk).ne' _ _).trans (h.held_fresh k hk)
  · exact ⟨h, .of_keys h.nodup le_rfl rfl⟩

lemma HashTable.destroyNode_valid (node : ℕ) : (self.destroyNode node).Valid conf ∧
      NodesEdit (.destroyNode node) self.fresh (self.destroyNode node).fresh self.buckets.flatten
        (self.destroyNode node).buckets.flatten := by
  by_cases hnode : self.released node = true ∧ self.myBucket node < self.buckets.length
  · obtain ⟨hrel, hlt⟩ := hnode
    obtain ⟨a, b, -, hspl, hset⟩ := self.split_at hlt
    have heq : self.destroyNode node = { self with
        buckets := self.buckets.set (self.myBucket node)
          ((self.bucketAt (self.myBucket node)).filter fun e => e.1 ≠ node) } := by
      rw [HashTable.destroyNode, if_pos hrel]
    have hsub : (self.destroyNode node).buckets.flatten.Sublist self.buckets.flatten := by
      rw [heq, hset]
      conv_rhs => rw [hspl]
      simp only [flatten_append]
      exact (List.Sublist.refl _).append (filter_sublist.append (List.Sublist.refl _))
    refine ⟨⟨?_, h.nodup.sublist (hsub.map _), fun k hk => ?_, fun i e he => ?_, fun e he => ?_, ?_⟩,
      Edit.of_sublist h.nodup (hsub.map _), by rw [heq], fun k hk hop => ?_⟩
    · rw [heq, length_set, h.length_eq]
    · rw [heq]
      exact h.lt_fresh k ((hsub.map _).subset hk)
    · rw [heq, HashTable.bucketAt, self.bucketAt_set hlt] at he
      rw [heq]
      split_ifs at he with hi
      · subst hi
        exact h.myBucket_eq _ e (mem_of_mem_filter he)
      · exact h.myBucket_eq i e he
    · have hheld := h.held e (hsub.subset he)
      rwa [heq]
    · rw [heq]
      exact h.held_fresh
    · obtain ⟨e, he, rfl⟩ := mem_map.mp hk
      have hne : e.1 ≠ node := by
        rintro rfl
        exact hop rfl
      refine mem_map_of_mem ?_
      rw [hspl] at he
      rw [heq, hset]
      simp only [flatten_append, flatten_cons, mem_append, mem_filter, decide_eq_true_eq] at he ⊢
      exact he.imp id fun he => he.imp (fun he => ⟨he, hne⟩) id
  · have hsame : self.destroyNode node = self := by
      unfold HashTable.destroyNode
      split_ifs with hrel
      · rw [not_and, not_lt] at hnode
        simp [set_eq_of_length_le (hnode hrel)]
      · rfl
    rw [hsame]
    exact ⟨h, .of_keys h.nodup le_rfl rfl⟩

lemma HashTable.not_released_of_isFull (hfull : self.isFull node = true) : self.released node = false := by
  obtain ⟨e, he, hboth⟩ := any_eq_true.mp hfull
  simp only [Bool.and_eq_true, decide_eq_true_eq] at hboth
  exact hboth.1 ▸ h.held e he hboth.2

lemma hashStep_valid [DecidableEq α] (hconf : conf.KeepsEmpty) (op : ContainerOp α) :
    ∃ self', hashStep conf self op = some self' ∧ self'.Valid conf ∧
      NodesEdit op self.fresh self'.fresh self.buckets.flatten self'.buckets.flatten := by
  cases op with
  | link obj => exact ⟨_, rfl, HashTable.link_valid h hconf obj⟩
  | unlinkObj node =>
    refine ⟨_, if_neg fun hboth => ?_, HashTable.unlinkObj_valid h node⟩
    obtain ⟨hfull, hrel⟩ := (Bool.and_eq_true _ _).mp hboth
    rw [HashTable.not_released_of_isFull h hfull] at hrel
    cases hrel
  | destroyNode node => exact ⟨_, rfl, HashTable.destroyNode_valid h node⟩

end

/-! ## The next node -/

lemma firstFull_eq (l : List (ℕ × Option α)) :
    firstFull l = (l.findSome? fun e => e.2.map (e.1, ·)).map Prod.fst := by
  induction l with
  | nil => rfl
  | cons e l ih =>
    obtain ⟨k, o⟩ := e
    cases o with
    | none => exact ih
    | some v => rfl

lemma firstFull_append (l l' : List (ℕ × Option α)) : firstFull (l ++ l') = (firstFull l).or (firstFull l') := by
  rw [firstFull, firstFull, find?_append]
  cases l.find? fun e => e.2.isSome <;> rfl

lemma HashTable.afterPos_flatten (h : self.Valid conf) (d : Side)
    (hnode : node ∈ self.buckets.flatten.map Prod.fst) :
    afterPos (inDirection d self.buckets.flatten) (some node) =
      self.walkFrom d (self.myBucket node) node ++ self.remaining d (self.myBucket node) := by
  obtain ⟨⟨k, o⟩, he, rfl⟩ := mem_map.mp hnode
  obtain ⟨bucket, hb, heb⟩ := mem_flatten.mp he
  obtain ⟨i, hi, rfl⟩ := mem_iff_getElem.mp hb
  have hat : self.bucketAt i = self.buckets[i] := by simp [HashTable.bucketAt, getElem?_eq_getElem hi]
  rw [← hat] at heb
  have hmem : k ∈ (self.bucketAt i).map Prod.fst := mem_map_of_mem heb
  obtain ⟨a, b, rfl, hspl, -⟩ := self.split_at hi
  have hmy : self.myBucket k = a.length := h.myBucket_eq _ (k, o) heb
  have hnd := h.nodup
  rw [hspl] at hnd
  simp only [flatten_append, flatten_cons, map_append] at hnd
  obtain ⟨-, hnd, ha⟩ := nodup_append.mp hnd
  obtain ⟨-, -, hb⟩ := nodup_append.mp hnd
  rw [hmy]
  cases d with
  | right =>
    have hflat : inDirection .right self.buckets.flatten = a.flatten ++ (self.bucketAt a.length ++ b.flatten) := by
      conv_lhs => rw [hspl]
      simp [inDirection]
    have hrem : self.remaining .right a.length = b.flatten := by
      rw [HashTable.remaining, hspl]
      simp
    rw [hflat, hrem, afterPos_append (fun hk => ha k hk k (mem_append_left _ hmem) rfl) hmem]
    rfl
  | left =>
    have hflat : inDirection .left self.buckets.flatten =
        b.flatten.reverse ++ ((self.bucketAt a.length).reverse ++ a.flatten.reverse) := by
      conv_lhs => rw [hspl]
      simp [inDirection]
    have hrem : self.remaining .left a.length = a.flatten.reverse := by
      rw [HashTable.remaining, hspl]
      simp
    rw [hflat, hrem, afterPos_append]
    · rfl
    · rw [map_reverse, mem_reverse]
      exact fun hk => hb k hmem k hk rfl
    · rwa [map_reverse, mem_reverse]

lemma hashAo2IteratorNext_spec (h : self.Valid conf) (d : Side) {pos : Option ℕ}
    (hpos : ∀ k, pos = some k → k ∈ self.buckets.flatten.map Prod.fst) :
    hashAo2IteratorNext self d pos = (advance (inDirection d self.buckets.flatten) pos).map Prod.fst := by
  rw [advance, ← firstFull_eq]
  cases pos with
  | none => rfl
  | some node =>
    rw [HashTable.afterPos_flatten h d (hpos node rfl), firstFull_append, hashAo2IteratorNext]
    cases firstFull (self.walkFrom d (self.myBucket node) node) <;> rfl

end Hash

end Telephony.Ao2
