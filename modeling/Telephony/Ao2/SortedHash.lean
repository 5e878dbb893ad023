import Telephony.Ao2.Iterator

/-!
# Linking into a sorted hash container

`hash_ao2_insert_node` goes through a bucket and compares the object of each node with the new one.
A node that was emptied while an iterator refers to it is still in its bucket, and is compared as
well.
-/

namespace Telephony.Ao2

open Lib List Function Option

section Buckets

variable {α : Type} [DecidableEq α] {l : List (ℕ × Option α)}

/-! ## Calls of the sort function -/

/-- The loop ends at this object: it belongs behind the new one, or it is equal and the new one is
not linked beside it. `cmp` has the sign of the comparison in the direction of the loop.
Source: `hash_ao2_insert_node` -/
def Stops (dups : Dups) (cmp : Option α → ℤ) (obj : α) (o : Option α) : Prop :=
  0 < cmp o ∨ cmp o = 0 ∧ (dups = .reject ∨ dups = .replace ∨ dups = .objReject ∧ o = some obj)

instance (dups : Dups) (cmp : Option α → ℤ) (obj : α) : DecidablePred (Stops dups cmp obj) :=
  fun o => inferInstanceAs (Decidable (0 < cmp o ∨ _))

/-- Source: `hash_ao2_insert_node` (`cmp = sort_fn(cur->common.obj, node->common.obj,
OBJ_SEARCH_OBJECT)`) -/
def scanCalls (dups : Dups) (cmp : Option α → ℤ) (obj : α) : List (ℕ × Option α) → List (Option α)
  | [] => []
  | cur :: rest => cur.2 :: if Stops dups cmp obj cur.2 then [] else scanCalls dups cmp obj rest

section Scan

variable {dups : Dups} {cmp : Option α → ℤ} {node : ℕ} {obj : α} {cur : ℕ × Option α} {rest : List (ℕ × Option α)}

lemma scanBucket_goesOn (h : ¬ Stops dups cmp obj cur.2) :
    scanBucket dups cmp node obj (cur :: rest) =
      ((scanBucket dups cmp node obj rest).1, cur :: (scanBucket dups cmp node obj rest).2) := by
  unfold Stops at h
  simp only [scanBucket]
  by_cases hless : cmp cur.2 < 0
  · rw [if_pos hless]
  rw [if_neg hless, if_neg (fun hgt => h (.inl hgt))]
  have hzero : cmp cur.2 = 0 := by omega
  cases dups with
  | allow => rfl
  | reject => exact absurd (.inr ⟨hzero, .inl rfl⟩) h
  | objReject => exact if_neg fun hsame => h (.inr ⟨hzero, .inr (.inr ⟨rfl, hsame⟩)⟩)
  | replace => exact absurd (.inr ⟨hzero, .inr (.inl rfl)⟩) h

lemma scanBucket_stops (h : Stops dups cmp obj cur.2) :
    scanBucket dups cmp node obj (cur :: rest) =
      if 0 < cmp cur.2 then (.inserted, (node, some obj) :: cur :: rest)
      else if dups = .replace then (.objReplaced, (cur.1, some obj) :: rest)
      else (.rejected, cur :: rest) := by
  simp only [scanBucket]
  rcases h with hgt | ⟨hzero, hdups⟩
  · rw [if_neg (by omega), if_pos hgt, if_pos hgt]
  have hle : ¬ 0 < cmp cur.2 := by omega
  rw [if_neg (by omega), if_neg hle, if_neg hle]
  rcases hdups with rfl | rfl | ⟨rfl, hsame⟩
  · rfl
  · rfl
  · exact if_pos hsame

/-- **The sort function** is called with objects only exactly when an object that ends the loop is
in front of each emptied node. Induction on the bucket. -/
lemma scanCalls_clear_iff : (∀ o ∈ scanCalls dups cmp obj l, o ≠ none) ↔
      ∀ p n q, l = p ++ (n, none) :: q → ∃ e ∈ p, e.2 ≠ none ∧ Stops dups cmp obj e.2 := by
  induction l with
  | nil =>
    refine iff_of_true nofun fun p n q hspl => ?_
    exact absurd hspl.symm (append_ne_nil_of_right_ne_nil _ (cons_ne_nil _ _))
  | cons cur rest ih =>
    obtain ⟨n, o⟩ := cur
    cases o with
    | none =>
      refine iff_of_false (fun h => h none mem_cons_self rfl) fun h => ?_
      obtain ⟨e, he, -⟩ := h [] n rest rfl
      cases he
    | some a =>
      have hne : (some a : Option α) ≠ none := some_ne_none a
      by_cases hstop : Stops dups cmp obj (some a)
      · refine iff_of_true ?_ ?_
        · intro o ho
          rw [scanCalls, if_pos hstop, mem_singleton] at ho
          rwa [ho]
        · intro p m q hspl
          obtain ⟨-, heq⟩ | ⟨p, rfl, -⟩ := cons_eq_append_iff.mp hspl
          · cases heq
          · exact ⟨_, mem_cons_self, hne, hstop⟩
      rw [scanCalls, if_neg hstop, forall_mem_cons, and_iff_right hne, ih]
      constructor
      · intro h p m q hspl
        obtain ⟨-, heq⟩ | ⟨p, rfl, hrest⟩ := cons_eq_append_iff.mp hspl
        · cases heq
        · obtain ⟨e, he, hstops⟩ := h p m q hrest
          exact ⟨e, mem_cons_of_mem _ he, hstops⟩
      · intro h p m q hspl
        obtain ⟨e, he, hstops⟩ := h ((n, some a) :: p) m q (by rw [hspl]; rfl)
        rcases mem_cons.mp he with rfl | he
        · exact absurd hstops.2 hstop
        · exact ⟨e, he, hstops⟩

end Scan

/-! ## Sorted buckets -/

/-- The objects of a bucket, or of the nodes of one in the direction of the loop. -/
def objects (l : List (ℕ × Option α)) : List α := l.filterMap Prod.snd

/-- No two objects are equal when equal ones are rejected or replaced, and no object is twice there
when the same object is rejected. -/
def InOrder (dups : Dups) (g : α → α → ℤ) (a b : α) : Prop :=
  g a b ≤ 0 ∧ (dups = .reject ∨ dups = .replace → g a b ≠ 0) ∧ (dups = .objReject → a ≠ b)

section Insertion

variable {dups : Dups} {g : α → α → ℤ} {cmp : Option α → ℤ} {node : ℕ} {obj x : α}

omit [DecidableEq α] in
lemma InOrder.of_lt (hg : Comparator g) {a b : α} (h : g a b < 0) : InOrder dups g a b := by
  refine ⟨h.le, fun _ => h.ne, fun _ hab => ?_⟩
  have hself := hg.self a
  rw [← hab] at h
  omega

lemma mem_objects_scanBucket (hx : x ∈ objects (scanBucket dups cmp node obj l).2) : x = obj ∨ x ∈ objects l := by
  obtain ⟨e, he, hex⟩ := mem_filterMap.mp hx
  have hshape : InsertShape (fun _ => True) node obj l (scanBucket dups cmp node obj l).2 :=
    scanBucket_shape (fun _ _ _ => trivial) node obj l
  rcases hshape.mem he with rfl | ⟨o, ho, rfl | ⟨-, hobj⟩⟩
  · exact .inl (Option.some.inj hex).symm
  · exact .inr (mem_filterMap.mpr ⟨e, ho, hex⟩)
  · exact .inl (Option.some.inj (hex.symm.trans hobj))

/-- **Insertion** keeps a bucket in order when the sort function is called with objects only.
Induction on the bucket. -/
lemma scanBucket_inOrder (hg : Comparator g) (hlt : ∀ a, cmp (some a) < 0 ↔ g a obj < 0)
    (hgt : ∀ a, 0 < cmp (some a) ↔ 0 < g a obj)
    (h : (objects l).Pairwise (InOrder dups g)) (hcls : ∀ o ∈ scanCalls dups cmp obj l, o ≠ none) :
    (objects (scanBucket dups cmp node obj l).2).Pairwise (InOrder dups g) := by
  induction l with
  | nil => exact pairwise_singleton _ _
  | cons cur rest ih =>
    obtain ⟨n, o⟩ := cur
    obtain ⟨a, rfl⟩ := ne_none_iff_exists'.mp (hcls o mem_cons_self)
    have hobs : objects ((n, some a) :: rest) = a :: objects rest := rfl
    rw [hobs, pairwise_cons] at h
    have hsign := hg.sign a obj
    have hsign' := hg.sign obj a
    have hlt := hlt a
    have hgt := hgt a
    by_cases hstop : Stops dups cmp obj (some a)
    · rw [scanBucket_stops hstop]
      split_ifs with hbig hrpl
      · have hbig : 0 < cmp (some a) := hbig
        have hless : g obj a < 0 := by omega
        refine pairwise_cons.mpr ⟨fun x hx => ?_, pairwise_cons.mpr h⟩
        rcases mem_cons.mp hx with rfl | hx
        · exact .of_lt hg hless
        · exact .of_lt hg (hg.lt_of_lt_of_le hless (h.1 x hx).1)
      · refine pairwise_cons.mpr ⟨fun x hx => .of_lt hg ?_, h.2⟩
        obtain ⟨hle, hne, -⟩ := h.1 x hx
        have hne := hne (.inr hrpl)
        have hzero : cmp (some a) = 0 := by
          rcases hstop with hbig' | hzero
          · exact absurd hbig' hbig
          · exact hzero.1
        by_contra hxo
        have hxo : g x obj ≤ 0 := (hg.sign x obj).mpr (by omega)
        have hxa : g x a ≤ 0 := hg.trans x obj a hxo (by omega)
        have hsign'' := hg.sign x a
        omega
      · exact pairwise_cons.mpr h
    · rw [scanBucket_goesOn hstop]
      rw [scanCalls, if_neg hstop, forall_mem_cons] at hcls
      refine pairwise_cons.mpr ⟨fun x hx => ?_, ih h.2 hcls.2⟩
      rcases mem_objects_scanBucket hx with rfl | hx
      · unfold Stops at hstop
        refine ⟨by omega, ?_, ?_⟩
        · intro hdups hzero
          exact hstop (.inr ⟨by omega, hdups.imp_right .inl⟩)
        · rintro rfl rfl
          exact hstop (.inr ⟨by omega, .inr (.inr ⟨rfl, rfl⟩)⟩)
      · exact h.1 x hx

end Insertion

end Buckets

section Tables

variable {α : Type}

/-! ## The container and its iterators -/

def BucketSorted (dups : Dups) (f : Option α → α → ℤ) (bucket : List (ℕ × Option α)) : Prop :=
  (objects bucket).Pairwise (InOrder dups fun a b => f (some a) b)

structure IteratedHash (α : Type) where
  table : HashTable α
  iters : List (IteratorFlags × Ao2Iterator)

inductive HashOp (α : Type)
  | link (obj : α)
  | unlink (node : ℕ)
  | iteratorInit (flags : IteratorFlags)
  | iteratorNext (i : ℕ)
  | iteratorDestroy (i : ℕ)

namespace IteratedHash

def new (conf : HashConf α) : IteratedHash α := ⟨.new conf, []⟩

/-- Drop a reference to a node. It is destroyed when the container gave up its reference, and no
iterator has one.
Source: `ao2_ref(node, -1)`, `hash_ao2_node_destructor` -/
def unref (w : IteratedHash α) (node : ℕ) : IteratedHash α :=
  if w.iters.any fun it => it.2.lastNode = some node then w else { w with table := w.table.destroyNode node }

/-- Replace an iterator; its reference to the last node is dropped.
Source: `__ao2_iterator_next` (`ao2_ref(iter->last_node, -1)`) -/
def setIter (w : IteratedHash α) (i : ℕ) (flags : IteratorFlags) (iter : Ao2Iterator) (last : Option ℕ) :
    IteratedHash α :=
  let w := { w with iters := w.iters.set i (flags, iter) }
  match last with
  | none => w
  | some node => w.unref node

def iteratorNext (w : IteratedHash α) (i : ℕ) : IteratedHash α :=
  match w.iters[i]? with
  | none => w
  | some (flags, iter) =>
    if iter.complete then w
    else
      match hashAo2IteratorNext w.table flags.direction iter.lastNode with
      | none => w.setIter i flags ⟨none, true⟩ iter.lastNode
      | some node =>
        let w := if flags.unlink then { w with table := w.table.unlinkObj node } else w
        w.setIter i flags ⟨some node, false⟩ iter.lastNode

/-- One operation, under the lock of the container. Objects are unlinked from the nodes that have
one.
Source: `__ao2_link`, `__ao2_unlink`, `ao2_iterator_init`, `__ao2_iterator_next`,
`ao2_iterator_destroy` -/
def step [DecidableEq α] (conf : HashConf α) (w : IteratedHash α) : HashOp α → IteratedHash α
  | .link obj => { w with table := (w.table.link conf obj).2 }
  | .unlink node =>
    if w.table.buckets.flatten.any fun e => e.1 = node ∧ e.2.isSome then
      unref { w with table := w.table.unlinkObj node } node
    else w
  | .iteratorInit flags => { w with iters := w.iters ++ [(flags, ⟨none, false⟩)] }
  | .iteratorNext i => w.iteratorNext i
  | .iteratorDestroy i =>
    match w.iters[i]? with
    | none => w
    | some (flags, iter) => w.setIter i flags ⟨none, true⟩ iter.lastNode

end IteratedHash

/-- The nodes that the loop goes through, and the sign of a comparison in its direction.
Source: `hash_ao2_insert_node` (`AO2_CONTAINER_ALLOC_OPT_INSERT_BEGIN`) -/
def scanOf (conf : HashConf α) (f : Option α → α → ℤ) (obj : α) (bucket : List (ℕ × Option α)) :
    List (ℕ × Option α) × (Option α → ℤ) :=
  if conf.insertBegin then (bucket.reverse, fun o => -f o obj) else (bucket, fun o => f o obj)

/-- The objects that the sort function is called with when an object is linked.
Source: `hash_ao2_insert_node` -/
def sortCalls [DecidableEq α] (conf : HashConf α) (f : Option α → α → ℤ) (t : HashTable α) (obj : α) : List (Option α) :=
  let scan := scanOf conf f obj (t.bucketAt (conf.bucket obj))
  scanCalls conf.dups scan.2 obj scan.1

def Clear (conf : HashConf α) (f : Option α → α → ℤ) (t : HashTable α) (obj : α) : Prop :=
  let scan := scanOf conf f obj (t.bucketAt (conf.bucket obj))
  ∀ p n q, scan.1 = p ++ (n, none) :: q → ∃ e ∈ p, e.2 ≠ none ∧ Stops conf.dups scan.2 obj e.2

section

variable {conf : HashConf α} {f : Option α → α → ℤ}

def HashTable.Sorted (conf : HashConf α) (f : Option α → α → ℤ) (t : HashTable α) : Prop :=
  ∀ bucket ∈ t.buckets, BucketSorted conf.dups f bucket

lemma HashTable.sorted_new : (HashTable.new conf).Sorted conf f := by
  intro bucket hbucket
  rw [eq_of_mem_replicate hbucket]
  exact List.Pairwise.nil

variable {t : HashTable α} {dups : Dups} {bucket bucket' l : List (ℕ × Option α)} {w : IteratedHash α} {obj : α}

lemma BucketSorted.sublist (h : BucketSorted dups f bucket)
    (hsub : (objects bucket').Sublist (objects bucket)) : BucketSorted dups f bucket' :=
  List.Pairwise.sublist hsub h

lemma objects_emptied_sublist (node : ℕ) (bucket : List (ℕ × Option α)) :
    (objects (bucket.map fun e => if e.1 = node then (e.1, none) else e)).Sublist (objects bucket) := by
  induction bucket with
  | nil => exact List.Sublist.refl _
  | cons e bucket ih =>
    obtain ⟨n, o⟩ := e
    rw [map_cons]
    by_cases hn : n = node
    · rw [if_pos hn]
      cases o with
      | none => exact ih
      | some a => exact List.Sublist.cons a ih
    rw [if_neg hn]
    cases o with
    | none => exact ih
    | some a => exact List.Sublist.cons_cons a ih

section

variable (h : t.Sorted conf f)
include h

lemma HashTable.Sorted.bucketAt (i : ℕ) : BucketSorted conf.dups f (t.bucketAt i) := by
  unfold HashTable.bucketAt
  rw [getD_eq_getElem?_getD]
  cases hb : t.buckets[i]? with
  | none => exact List.Pairwise.nil
  | some bucket => exact h bucket (mem_of_getElem? hb)

lemma HashTable.Sorted.set (i : ℕ) (hbucket : BucketSorted conf.dups f bucket) :
    ∀ b ∈ t.buckets.set i bucket, BucketSorted conf.dups f b := by
  intro b hb
  rcases mem_or_eq_of_mem_set hb with hb | rfl
  · exact h b hb
  · exact hbucket

lemma HashTable.Sorted.unlinkObj (node : ℕ) : (t.unlinkObj node).Sorted conf f := by
  unfold HashTable.unlinkObj
  split_ifs
  · intro bucket hbucket
    obtain ⟨b, hb, rfl⟩ := mem_map.mp hbucket
    exact (h b hb).sublist (objects_emptied_sublist node b)
  · exact h

lemma HashTable.Sorted.destroyNode (node : ℕ) : (t.destroyNode node).Sorted conf f := by
  unfold HashTable.destroyNode
  split_ifs
  · exact h.set _ ((h.bucketAt _).sublist (filter_sublist.filterMap _))
  · exact h

end

lemma pairwise_inOrder_reverse {g : α → α → ℤ} :
    (objects l.reverse).Pairwise (InOrder dups fun a b => g b a) ↔ (objects l).Pairwise (InOrder dups g) := by
  unfold objects
  rw [filterMap_reverse, pairwise_reverse]
  have hflip : ∀ a b, InOrder dups (fun a b => g b a) b a ↔ InOrder dups g a b := by
    intro a b
    unfold InOrder
    rw [ne_comm (a := b)]
  simp [hflip]

section

variable (h : w.table.Sorted conf f)
include h

lemma HashTable.Sorted.unref (node : ℕ) : (w.unref node).table.Sorted conf f := by
  unfold IteratedHash.unref
  split_ifs
  · exact h
  · exact h.destroyNode node

lemma HashTable.Sorted.setIter (i : ℕ) (flags : IteratorFlags)
    (iter : Ao2Iterator) (last : Option ℕ) : (w.setIter i flags iter last).table.Sorted conf f := by
  cases last with
  | none => exact h
  | some node => exact HashTable.Sorted.unref (w := { w with iters := w.iters.set i (flags, iter) }) h node

lemma HashTable.Sorted.iteratorNext (i : ℕ) : (w.iteratorNext i).table.Sorted conf f := by
  unfold IteratedHash.iteratorNext
  split
  · exact h
  split_ifs
  · exact h
  · split
    · exact h.setIter _ _ _ _
    · exact (h.unlinkObj _).setIter (w := { w with table := w.table.unlinkObj _ }) _ _ _ _
  · split <;> exact h.setIter _ _ _ _

end

variable [DecidableEq α]

section

variable (hsort : conf.sortFn = some f) (hf : Comparator fun a b => f (some a) b)
include hsort hf

lemma BucketSorted.insert {node : ℕ} (h : BucketSorted conf.dups f bucket)
    (hcls : ∀ o ∈ scanCalls conf.dups (scanOf conf f obj bucket).2 obj (scanOf conf f obj bucket).1, o ≠ none) :
    BucketSorted conf.dups f (insertBucket conf node obj bucket).2 := by
  unfold insertBucket
  unfold scanOf at hcls
  rw [hsort]
  cases hbegin : conf.insertBegin with
  | false =>
    rw [hbegin] at hcls
    exact scanBucket_inOrder hf (fun _ => Iff.rfl) (fun _ => Iff.rfl) h hcls
  | true =>
    rw [hbegin] at hcls
    have hflip : Comparator fun a b => f (some b) a :=
      ⟨fun a b => hf.sign b a, fun a b c hab hbc => hf.trans c b a hbc hab⟩
    unfold BucketSorted
    rw [← pairwise_inOrder_reverse, reverse_reverse]
    refine scanBucket_inOrder hflip ?_ ?_ (pairwise_inOrder_reverse.mpr h) hcls
    · intro a
      have hsign : f (some a) obj ≤ 0 ↔ 0 ≤ f (some obj) a := hf.sign a obj
      omega
    · intro a
      have hsign : f (some obj) a ≤ 0 ↔ 0 ≤ f (some a) obj := hf.sign obj a
      omega

lemma HashTable.Sorted.link (h : t.Sorted conf f) (hcls : ∀ o ∈ sortCalls conf f t obj, o ≠ none) :
    (t.link conf obj).2.Sorted conf f := by
  unfold HashTable.link hashAo2InsertNode
  dsimp only
  rw [update_self]
  exact h.set _ (BucketSorted.insert hsort hf (h.bucketAt _) hcls)

lemma HashTable.Sorted.step (h : w.table.Sorted conf f) {op : HashOp α}
    (hop : ∀ obj, op = .link obj → ∀ o ∈ sortCalls conf f w.table obj, o ≠ none) :
    (w.step conf op).table.Sorted conf f := by
  cases op with
  | link obj => exact h.link hsort hf (hop obj rfl)
  | unlink node =>
    unfold IteratedHash.step
    dsimp only
    split_ifs
    · exact HashTable.Sorted.unref (w := { w with table := w.table.unlinkObj node }) (h.unlinkObj node) node
    · exact h
  | iteratorInit flags => exact h
  | iteratorNext i => exact h.iteratorNext i
  | iteratorDestroy i =>
    unfold IteratedHash.step
    dsimp only
    split
    · exact h
    · exact h.setIter _ _ _ _

end

end

/-! ## Runs -/

variable [DecidableEq α]

/-- What is asked of an operation: the sort function is called with objects only, and the buckets
are sorted afterwards. -/
structure SoundOp (conf : HashConf α) (f : Option α → α → ℤ) (w : IteratedHash α) (op : HashOp α) : Prop where
  calls : ∀ obj, op = .link obj → ∀ o ∈ sortCalls conf f w.table obj, o ≠ none
  sorted : (w.step conf op).table.Sorted conf f

/-- **Linking into sorted buckets**: in any interleaving of linking, unlinking and iterating, the
sort function is only called with objects and every bucket stays sorted, exactly when each object is
linked where the way is clear. -/
theorem hashRun_sound_iff (conf : HashConf α) {f : Option α → α → ℤ} (hsort : conf.sortFn = some f)
    (hf : Comparator fun a b => f (some a) b) (ops : List (HashOp α)) :
    Each (total (IteratedHash.step conf)) (SoundOp conf f) (.new conf) ops ↔
      Each (total (IteratedHash.step conf)) (fun w op => ∀ obj, op = .link obj → Clear conf f w.table obj) (.new conf) ops := by
  refine each_iff_of_inv (I := fun w => w.table.Sorted conf f) ?_ ?_ HashTable.sorted_new
  · intro w op h
    have hcls : ∀ obj, (∀ o ∈ sortCalls conf f w.table obj, o ≠ none) ↔ Clear conf f w.table obj := fun obj =>
      scanCalls_clear_iff
    constructor
    · intro hsnd obj hop
      exact (hcls obj).mp (hsnd.calls obj hop)
    · intro hclr
      have hop : ∀ obj, op = .link obj → ∀ o ∈ sortCalls conf f w.table obj, o ≠ none := fun obj hop =>
        (hcls obj).mpr (hclr obj hop)
      exact ⟨hop, h.step hsort hf hop⟩
  · rintro w op - hsnd _ ⟨⟩
    exact hsnd.sorted

end Tables

def compareNumbers (o : Option ℕ) (b : ℕ) : ℤ := (o.getD 0 : ℤ) - b

def HashConf.numbers : HashConf ℕ := ⟨fun _ => 0, 1, Nat.one_pos, some compareNumbers, .reject, false⟩

/-- An iterator refers to the first of two numbers; that one is unlinked, and a third one linked. -/
def linkWhileIterating : List (HashOp ℕ) :=
  [.link 1, .link 2, .iteratorInit ⟨.right, false⟩, .iteratorNext 0, .unlink 0, .link 3]

theorem hashRun_sound_iff_numbers :
    Each (total (IteratedHash.step .numbers)) (SoundOp .numbers compareNumbers) (.new .numbers) linkWhileIterating ↔
      Each (total (IteratedHash.step .numbers)) (fun w op => ∀ obj, op = .link obj → Clear .numbers compareNumbers w.table obj) (.new .numbers)
        linkWhileIterating := by
  refine hashRun_sound_iff .numbers rfl ⟨?_, ?_⟩ linkWhileIterating
  all_goals
    unfold compareNumbers
    simp only [getD_some]
    omega

/-- The third number is compared with the missing object of the first node. -/
theorem hashRun_not_sound :
    ¬ Each (total (IteratedHash.step .numbers)) (SoundOp .numbers compareNumbers) (.new .numbers) linkWhileIterating := by
  intro h
  have hlink := (((((h.2 _ rfl).2 _ rfl).2 _ rfl).2 _ rfl).2 _ rfl).1
  exact hlink.calls 3 rfl none (by decide) rfl

end Telephony.Ao2
