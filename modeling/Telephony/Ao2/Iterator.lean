import Telephony.Ao2.Hash
import Telephony.Ao2.RbRuns

/-!
# Iterating while a container changes

`main/astobj2_container.c`: an iterator keeps a reference to the node it returned last, and between
two of its steps other users link objects, take objects out, and let go of nodes. A node is
destroyed some time after it was emptied, but not while the iterator refers to it.
-/

namespace Telephony.Ao2

open Lib List Function
open Lib.BinTree hiding node

section Iterator

variable {α : Type} {pos : Option ℕ}

/-! ## The iterator of the red-black container -/

def rbAo2IteratorNext (self : RbTree α) (d : Side) : Option ℕ → Option (Option ℕ)
  | none =>
    match self.root with
    | none => some none
    | some root => do
      let node ← rbNodeMost d.flip self root
      if (self.node node).obj.isSome then some (some node) else rbNodeStepFull d self node
  | some node => rbNodeStepFull d self node

lemma inDirection_listing (d : Side) (t : BinTree (Cell α)) :
    inDirection d (listing t) = (inorder d t).map fun c => (c.id, c.obj) := by
  cases d with
  | right => rfl
  | left => rw [show Side.left = Side.right.flip from rfl, inorder_flip, map_reverse]; rfl

lemma firstFull_cells (l : List (Cell α)) :
    firstFull (l.map fun c => (c.id, c.obj)) = (l.find? (·.obj.isSome)).map Cell.id := by
  rw [firstFull, find?_map, Option.map_map]
  rfl

lemma rbAo2IteratorNext_spec {self : RbTree α} {t : BinTree (Cell α)} (h : Rep self t) (d : Side)
    (hpos : ∀ k, pos = some k → k ∈ (listing t).map Prod.fst) :
    rbAo2IteratorNext self d pos = some ((advance (inDirection d (listing t)) pos).map Prod.fst) := by
  rw [advance, ← firstFull_eq, inDirection_listing]
  cases pos with
  | none =>
    rw [afterPos, firstFull_cells, rbAo2IteratorNext, h.root_eq]
    cases hroot : rootId t with
    | none => simp [eq_nil_of_rootId hroot]
    | some x =>
      have hplug : Rep self (plug [] t) := h
      obtain ⟨inner, w, b, rfl, hside, hmost⟩ := rbNodeMost_spec d.flip hplug hroot
      obtain ⟨rest, hrest⟩ := inorder_flip_most w b hside
      rw [Side.flip_flip] at hrest
      have hspl : inorder d (plug inner (fork d.flip w nil b)) = [] ++ w :: rest := hrest
      have hobj := hplug.obj_eq hspl
      simp only [hmost, Option.bind_eq_bind, Option.bind_some, hobj, hrest]
      cases hw : w.obj with
      | none => simp [rbNodeStepFull_spec h hspl, hw]
      | some v => simp [hw]
  | some k =>
    have hk : k ∈ ((inorder d t).map fun c => (c.id, c.obj)).map Prod.fst := by
      rw [← inDirection_listing, map_inDirection, mem_inDirection]
      exact hpos k rfl
    have hnd : (((inorder d t).map fun c => (c.id, c.obj)).map Prod.fst).Nodup := by
      rw [← inDirection_listing, map_inDirection, nodup_inDirection]
      exact (listing_ids_perm t).nodup_iff.mpr h.nodup
    obtain ⟨e, he, rfl⟩ := mem_map.mp hk
    obtain ⟨c, hc, rfl⟩ := mem_map.mp he
    obtain ⟨pre, post, hlist⟩ := append_of_mem hc
    rw [rbAo2IteratorNext, rbNodeStepFull_spec h hlist, hlist, map_append, map_cons, afterPos_eq, firstFull_cells]
    rw [hlist, map_append, map_append, nodup_append] at hnd
    exact fun hmem => hnd.2.2 _ hmem _ mem_cons_self rfl

/-! ## Containers of both kinds -/

/-- Source: `__ao2_container_alloc_hash`, `__ao2_container_alloc_list`,
`__ao2_container_alloc_rbtree` -/
inductive ContainerConf (α : Type)
  | hash (conf : HashConf α)
  | rbtree (conf : RbConf α)

/-- The sort function of a red-black container is an order; that of a hash container that replaces
equal objects does not take a missing object for an equal one. -/
def ContainerConf.Ordered : ContainerConf α → Prop
  | .hash conf => conf.KeepsEmpty
  | .rbtree conf => Comparator conf.sortFn

/-- Source: `struct ao2_container` (`v_table`) -/
inductive Ao2Container (α : Type)
  | hash (conf : HashConf α) (table : HashTable α)
  | rbtree (conf : RbConf α) (tree : RbTree α)

namespace Ao2Container

def alloc : ContainerConf α → Ao2Container α
  | .hash conf => hash conf (HashTable.new conf)
  | .rbtree conf => rbtree conf RbTree.new

def step [DecidableEq α] : Ao2Container α → ContainerOp α → Option (Ao2Container α)
  | hash conf table, op => (hashStep conf table op).map (hash conf)
  | rbtree conf tree, op => (rbStep conf tree op).map (rbtree conf)

def run [DecidableEq α] (ops : List (ContainerOp α)) (c : Ao2Container α) : Option (Ao2Container α) := ops.foldlM step c

def iteratorNext (d : Side) (last : Option ℕ) : Ao2Container α → Option (Option ℕ)
  | hash _ table => some (hashAo2IteratorNext table d last)
  | rbtree _ tree => rbAo2IteratorNext tree d last

/-- Source: `struct ao2_container_node` (`obj`) -/
def objAt (n : ℕ) : Ao2Container α → Option α
  | hash _ table => (table.buckets.flatten.find? fun e => e.1 = n).bind Prod.snd
  | rbtree _ tree => (tree.node n).obj

def Holds (n : ℕ) (o : α) : Ao2Container α → Prop
  | hash _ table => (n, some o) ∈ table.buckets.flatten
  | rbtree _ tree => tree.isLinked n = true ∧ (tree.node n).obj = some o

def fresh : Ao2Container α → ℕ
  | hash _ table => table.fresh
  | rbtree _ tree => tree.fresh

/-- Source: `hash_ao2_integrity`, `rb_ao2_integrity` -/
def Lists (l : List (ℕ × Option α)) : Ao2Container α → Prop
  | hash conf table => table.Valid conf ∧ l = table.buckets.flatten
  | rbtree conf tree => ∃ t, Ao2.Valid conf tree t ∧ l = listing t

def Ordered : Ao2Container α → Prop
  | hash conf _ => conf.KeepsEmpty
  | rbtree conf _ => Comparator conf.sortFn

section Lists

variable {c : Ao2Container α} {l : List (ℕ × Option α)}

lemma alloc_lists (conf : ContainerConf α) : (alloc conf).Lists [] := by
  cases conf with
  | hash conf => exact ⟨HashTable.valid_new conf, by simp [HashTable.new]⟩
  | rbtree conf => exact ⟨nil, valid_new conf, rfl⟩

lemma alloc_ordered {conf : ContainerConf α} (h : conf.Ordered) : (alloc conf).Ordered := by
  cases conf with
  | hash conf => exact h
  | rbtree conf => exact h

lemma step_lists [DecidableEq α] (ho : c.Ordered) (h : c.Lists l) (op : ContainerOp α) :
    ∃ c' l', c.step op = some c' ∧ c'.Ordered ∧ c'.Lists l' ∧ NodesEdit op c.fresh c'.fresh l l' := by
  cases c with
  | hash conf table =>
    obtain ⟨hval, rfl⟩ := h
    obtain ⟨table', hstep, hval', hedit⟩ := hashStep_valid hval ho op
    exact ⟨hash conf table', _, by rw [step, hstep, Option.map_some], ho, ⟨hval', rfl⟩, hedit⟩
  | rbtree conf tree =>
    obtain ⟨t, hval, rfl⟩ := h
    obtain ⟨tree', t', hstep, hval', -, hedit⟩ := rbStep_valid ho hval op
    exact ⟨rbtree conf tree', listing t', by rw [step, hstep, Option.map_some], ho, ⟨t', hval', rfl⟩, hedit⟩

lemma run_lists [DecidableEq α] (ops : List (ContainerOp α)) (ho : c.Ordered) (h : c.Lists l) :
    ∃ c', run ops c = some c' ∧ c'.Ordered ∧ ∃ l', c'.Lists l' := by
  refine foldlM_total (fun op _ c h => ?_) ⟨ho, l, h⟩
  obtain ⟨ho, l, h⟩ := h
  obtain ⟨c', l', hstep, ho', h', -⟩ := step_lists ho h op
  exact ⟨c', hstep, ho', l', h'⟩

section

variable (h : c.Lists l)
include h

lemma nodup_of_lists : (l.map Prod.fst).Nodup := by
  cases c with
  | hash conf table =>
    obtain ⟨hval, rfl⟩ := h
    exact hval.nodup
  | rbtree conf tree =>
    obtain ⟨t, hval, rfl⟩ := h
    exact hval.nodup_listing

lemma lt_fresh_of_lists : ∀ k ∈ l.map Prod.fst, k < c.fresh := by
  cases c with
  | hash conf table =>
    obtain ⟨hval, rfl⟩ := h
    exact hval.lt_fresh
  | rbtree conf tree =>
    obtain ⟨t, hval, rfl⟩ := h
    exact hval.lt_fresh

lemma objAt_of_mem {e : ℕ × Option α} (he : e ∈ l) : c.objAt e.1 = e.2 := by
  cases c with
  | hash conf table =>
    obtain ⟨hval, rfl⟩ := h
    obtain ⟨a, b, hab⟩ := append_of_mem he
    have hnd := hval.nodup
    rw [hab, map_append, nodup_append] at hnd
    have hnone : a.find? (fun x => x.1 = e.1) = none := by
      refine find?_eq_none.mpr fun x hx => ?_
      simpa using hnd.2.2 x.1 (mem_map_of_mem hx) e.1 mem_cons_self
    simp [objAt, hab, hnone]
  | rbtree conf tree =>
    obtain ⟨t, hval, rfl⟩ := h
    exact hval.rep.obj_of_mem_listing he

lemma holds_iff {n : ℕ} {o : α} : c.Holds n o ↔ (n, some o) ∈ l := by
  cases c with
  | hash conf table =>
    obtain ⟨-, rfl⟩ := h
    exact Iff.rfl
  | rbtree conf tree =>
    obtain ⟨t, hval, rfl⟩ := h
    rw [Holds, hval.isLinked_iff, mem_ids_iff]
    constructor
    · rintro ⟨hmem, hobj⟩
      obtain ⟨e, he, rfl⟩ := mem_map.mp hmem
      rw [hval.rep.obj_of_mem_listing he] at hobj
      exact hobj ▸ he
    · intro he
      exact ⟨mem_map_of_mem he, hval.rep.obj_of_mem_listing he⟩

lemma iteratorNext_spec (d : Side) (hpos : ∀ k, pos = some k → k ∈ l.map Prod.fst) :
    c.iteratorNext d pos = some ((advance (inDirection d l) pos).map Prod.fst) := by
  cases c with
  | hash conf table =>
    obtain ⟨hval, rfl⟩ := h
    rw [iteratorNext, hashAo2IteratorNext_spec hval d hpos]
  | rbtree conf tree =>
    obtain ⟨t, hval, rfl⟩ := h
    exact rbAo2IteratorNext_spec hval.rep d hpos

end

end Lists

end Ao2Container

/-! ## Iterators -/

/-- The direction of an iterator, and whether it takes out the objects that it returns.
Source: `enum ao2_iterator_flags` (`AO2_ITERATOR_DESCENDING`, `AO2_ITERATOR_UNLINK`) -/
structure IteratorFlags where
  direction : Side
  unlink : Bool

structure Ao2Iterator where
  lastNode : Option ℕ
  complete : Bool

def ao2IteratorNext [DecidableEq α] (flags : IteratorFlags) (c : Ao2Container α) (iter : Ao2Iterator) :
    Option (Ao2Container α × Ao2Iterator × Option (ℕ × α)) :=
  if iter.complete then some (c, iter, none)
  else do
    match ← c.iteratorNext flags.direction iter.lastNode with
    | none => some (c, ⟨none, true⟩, none)
    | some node =>
      let ret := (c.objAt node).map (node, ·)
      let c ← if flags.unlink then c.step (.unlinkObj node) else some c
      some (c, ⟨some node, false⟩, ret)

structure IterState (α : Type) where
  container : Ao2Container α
  iter : Ao2Iterator
  out : List (ℕ × α)

def ao2IteratorInit (c : Ao2Container α) : IterState α := ⟨c, ⟨none, false⟩, []⟩

inductive IterOp (α : Type)
  | next
  | other (op : ContainerOp α)

def Ao2Iterator.pins [DecidableEq α] (iter : Ao2Iterator) (op : ContainerOp α) : Bool :=
  match iter.lastNode with
  | none => false
  | some node => op = .destroyNode node

def iterStep [DecidableEq α] (flags : IteratorFlags) (s : IterState α) :
    IterOp α → Option (IterState α)
  | .next => (ao2IteratorNext flags s.container s.iter).map fun (c, iter, ret) =>
    ⟨c, iter, s.out ++ ret.toList⟩
  | .other op =>
    if s.iter.pins op then some s
    else (s.container.step op).map fun c => { s with container := c }

def iterRun [DecidableEq α] (flags : IteratorFlags) (ops : List (IterOp α)) (s : IterState α) : Option (IterState α) :=
  ops.foldlM (iterStep flags) s

def WhileIterating [DecidableEq α] (flags : IteratorFlags) (P : Ao2Container α → Prop) :
    List (IterOp α) → IterState α → Prop
  | [], s => s.iter.complete = false → P s.container
  | op :: ops, s => (s.iter.complete = false → P s.container) ∧
      ∀ s', iterStep flags s op = some s' → WhileIterating flags P ops s'

/-! ## What holds throughout -/

def IterState.iteration (s : IterState α) : Iteration ℕ α := ⟨s.iter.lastNode, s.iter.complete, s.out⟩

/-- The state of a run: the container is valid with the nodes `l`, and what was returned is in their
order. -/
structure IterState.Inv (flags : IteratorFlags) (s : IterState α) (l : List (ℕ × Option α)) : Prop where
  ordered : s.container.Ordered
  lists : s.container.Lists l
  inv : s.iteration.Inv (inDirection flags.direction l) (· < s.container.fresh)

def IterState.Pending (flags : IteratorFlags) (s : IterState α) (l : List (ℕ × Option α)) (n : ℕ) (o : α) : Prop :=
  s.iteration.Pending (inDirection flags.direction l) n o

/-- What one step does: it keeps the state, an object that stays is still to come or was returned,
and only an object that is there is returned. -/
structure IterState.Steps (flags : IteratorFlags) (s : IterState α) (l : List (ℕ × Option α))
    (s' : IterState α) (l' : List (ℕ × Option α)) : Prop where
  inv : s'.Inv flags l'
  pending : ∀ n o, s.Pending flags l n o → (s'.iter.complete = false → s'.container.Holds n o) →
    s'.Pending flags l' n o
  out : s'.out = s.out ∨ ∃ n o, s.iter.complete = false ∧ s.container.Holds n o ∧ s'.out = s.out ++ [(n, o)]

section Steps

variable {flags : IteratorFlags} {s : IterState α} {l l' : List (ℕ × Option α)}

lemma IterState.Inv.mem_of_lastNode (h : s.Inv flags l) {k : ℕ} (hk : s.iter.lastNode = some k) :
    k ∈ l.map Prod.fst := by
  have hmem := h.inv.pinned k hk
  rwa [map_inDirection, mem_inDirection] at hmem

lemma IterState.Inv.edit (h : s.Inv flags l) {op : ContainerOp α} {c : Ao2Container α}
    (ho : c.Ordered) (hl : c.Lists l')
    (hedit : NodesEdit op s.container.fresh c.fresh l l')
    (hpin : ∀ k, s.iter.lastNode = some k → op ≠ .destroyNode k) :
    ({ s with container := c } : IterState α).Inv flags l' ∧
      ∀ n o, s.Pending flags l n o → (s.iter.complete = false → c.Holds n o) →
        ({ s with container := c } : IterState α).Pending flags l' n o := by
  have hdir := hedit.inDirection flags.direction
  have hpos : ∀ k, s.iter.lastNode = some k → k ∈ (inDirection flags.direction l').map Prod.fst := by
    intro k hk
    exact hdir.stays k (h.inv.pinned k hk) (hpin k hk)
  refine ⟨⟨ho, hl, h.inv.edit hdir.edit hpos (fun k hk => hk.trans_le hedit.fresh_le) ?_⟩, ?_⟩
  · intro k hk
    rw [map_inDirection, mem_inDirection] at hk
    exact Ao2Container.lt_fresh_of_lists hl k hk
  · intro n o hp hstay
    by_cases hall : s.iter.complete = false
    · refine Iteration.Pending.edit hp h.inv hdir.edit hpos ?_
      rw [mem_inDirection]
      exact (Ao2Container.holds_iff hl).mp (hstay hall)
    · exact .inl (hp.resolve_right fun hrt => hall hrt.1)

variable [DecidableEq α]

lemma iterStep_other (h : s.Inv flags l) (op : ContainerOp α) :
    ∃ s' l', iterStep flags s (.other op) = some s' ∧ s.Steps flags l s' l' := by
  cases hpins : s.iter.pins op with
  | true => exact ⟨s, l, by rw [iterStep, if_pos hpins], h, fun n o hp _ => hp, .inl rfl⟩
  | false =>
    have hpin : ∀ k, s.iter.lastNode = some k → op ≠ .destroyNode k := by
      intro k hk
      simpa [Ao2Iterator.pins, hk] using hpins
    obtain ⟨c, l', hstep, ho, hl, hedit⟩ := Ao2Container.step_lists h.ordered h.lists op
    obtain ⟨hinv, hpen⟩ := h.edit ho hl hedit hpin
    refine ⟨{ s with container := c }, l', ?_, hinv, hpen, .inl rfl⟩
    rw [iterStep, if_neg (by simp [hpins]), hstep, Option.map_some]

lemma iterStep_next (h : s.Inv flags l) : ∃ s' l', iterStep flags s .next = some s' ∧ s.Steps flags l s' l' := by
  cases hall : s.iter.complete with
  | true =>
    refine ⟨s, l, ?_, h, fun n o hp _ => hp, .inl rfl⟩
    simp [iterStep, ao2IteratorNext, hall]
  | false =>
    have hfind := Ao2Container.iteratorNext_spec h.lists flags.direction fun k hk => h.mem_of_lastNode hk
    have hinv := h.inv.next
    have hpend := fun n o (hp : s.Pending flags l n o) => Iteration.Pending.next hp h.inv
    cases hadv : advance (inDirection flags.direction l) s.iter.lastNode with
    | none =>
      have hnext : s.iteration.next (inDirection flags.direction l) = ⟨none, true, s.out⟩ := by
        simp [Iteration.next, IterState.iteration, hall, hadv]
      rw [hnext] at hinv hpend
      rw [hadv] at hfind
      refine ⟨⟨s.container, ⟨none, true⟩, s.out⟩, l, ?_, ⟨h.ordered, h.lists, hinv⟩,
        fun n o hp _ => hpend n o hp, .inl rfl⟩
      simp [iterStep, ao2IteratorNext, hall, hfind]
    | some e =>
      obtain ⟨n, o⟩ := e
      have hnext : s.iteration.next (inDirection flags.direction l) = ⟨some n, false, s.out ++ [(n, o)]⟩ := by
        simp [Iteration.next, IterState.iteration, hall, hadv]
      rw [hnext] at hinv hpend
      rw [hadv] at hfind
      obtain ⟨a, b, haft, -⟩ := advance_eq_some hadv
      have hmem : (n, some o) ∈ l := by
        have hin : (n, some o) ∈ afterPos (inDirection flags.direction l) s.iter.lastNode := by
          rw [haft]
          simp
        exact mem_inDirection.mp (mem_of_mem_afterPos hin)
      have hobj : s.container.objAt n = some o := Ao2Container.objAt_of_mem h.lists hmem
      have hh : s.container.Holds n o := (Ao2Container.holds_iff h.lists).mpr hmem
      have hmid : (⟨s.container, ⟨some n, false⟩, s.out ++ [(n, o)]⟩ : IterState α).Inv flags l :=
        ⟨h.ordered, h.lists, hinv⟩
      cases hunlink : flags.unlink with
      | false =>
        refine ⟨⟨s.container, ⟨some n, false⟩, s.out ++ [(n, o)]⟩, l, ?_, hmid,
          fun m p hp _ => hpend m p hp, .inr ⟨n, o, hall, hh, rfl⟩⟩
        simp [iterStep, ao2IteratorNext, hall, hfind, hobj, hunlink]
      | true =>
        obtain ⟨c, l', hstep, ho, hl, hedit⟩ :=
          Ao2Container.step_lists h.ordered h.lists (.unlinkObj n)
        obtain ⟨hinv', hpen⟩ := hmid.edit ho hl hedit (by simp)
        refine ⟨⟨c, ⟨some n, false⟩, s.out ++ [(n, o)]⟩, l', ?_, hinv',
          fun m p hp hstay => hpen m p (hpend m p hp) hstay, .inr ⟨n, o, hall, hh, rfl⟩⟩
        simp [iterStep, ao2IteratorNext, hall, hfind, hobj, hunlink, hstep]

lemma iterStep_inv (h : s.Inv flags l) (op : IterOp α) :
    ∃ s' l', iterStep flags s op = some s' ∧ s.Steps flags l s' l' := by
  cases op with
  | next => exact iterStep_next h
  | other op => exact iterStep_other h op

lemma WhileIterating.now {P : Ao2Container α → Prop} {ops : List (IterOp α)}
    (h : WhileIterating flags P ops s) : s.iter.complete = false → P s.container := by
  cases ops with
  | nil => exact h
  | cons op ops => exact h.1

/-- **A run.** Induction on the steps: an object that stays is still to come or was returned, and an
object that only one node ever holds is only returned with that node. -/
lemma iterRun_inv (ops : List (IterOp α)) (h : s.Inv flags l) :
    ∃ s' l', iterRun flags ops s = some s' ∧ s'.Inv flags l' ∧
      (∀ n o, s.Pending flags l n o → WhileIterating flags (Ao2Container.Holds n o) ops s →
        s'.Pending flags l' n o) ∧
      ∀ n o, (∀ e ∈ s.out, e.2 = o → e.1 = n) →
        WhileIterating flags (fun c => ∀ m, c.Holds m o → m = n) ops s →
        ∀ e ∈ s'.out, e.2 = o → e.1 = n := by
  induction ops generalizing s l with
  | nil => exact ⟨s, l, rfl, h, fun n o hp _ => hp, fun n o hout _ => hout⟩
  | cons op ops ih =>
    obtain ⟨s₁, l₁, hstep, hsteps⟩ := iterStep_inv h op
    obtain ⟨s', l', hrun, hinv, hpen, hout⟩ := ih hsteps.inv
    refine ⟨s', l', by rw [iterRun, foldlM_cons, hstep]; exact hrun, hinv, ?_, ?_⟩
    · rintro n o hp ⟨-, hwhl⟩
      have hwhl₁ := hwhl s₁ hstep
      exact hpen n o (hsteps.pending n o hp hwhl₁.now) hwhl₁
    rintro n o hold ⟨hnow, hwhl⟩
    refine hout n o ?_ (hwhl s₁ hstep)
    rcases hsteps.out with hsame | ⟨m, p, hall, hh, hnew⟩
    · rwa [hsame]
    intro e he heo
    rw [hnew, mem_append, mem_singleton] at he
    rcases he with he | rfl
    · exact hold e he heo
    · exact hnow hall m (heo ▸ hh)

end Steps

/-! ## Every run -/

lemma IterState.Inv.init {flags : IteratorFlags} {c : Ao2Container α} {l : List (ℕ × Option α)}
    (ho : c.Ordered) (hl : c.Lists l) : (ao2IteratorInit c).Inv flags l := by
  refine ⟨ho, hl, Iteration.Inv.init ?_ fun k hk => ?_⟩
  · rw [map_inDirection, nodup_inDirection]
    exact Ao2Container.nodup_of_lists hl
  · rw [map_inDirection, mem_inDirection] at hk
    exact Ao2Container.lt_fresh_of_lists hl k hk

/-- What an iteration over the nodes `l` of a container at its end gave out. -/
structure ReturnsOnce [DecidableEq α] (flags : IteratorFlags) (ops : List (IterOp α)) (c : Ao2Container α)
    (s : IterState α) (l : List (ℕ × Option α)) : Prop where
  run : iterRun flags ops (ao2IteratorInit c) = some s
  lists : s.container.Lists l
  nodup : (s.out.map Prod.fst).Nodup
  order : ((s.out.map Prod.fst).filter (· ∈ l.map Prod.fst)).Sublist (inDirection flags.direction (l.map Prod.fst))
  next : ∃ s', iterStep flags s .next = some s' ∧
    (s'.out = s.out ∨ ∃ n o, s.container.Holds n o ∧ s'.out = s.out ++ [(n, o)])
  once : s.iter.complete = true → ∀ n o,
    WhileIterating flags (Ao2Container.Holds n o) ops (ao2IteratorInit c) →
    s.out.count (n, o) = 1 ∧
      (WhileIterating flags (fun c => ∀ m, c.Holds m o → m = n) ops (ao2IteratorInit c) →
        (s.out.map Prod.snd).count o = 1)

/-- **An iterator of a container that changes.** In every interleaving with operations of others,
the returned nodes are distinct and in the order of the container, the next step returns nothing or
an object that is in it, and at the end a node that held an object all the time was returned with it
exactly once; so was the object, if no other node held it. -/
theorem ao2Iterator_returns_once [DecidableEq α] (conf : ContainerConf α) (hconf : conf.Ordered)
    (flags : IteratorFlags) (before : List (ContainerOp α)) (ops : List (IterOp α)) :
    ∃ c s l, Ao2Container.run before (.alloc conf) = some c ∧ ReturnsOnce flags ops c s l := by
  obtain ⟨c, hbef, ho, l₀, hl₀⟩ :=
    Ao2Container.run_lists before (Ao2Container.alloc_ordered hconf) (Ao2Container.alloc_lists conf)
  have hinit : (ao2IteratorInit c).Inv flags l₀ := .init ho hl₀
  obtain ⟨s, l, hrun, hinv, hpen, hunique⟩ := iterRun_inv ops hinit
  obtain ⟨s', l', hstep, hsteps⟩ := iterStep_next hinv
  have hnd : (s.out.map Prod.fst).Nodup := hinv.inv.nodup_out
  refine ⟨c, s, l, hbef, hrun, hinv.lists, hnd, ?_, ⟨s', hstep, ?_⟩, ?_⟩
  · have hord := hinv.inv.order
    rw [map_inDirection] at hord
    simp only [mem_inDirection] at hord
    exact hord
  · exact hsteps.out.imp id fun ⟨n, o, _, hh, hout⟩ => ⟨n, o, hh, hout⟩
  · intro hall n o hwhl
    have hsta : (ao2IteratorInit c).Pending flags l₀ n o := by
      refine .inr ⟨rfl, mem_inDirection.mpr ?_⟩
      exact (Ao2Container.holds_iff hl₀).mp (hwhl.now rfl)
    have hmem : (n, o) ∈ s.out := by
      rcases hpen n o hsta hwhl with hout | ⟨hopen, -⟩
      · exact hout
      · rw [show s.iteration.complete = s.iter.complete from rfl, hall] at hopen
        cases hopen
    have hcnt : s.out.count (n, o) = 1 := count_eq_one_of_mem (List.Nodup.of_map _ hnd) hmem
    refine ⟨hcnt, fun honly => ?_⟩
    have hnode := hunique n o (by simp [ao2IteratorInit]) honly
    rw [count_eq_countP, countP_map]
    refine Eq.trans (countP_congr fun e he => ?_) hcnt
    simp only [comp_apply, beq_iff_eq]
    exact ⟨fun heo => Prod.ext (hnode e he heo) heo, fun heq => by rw [heq]⟩

/-- The object of the node returned last is taken out, a new one is linked behind it, the next one
is taken out and its node destroyed. -/
theorem ao2Iterator_returns_once_changed :
    let conf : ContainerConf ℤ := .rbtree ⟨fun a b => a - b, .allow, false⟩
    let flags : IteratorFlags := ⟨.right, false⟩
    let before : List (ContainerOp ℤ) := [.link 10, .link 20, .link 30, .link 40, .link 50]
    let ops : List (IterOp ℤ) := [.next, .next, .other (.unlinkObj 1), .other (.destroyNode 1),
      .other (.link 25), .other (.unlinkObj 2), .other (.destroyNode 2), .next, .other (.destroyNode 1),
      .next, .next, .next]
    ((Ao2Container.run before (.alloc conf)).bind fun c =>
      (iterRun flags ops (ao2IteratorInit c)).map fun s => (s.out, s.iter.complete)) =
        some ([(0, 10), (1, 20), (5, 25), (3, 40), (4, 50)], true) ∧
    ∃ c s l, Ao2Container.run before (.alloc conf) = some c ∧ ReturnsOnce flags ops c s l := by
  intro conf flags before ops
  have hconf : conf.Ordered := ⟨fun a b => by simp only; omega, fun a b c hab hbc => by simp only at hab hbc ⊢; omega⟩
  exact ⟨by decide +kernel, ao2Iterator_returns_once conf hconf flags before ops⟩

-- a sort function that takes a missing object for 0: the emptied node that the iterator refers to gets the object 0, and
-- unlinking that one drops the reference of the iterator
example :
    ((Ao2Container.run [.link 5] (.alloc (.hash ⟨fun _ => 0, 1, Nat.one_pos, some fun o b => o.getD 0 - b, .replace,
        false⟩))).bind fun c => (iterRun ⟨.right, false⟩ [.next, .other (.unlinkObj 0), .other (.link 0),
          .other (.unlinkObj 0)] (ao2IteratorInit c)).map IterState.out) = none := by
  decide

/-- A list that allows duplicates returns an object that was linked twice twice, although the object
is in the container all the time. -/
theorem ao2Iterator_returns_twice :
    let conf : ContainerConf ℤ := .hash ⟨fun _ => 0, 1, Nat.one_pos, none, .allow, false⟩
    let flags : IteratorFlags := ⟨.right, false⟩
    let ops : List (IterOp ℤ) := [.next, .next, .next]
    ∃ c s, Ao2Container.run [.link 7, .link 7] (.alloc conf) = some c ∧
      iterRun flags ops (ao2IteratorInit c) = some s ∧ s.iter.complete = true ∧
      WhileIterating flags (fun c => ∃ n, c.Holds n 7) ops (ao2IteratorInit c) ∧
      (s.out.map Prod.snd).count 7 = 2 := by
  have hheld : ∃ n, (n, some (7 : ℤ)) ∈ [(0, some 7), (1, some 7)] := ⟨0, mem_cons_self⟩
  refine ⟨_, _, rfl, rfl, rfl, ⟨fun _ => hheld, fun s₁ h₁ => ?_⟩, rfl⟩
  obtain rfl := Option.some.inj h₁
  refine ⟨fun _ => hheld, fun s₂ h₂ => ?_⟩
  obtain rfl := Option.some.inj h₂
  refine ⟨fun _ => hheld, fun s₃ h₃ => ?_⟩
  obtain rfl := Option.some.inj h₃
  exact fun _ => hheld

end Iterator

end Telephony.Ao2
