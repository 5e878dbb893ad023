import Mathlib.Algebra.Order.Ring.Int
import Telephony.Ao2.Container
import Telephony.Lib.Loop

/-!
# The red-black container on its nodes

`main/astobj2_rbtree.c` as it works on linked nodes. A node is an address, and the container is the
pointer to its root together with the memory of all nodes. `none` is a null pointer followed, or a
loop that does not end; the results show that neither happens.

A function of the source and its mirror image are one definition with a side as its parameter; side
`left` is the one that the source writes out first.
-/

namespace Telephony.Ao2

open Lib Function

/-! ## Data model -/

/-- A node of the tree; an empty one has no object.
Source: `struct rbtree_node` -/
structure RbNode (α : Type) where
  obj : Option α
  parent : Option ℕ
  left : Option ℕ
  right : Option ℕ
  isRed : Bool

def RbNode.child {α : Type} (n : RbNode α) : Side → Option ℕ
  | .left => n.left
  | .right => n.right

def RbNode.setChild {α : Type} (n : RbNode α) (d : Side) (c : Option ℕ) : RbNode α :=
  match d with
  | .left => { n with left := c }
  | .right => { n with right := c }

/-- The container: its root and the memory of its nodes. `fresh` is the address of the next node,
and `isLinked` is set for the nodes in the tree.
Source: `struct ao2_container_rbtree`, `struct ao2_container_node` (`is_linked`) -/
structure RbTree (α : Type) where
  root : Option ℕ
  node : ℕ → RbNode α
  fresh : ℕ
  isLinked : ℕ → Bool
  destroying : Bool

inductive Bias
  | first
  | equal
  | last
  deriving DecidableEq, Repr

/-- Source: `struct ao2_container` (`sort_fn`, `options`) -/
structure RbConf (α : Type) where
  sortFn : α → α → ℤ
  dups : Dups
  insertBegin : Bool

section Heap

variable {α : Type}

/-- Source: `__ao2_container_alloc_rbtree` -/
def RbTree.new : RbTree α where
  root := none
  node _ := ⟨none, none, none, none, false⟩
  fresh := 0
  isLinked _ := false
  destroying := false

def RbTree.modify (self : RbTree α) (i : ℕ) (f : RbNode α → RbNode α) : RbTree α :=
  { self with node := update self.node i (f (self.node i)) }

def RbTree.setRed (self : RbTree α) (i : ℕ) (b : Bool) : RbTree α :=
  self.modify i fun n => { n with isRed := b }

def RbTree.setParent (self : RbTree α) (i : ℕ) (p : Option ℕ) : RbTree α :=
  self.modify i fun n => { n with parent := p }

def RbTree.setChild (self : RbTree α) (i : ℕ) (d : Side) (c : Option ℕ) : RbTree α :=
  self.modify i fun n => n.setChild d c

def RbTree.redAt (self : RbTree α) : Option ℕ → Bool
  | none => false
  | some i => (self.node i).isRed

/-! ## Walking -/

def mostStep (d : Side) (self : RbTree α) (node : ℕ) : Option (ℕ ⊕ ℕ) :=
  match (self.node node).child d with
  | some c => some (.inl c)
  | none => some (.inr node)

/-- Source: `rb_node_most_left`, `rb_node_most_right` -/
def rbNodeMost (d : Side) (self : RbTree α) (node : ℕ) : Option ℕ :=
  iterate (mostStep d self) self.fresh node

abbrev rbNodeMostLeft (self : RbTree α) := rbNodeMost .left self

abbrev rbNodeMostRight (self : RbTree α) := rbNodeMost .right self

/-- One step up, until the node is on the other side of its parent.
Source: `rb_node_next` ("Find the parent that"), `rb_node_prev` -/
def climbStep (d : Side) (self : RbTree α) (node : ℕ) : Option (ℕ ⊕ Option ℕ) :=
  match (self.node node).parent with
  | none => some (.inr none)
  | some p => if (self.node p).child d.flip = some node then some (.inr (some p)) else some (.inl p)

/-- Source: `rb_node_next`, `rb_node_prev` -/
def rbNodeStep (d : Side) (self : RbTree α) (node : ℕ) : Option (Option ℕ) :=
  match (self.node node).child d with
  | some c => (rbNodeMost d.flip self c).map some
  | none => iterate (climbStep d self) self.fresh node

abbrev rbNodeNext (self : RbTree α) := rbNodeStep .right self

abbrev rbNodePrev (self : RbTree α) := rbNodeStep .left self

def stepFullStep (d : Side) (self : RbTree α) (node : ℕ) : Option (ℕ ⊕ Option ℕ) :=
  match rbNodeStep d self node with
  | none => none
  | some none => some (.inr none)
  | some (some n) => if (self.node n).obj.isSome then some (.inr (some n)) else some (.inl n)

/-- Source: `rb_node_next_full`, `rb_node_prev_full` -/
def rbNodeStepFull (d : Side) (self : RbTree α) (node : ℕ) : Option (Option ℕ) :=
  iterate (stepFullStep d self) self.fresh node

abbrev rbNodeNextFull (self : RbTree α) := rbNodeStepFull .right self

abbrev rbNodePrevFull (self : RbTree α) := rbNodeStepFull .left self

/-! ## Searching around empty nodes -/

def goPast (bias : Bias) (cmp : ℤ) : Side :=
  if cmp < 0 then .right else if cmp = 0 ∧ bias = .last then .right else .left

def goBefore (bias : Bias) (cmp : ℤ) : Side :=
  if 0 < cmp then .left else if cmp = 0 ∧ bias = .first then .left else .right

def climbBelowStep (self : RbTree α) (empty cur : ℕ) : Option (ℕ ⊕ Option ℕ) :=
  match (self.node cur).parent with
  | none => none
  | some p =>
    if p = empty then some (.inr none)
    else if (self.node p).right = some cur then some (.inr (some p)) else some (.inl p)

/-- The node before `cur` in the left subtree of `empty`, if there is one.
Source: `rb_find_empty_direction` ("Find previous node.") -/
def rbPrevBelow (self : RbTree α) (empty cur : ℕ) : Option (Option ℕ) :=
  match (self.node cur).left with
  | some l => (rbNodeMostRight self l).map some
  | none => iterate (climbBelowStep self empty) self.fresh cur

/-- Source: `rb_find_empty_direction` ("Find previous node.", "Check previous node.") -/
def emptyScanStep {β : Type} (sortFn : α → β → ℤ) (bias : Bias) (self : RbTree α) (empty : ℕ) (objRight : β)
    (cur : ℕ) : Option (ℕ ⊕ Side) :=
  match rbPrevBelow self empty cur with
  | none => none
  | some none => some (.inr .right)
  | some (some cur) =>
    match (self.node cur).obj with
    | some o => some (.inr (goPast bias (sortFn o objRight)))
    | none => some (.inl cur)

/-- Which way to go from an empty node. `objRight` is an object, or a key of another type. -/
def rbFindEmptyDirection {β : Type} (sortFn : α → β → ℤ) (bias : Bias) (self : RbTree α) (empty : ℕ)
    (objRight : β) : Option Side :=
  match (self.node empty).left with
  | none => some .right
  | some l => do
    let rightMost ← rbNodeMostRight self l
    match (self.node rightMost).obj with
    | some o => some (goPast bias (sortFn o objRight))
    | none =>
      match (self.node empty).right with
      | none => some .left
      | some r => do
        let cur ← rbNodeMostLeft self r
        match (self.node cur).obj with
        | some o => some (goBefore bias (sortFn o objRight))
        | none => iterate (emptyScanStep sortFn bias self empty objRight) self.fresh rightMost

/-! ## Rotations -/

/-- Link a parent, or the root, to a new child in place of an old one.
Source: `rb_rotate_left` ("Link the node's parent"), `rb_delete_node` ("Link the child in") -/
def RbTree.linkParent (self : RbTree α) (d : Side) (parent : Option ℕ) (old : ℕ) (new : Option ℕ) : RbTree α :=
  match parent with
  | none => { self with root := new }
  | some p =>
    if (self.node p).child d = some old then self.setChild p d new else self.setChild p d.flip new

/-- Rotate a node to side `d`; its child on the other side takes its place.
Source: `rb_rotate_left`, `rb_rotate_right` -/
def rbRotate (d : Side) (self : RbTree α) (node : ℕ) : Option (RbTree α) := do
  let child ← (self.node node).child d.flip
  let self := self.linkParent d (self.node node).parent node (some child)
  let self := self.setParent child (self.node node).parent
  let self := self.setChild node d.flip ((self.node child).child d)
  let self :=
    match (self.node node).child d.flip with
    | none => self
    | some c => self.setParent c (some node)
  let self := self.setParent node (some child)
  some (self.setChild child d (some node))

abbrev rbRotateLeft (self : RbTree α) := rbRotate .left self

abbrev rbRotateRight (self : RbTree α) := rbRotate .right self

/-! ## Fixing up after an insertion -/

/-- One round, with the parent of the node on side `d` of the grandparent.
Source: `rb_insert_fixup` (the body of the loop) -/
def insertFixupSide (d : Side) (self : RbTree α) (node parent gParent : ℕ) : Option (RbTree α × ℕ) :=
  if self.redAt ((self.node gParent).child d.flip) then do
    -- Case 1: push the black down from the grandparent
    let uncle ← (self.node gParent).child d.flip
    let self := self.setRed uncle false
    let c ← (self.node gParent).child d
    let self := self.setRed c false
    some (self.setRed gParent true, gParent)
  else do
    -- Case 2: the node is on the inner side
    let (self, node) ←
      if (self.node parent).child d.flip = some node then (rbRotate d self parent).map (·, parent)
      else some (self, node)
    -- Case 3
    let p ← (self.node node).parent
    let self := (self.setRed p false).setRed gParent true
    (rbRotate d.flip self gParent).map (·, node)

/-- Source: `rb_insert_fixup` -/
def insertFixupStep (s : RbTree α × ℕ) : Option ((RbTree α × ℕ) ⊕ RbTree α) :=
  match (s.1.node s.2).parent with
  | none => some (.inr s.1)
  | some parent =>
    if (s.1.node parent).isRed then
      match (s.1.node parent).parent with
      | none => none
      | some gParent =>
        let d := if (s.1.node gParent).left = some parent then Side.left else Side.right
        (insertFixupSide d s.1 s.2 parent gParent).map .inl
    else some (.inr s.1)

def rbInsertFixup (self : RbTree α) (node : ℕ) : Option (RbTree α) := do
  let self ← iterate insertFixupStep (self.fresh + 1) (self, node)
  let r ← self.root
  some (self.setRed r false)

/-! ## Inserting -/

/-- Where the search for the place of a new node ends: at a missing child, or at an equal node. -/
inductive Place
  | child (cur : ℕ) (d : Side)
  | dup (cur : ℕ)
  deriving DecidableEq, Repr

/-- Source: `rb_ao2_insert_node` (`if (cur->left) { cur = cur->left; continue; }`) -/
def RbTree.descend (self : RbTree α) (cur : ℕ) (d : Side) : ℕ ⊕ Place :=
  match (self.node cur).child d with
  | some c => .inl c
  | none => .inr (.child cur d)

/-- Source: `rb_ao2_insert_node` (the first `switch`) -/
def RbConf.bias (c : RbConf α) : Bias :=
  match c.dups with
  | .allow => if c.insertBegin then .first else .last
  | _ => .equal

/-- Source: `rb_ao2_insert_node` (the body of the loop) -/
def findPlaceStep (c : RbConf α) (self : RbTree α) (obj : α) (cur : ℕ) : Option (ℕ ⊕ Place) :=
  match (self.node cur).obj with
  | none => (rbFindEmptyDirection c.sortFn c.bias self cur obj).map (self.descend cur)
  | some o =>
    let cmp := c.sortFn o obj
    if 0 < cmp then some (self.descend cur .left)
    else if cmp < 0 then some (self.descend cur .right)
    else
      match c.bias with
      | .first => some (self.descend cur .left)
      | .equal => some (.inr (.dup cur))
      | .last => some (self.descend cur .right)

/-- Source: `rb_ao2_insert_node` ("Find node where normal") -/
def rbFindPlace (c : RbConf α) (self : RbTree α) (obj : α) (root : ℕ) : Option Place :=
  iterate (findPlaceStep c self obj) self.fresh root

/-- Source: `rb_ao2_insert_node` ("Node becomes a left child", "Complete inserting duplicate
node.") -/
def rbAttach (self : RbTree α) (cur : ℕ) (d : Side) (node : ℕ) : Option (RbTree α) :=
  rbInsertFixup ((self.setChild cur d (some node)).setParent node (some cur)) node

/-- Source: `rb_ao2_insert_node` ("Find last duplicate node.", "Find first duplicate node.") -/
def rbAttachNext (self : RbTree α) (d : Side) (cur node : ℕ) : Option (RbTree α) :=
  match (self.node cur).child d with
  | none => rbAttach self cur d node
  | some c => do
    let cur ← rbNodeMost d.flip self c
    rbAttach self cur d.flip node

def scanDupsStep [DecidableEq α] (c : RbConf α) (self : RbTree α) (obj : α) (d : Side) (cur : ℕ) :
    Option (ℕ ⊕ (Bool × ℕ)) :=
  match rbNodeStepFull d self cur with
  | none => none
  | some none => some (.inr (false, cur))
  | some (some next) =>
    match (self.node next).obj with
    | none => none
    | some o =>
      if o = obj then some (.inr (true, cur))
      else if c.sortFn o obj ≠ 0 then some (.inr (false, cur))
      else some (.inl next)

/-- Search the duplicates in direction `d`: whether the object itself is among them, and the last of
them that was reached.
Source: `rb_ao2_insert_node` ("Search to end of", "Find first duplicate node.") -/
def rbScanDups [DecidableEq α] (c : RbConf α) (self : RbTree α) (obj : α) (d : Side) (cur : ℕ) : Option (Bool × ℕ) :=
  iterate (scanDupsStep c self obj d) (self.fresh + 1) cur

/-- Insert a duplicate object at one end of its duplicates, unless it is already there.
Source: `rb_ao2_insert_node` (`AO2_CONTAINER_ALLOC_OPT_DUPS_OBJ_REJECT`) -/
def rbInsertDup [DecidableEq α] (c : RbConf α) (self : RbTree α) (node : ℕ) (obj : α) (cur : ℕ) :
    Option (InsertResult × RbTree α) := do
  let o ← (self.node cur).obj
  if o = obj then some (.rejected, self)
  else
    let d := if c.insertBegin then Side.left else Side.right
    let (same, _) ← rbScanDups c self obj d.flip cur
    if same then some (.rejected, self)
    else
      let (same, cur) ← rbScanDups c self obj d cur
      if same then some (.rejected, self)
      else
        (rbAttachNext self d cur node).map (.inserted, ·)

def rbAo2InsertNode [DecidableEq α] (c : RbConf α) (self : RbTree α) (node : ℕ) (obj : α) :
    Option (InsertResult × RbTree α) :=
  match self.root with
  | none => some (.inserted, { self with root := some node })
  | some root => do
    let self := self.setRed node true
    match ← rbFindPlace c self obj root with
    | .child cur d => (rbAttach self cur d node).map (.inserted, ·)
    | .dup cur =>
      match c.dups with
      | .allow => some (.rejected, self)
      | .reject => some (.rejected, self)
      | .objReject => rbInsertDup c self node obj cur
      | .replace => some (.objReplaced, self.modify cur fun n => { n with obj := some obj })

/-! ## Fixing up after a deletion -/

/-- The sibling on the other side of `child`, after its parent may have changed. -/
def RbTree.siblingOf (self : RbTree α) (d : Side) (child : ℕ) : Option ℕ := do
  let p ← (self.node child).parent
  (self.node p).child d.flip

/-- Case 1: a red sibling is rotated above the parent, and the child has a black one then.
Source: `rb_delete_fixup` ("Case 1") -/
def deleteFixupRedSibling (d : Side) (self : RbTree α) (child parent sibling : ℕ) : Option (RbTree α × ℕ) :=
  if (self.node sibling).isRed then do
    let self ← rbRotate d ((self.setRed sibling false).setRed parent true) parent
    let sibling ← self.siblingOf d child
    some (self, sibling)
  else some (self, sibling)

/-- Case 3: only the inner child of the sibling is red; it becomes the sibling.
Source: `rb_delete_fixup` ("Case 3") -/
def deleteFixupInner (d : Side) (self : RbTree α) (child sibling : ℕ) : Option (RbTree α × ℕ) :=
  if !self.redAt ((self.node sibling).child d.flip) then do
    let nephew ← (self.node sibling).child d
    let self ← rbRotate d.flip ((self.setRed nephew false).setRed sibling true) sibling
    let sibling ← self.siblingOf d child
    some (self, sibling)
  else some (self, sibling)

/-- Case 4: the outer child of the sibling is red; the loop ends at the root.
Source: `rb_delete_fixup` ("Case 4") -/
def deleteFixupOuter (d : Side) (self : RbTree α) (child sibling : ℕ) : Option (RbTree α × ℕ) := do
  let parent ← (self.node child).parent
  let self := self.setRed sibling (self.node parent).isRed
  let self := self.setRed parent false
  let self :=
    match (self.node sibling).child d.flip with
    | none => self
    | some c => self.setRed c false
  let self ← rbRotate d self parent
  let root ← self.root
  some (self, root)

/-- Source: `rb_delete_fixup` ("Case 2", "Case 3", "Case 4") -/
def deleteFixupBlackSibling (d : Side) (self : RbTree α) (child sibling : ℕ) :
    Option (RbTree α × ℕ) := do
  let parent ← (self.node child).parent
  if !self.redAt ((self.node sibling).child d) && !self.redAt ((self.node sibling).child d.flip) then
    -- Case 2: the sibling has no red child
    some (self.setRed sibling true, parent)
  else do
    let (self, sibling) ← deleteFixupInner d self child sibling
    deleteFixupOuter d self child sibling

/-- One round, with the child on side `d` of its parent.
Source: `rb_delete_fixup` (the body of the loop) -/
def deleteFixupSide (d : Side) (self : RbTree α) (child parent : ℕ) : Option (RbTree α × ℕ) := do
  let sibling ← (self.node parent).child d.flip
  let (self, sibling) ← deleteFixupRedSibling d self child parent sibling
  deleteFixupBlackSibling d self child sibling

/-- Source: `rb_delete_fixup` -/
def deleteFixupStep (s : RbTree α × ℕ) : Option ((RbTree α × ℕ) ⊕ (RbTree α × ℕ)) :=
  if s.1.root = some s.2 ∨ (s.1.node s.2).isRed then some (.inr s)
  else
    match (s.1.node s.2).parent with
    | none => none
    | some parent =>
      let d := if (s.1.node parent).left = some s.2 then Side.left else Side.right
      (deleteFixupSide d s.1 s.2 parent).map .inl

def rbDeleteFixup (self : RbTree α) (child : ℕ) : Option (RbTree α) := do
  let (self, child) ← iterate deleteFixupStep (self.fresh + 1) (self, child)
  some (self.setRed child false)

/-! ## Deleting -/

/-- Source: `rb_delete_node` (`SWAP`) -/
def RbTree.swapLinks (self : RbTree α) (doomed next : ℕ) : RbTree α :=
  let d := self.node doomed
  let n := self.node next
  (self.modify doomed fun _ => { n with obj := d.obj }).modify next fun _ => { d with obj := n.obj }

/-- Source: `rb_delete_node` ("Find the next child") -/
def rbSwapNext (self : RbTree α) (doomed next : ℕ) : Option (RbTree α) := do
  let self := self.swapLinks doomed next
  let self := self.linkParent .left (self.node next).parent doomed (some next)
  let l ← (self.node next).left
  let self := self.setParent l (some next)
  if (self.node next).right = some next then
    some ((self.setChild next .right (some doomed)).setParent doomed (some next))
  else do
    let r ← (self.node next).right
    let self := self.setParent r (some next)
    let p ← (self.node doomed).parent
    some (self.setChild p .left (some doomed))

/-- Source: `rb_delete_node` (from `need_fixup` on) -/
def rbUnhook (self : RbTree α) (doomed : ℕ) (child : Option ℕ) : Option (RbTree α) := do
  let needFixup := !(self.node doomed).isRed && !self.destroying
  let self ← if needFixup && child.isNone then rbDeleteFixup self doomed else some self
  let self := self.linkParent .left (self.node doomed).parent doomed child
  match child with
  | none => some self
  | some c =>
    let self := self.setParent c (self.node doomed).parent
    if needFixup then rbDeleteFixup self c else some self

def rbDeleteNode (self : RbTree α) (doomed : ℕ) : Option (RbTree α) :=
  match (self.node doomed).left, (self.node doomed).right with
  | some _, some r => do
    let next ← rbNodeMostLeft self r
    let self ← rbSwapNext self doomed next
    rbUnhook self doomed (self.node doomed).right
  | some l, none => rbUnhook self doomed (some l)
  | none, r => rbUnhook self doomed r

/-! ## The operations of the container -/

/-- Source: `__ao2_link`, `rb_ao2_new_node` -/
def RbTree.link [DecidableEq α] (c : RbConf α) (self : RbTree α) (obj : α) :
    Option (InsertResult × RbTree α) := do
  let node := self.fresh
  let (res, self) ← rbAo2InsertNode c
    { self with
      node := update self.node node ⟨some obj, none, none, none, false⟩
      fresh := self.fresh + 1 } node obj
  match res with
  | .inserted => some (res, { self with isLinked := update self.isLinked node true })
  | _ => some (res, self)

/-- Take the object out of a linked node; the node stays as long as it is referenced.
Source: `__container_unlink_node_debug` -/
def RbTree.unlinkObj (self : RbTree α) (node : ℕ) : RbTree α :=
  if self.isLinked node then self.modify node fun n => { n with obj := none } else self

/-- Destroy a linked node that is empty and no longer referenced.
Source: `rb_ao2_node_destructor` -/
def RbTree.destroyNode (self : RbTree α) (node : ℕ) : Option (RbTree α) :=
  if self.isLinked node ∧ (self.node node).obj = none then
    (rbDeleteNode self node).map fun self =>
      { self with isLinked := update self.isLinked node false }
  else some self

end Heap

end Telephony.Ao2
