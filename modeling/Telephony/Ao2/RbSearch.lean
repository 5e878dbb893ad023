import Telephony.Ao2.Iterator

/-!
# Directed searches in the red-black container

`rb_find_initial` goes down to the first node that matches, or to the last one, around empty nodes;
from there `rb_ao2_find_next` goes on until a node does not match. A visited node may be unlinked;
it is deleted when the traversal has moved on. Both directions are one proof (`along`).
-/

namespace Telephony.Ao2

open Lib List
open Lib.BinTree hiding node

section Search

variable {α β : Type}

/-! ## The search -/

/-- The result of the sort function for the argument of a search, and whether that is a partial key.
Source: `rb_ao2_find_first` (`arg`, `flags & OBJ_SEARCH_MASK`) -/
structure Search (α : Type) where
  cmp : α → ℤ
  partialKey : Bool

/-- Source: `rb_find_initial` ("Check successor node for match.", "Check previous node for
match.") -/
def checkMatch (cmp : α → ℤ) (self : RbTree α) (next : Option ℕ) : Option ℕ :=
  next.filter fun n => (self.node n).obj.any fun o => cmp o = 0

def checkNeighbour (cmp : α → ℤ) (bias : Bias) (self : RbTree α) (node : ℕ) : Option (Option ℕ) :=
  match bias with
  | .first => (rbNodeNextFull self node).map (checkMatch cmp self)
  | .equal => some none
  | .last => (rbNodePrevFull self node).map (checkMatch cmp self)

/-- Source: `rb_find_initial` -/
def findInitialStep (cmp : α → ℤ) (bias : Bias) (self : RbTree α) (node : ℕ) : Option (ℕ ⊕ Option ℕ) :=
  match (self.node node).obj with
  | none => do
    let d ← rbFindEmptyDirection (fun o (_ : Unit) => cmp o) bias self node ()
    match (self.node node).child d with
    | some next => some (.inl next)
    | none => (checkNeighbour cmp bias self node).map .inr
  | some o =>
    if 0 < cmp o then
      match (self.node node).left with
      | some next => some (.inl next)
      | none => if bias = .last then (checkNeighbour cmp bias self node).map .inr else some (.inr none)
    else if cmp o < 0 then
      match (self.node node).right with
      | some next => some (.inl next)
      | none => if bias = .first then (checkNeighbour cmp bias self node).map .inr else some (.inr none)
    else
      match bias with
      | .first =>
        match (self.node node).left with
        | some next => some (.inl next)
        | none => some (.inr (some node))
      | .equal => some (.inr (some node))
      | .last =>
        match (self.node node).right with
        | some next => some (.inl next)
        | none => some (.inr (some node))

def rbFindInitial (cmp : α → ℤ) (bias : Bias) (self : RbTree α) : Option (Option ℕ) :=
  match self.root with
  | none => some none
  | some root => iterate (findInitialStep cmp bias self) self.fresh root

/-- The bias of a search in ascending (`.right`) or descending order.
Source: `rb_ao2_find_first` ("Search for initial node.") -/
def searchBias (dups : Dups) (partialKey : Bool) (d : Side) : Bias :=
  let towards : Bias := match d with
    | .right => .first
    | .left => .last
  match dups with
  | .reject => if partialKey then towards else .equal
  | .replace => if partialKey then towards else .equal
  | .allow => towards
  | .objReject => towards

def rbAo2FindFirst (conf : RbConf α) (s : Search α) (d : Side) (self : RbTree α) : Option (Option ℕ) :=
  rbFindInitial s.cmp (searchBias conf.dups s.partialKey d) self

/-- Source: `rb_ao2_find_next` -/
def findNextStep (cmp : α → ℤ) (d : Side) (self : RbTree α) (node : ℕ) : Option (ℕ ⊕ Option ℕ) :=
  match rbNodeStep d self node with
  | none => none
  | some none => some (.inr none)
  | some (some n) =>
    match (self.node n).obj with
    | none => some (.inl n)
    | some o => if cmp o ≠ 0 then some (.inr none) else some (.inr (some n))

def rbAo2FindNext (s : Search α) (d : Side) (self : RbTree α) (prev : ℕ) : Option (Option ℕ) :=
  iterate (findNextStep s.cmp d self) self.fresh prev

/-! ## The traversal -/

/-- What happens to the nodes that are visited: whether the object is unlinked, and whether the
traversal has the last reference then. -/
structure Visits where
  unlink : ℕ → Bool
  last : ℕ → Bool

/-- Source: `internal_ao2_traverse` (`__container_unlink_node_debug`) -/
def visitNode (visits : Visits) (self : RbTree α) (node : ℕ) : RbTree α :=
  if visits.unlink node then self.unlinkObj node else self

/-- Source: `rb_ao2_find_next` (`ao2_ref(prev, -1)`), `rb_ao2_node_destructor` -/
def dropNode (visits : Visits) (self : RbTree α) (node : ℕ) : Option (RbTree α) :=
  if visits.unlink node ∧ visits.last node then self.destroyNode node else some self

/-- Visit a node, find the next one, and drop the reference to the node.
Source: `internal_ao2_traverse`, `rb_ao2_find_next` -/
def traverseStep (s : Search α) (d : Side) (visits : Visits) (w : RbTree α × ℕ × List ℕ) :
    Option ((RbTree α × ℕ × List ℕ) ⊕ (RbTree α × List ℕ)) := do
  let node := w.2.1
  let visited := w.2.2 ++ [node]
  let next ← rbAo2FindNext s d (visitNode visits w.1 node) node
  let self ← dropNode visits (visitNode visits w.1 node) node
  some (match next with
    | none => .inr (self, visited)
    | some n => .inl (self, n, visited))

/-- Source: `internal_ao2_traverse` -/
def rbTraverse (conf : RbConf α) (s : Search α) (d : Side) (visits : Visits) (self : RbTree α) :
    Option (RbTree α × List ℕ) := do
  match ← rbAo2FindFirst conf s d self with
  | none => some (self, [])
  | some node => iterate (traverseStep s d visits) self.fresh (self, node, [])

/-! ## What is to be found -/

def isMatch (cmp : α → ℤ) (o : Option α) : Bool := o.any fun o => cmp o = 0

def matching (cmp : α → ℤ) (d : Side) (l : List (ℕ × Option α)) : List ℕ :=
  ((inDirection d l).filter fun e => isMatch cmp e.2).map Prod.fst

/-- The result of a comparison, as it is met in direction `d`: smaller objects come first. -/
def along (d : Side) (cmp : α → ℤ) (o : α) : ℤ :=
  match d with
  | .right => cmp o
  | .left => -cmp o

def Ascends (g : α → ℤ) (a b : α) : Prop := (0 ≤ g a → 0 ≤ g b) ∧ (0 < g a → 0 < g b)

def OneMatch (cmp : α → ℤ) (bias : Bias) (a b : α) : Prop := bias = .equal → cmp a ≠ 0 ∨ cmp b ≠ 0

def Bias.Seeks (bias : Bias) (d : Side) : Prop :=
  bias = .equal ∨ bias = match d with
    | .right => .first
    | .left => .last

lemma searchBias_seeks (dups : Dups) (partialKey : Bool) (d : Side) : (searchBias dups partialKey d).Seeks d := by
  cases dups with
  | allow | objReject => exact .inr rfl
  | reject | replace =>
    cases partialKey with
    | false => exact .inl rfl
    | true => exact .inr rfl

section Directed

variable {cmp : α → ℤ} {bias : Bias} {d : Side}

def Low (d : Side) (cmp : α → ℤ) (o : α) : Prop := along d cmp o < 0

def High (d : Side) (bias : Bias) (cmp : α → ℤ) (o : α) : Prop :=
  0 ≤ along d cmp o ∧ (bias = .equal → along d cmp o ≠ 0)

variable {o a b : α} {c : ℤ} {side : Side} {v : Cell α} {t : BinTree (Cell α)} {pre l : List (Cell α)}
  {self : RbTree α} {fuel node cur i : ℕ}

lemma Low.not_isMatch (h : Low d cmp o) : ¬ cmp o = 0 := by
  unfold Low along at h
  cases d with
  | right | left =>
    dsimp only at h
    omega

/-! ## Which way to go from an empty node -/

lemma goPast_right (h : goPast bias c = .right) : c < 0 ∨ c = 0 ∧ bias = .last := by
  unfold goPast at h
  split_ifs at h with hneg hlast
  · exact .inl hneg
  · exact .inr hlast

lemma goPast_left (h : goPast bias c = .left) : 0 ≤ c ∧ (c = 0 → bias ≠ .last) := by
  unfold goPast at h
  split_ifs at h with hneg hlast
  exact ⟨not_lt.mp hneg, fun hzero hbias => hlast ⟨hzero, hbias⟩⟩

lemma goBefore_left (h : goBefore bias c = .left) : 0 < c ∨ c = 0 ∧ bias = .first := by
  unfold goBefore at h
  split_ifs at h with hpos hfst
  · exact .inl hpos
  · exact .inr hfst

lemma goBefore_right (h : goBefore bias c = .right) : c ≤ 0 ∧ (c = 0 → bias ≠ .first) := by
  unfold goBefore at h
  split_ifs at h with hpos hfst
  exact ⟨not_lt.mp hpos, fun hzero hbias => hfst ⟨hzero, hbias⟩⟩

lemma Bias.eq_equal (hfst : bias ≠ .first) (hlast : bias ≠ .last) : bias = .equal := by
  cases bias with
  | first => exact absurd rfl hfst
  | equal => rfl
  | last => exact absurd rfl hlast

lemma Ascends.le (h : Ascends cmp a b) (hb : cmp b < 0 ∨ cmp b = 0 ∧ bias = .last) :
    cmp a ≤ 0 ∧ (bias ≠ .last → cmp a ≠ 0) := by
  obtain ⟨hnn, hpos⟩ := h
  rcases hb with hb | ⟨hb, hlast⟩
  · exact ⟨by omega, fun _ => by omega⟩
  · exact ⟨by omega, fun hbias => absurd hlast hbias⟩

lemma Ascends.ge (h : Ascends cmp a b) (ha : 0 < cmp a ∨ cmp a = 0 ∧ bias = .first) :
    0 ≤ cmp b ∧ (bias ≠ .first → cmp b ≠ 0) := by
  obtain ⟨hnn, hpos⟩ := h
  rcases ha with ha | ⟨ha, hfst⟩
  · exact ⟨by omega, fun _ => by omega⟩
  · exact ⟨by omega, fun hbias => absurd hfst hbias⟩

lemma Decided.sides {l r : List α} (hasc : (l ++ r).Pairwise (Ascends cmp))
    (hone : (l ++ r).Pairwise (OneMatch cmp bias)) (h : Decided (fun o (_ : Unit) => cmp o) bias () l r side) :
    (side = .right → ∀ o ∈ l, cmp o ≤ 0 ∧ (bias ≠ .last → cmp o ≠ 0)) ∧
      (side = .left → ∀ o ∈ r, 0 ≤ cmp o ∧ (bias ≠ .first → cmp o ≠ 0)) := by
  obtain ⟨hascl, hascr, hasc⟩ := pairwise_append.mp hasc
  obtain ⟨-, -, hone⟩ := pairwise_append.mp hone
  cases h with
  | noneBefore hl =>
    subst hl
    exact ⟨nofun, nofun⟩
  | noneAfter hr =>
    subst hr
    exact ⟨nofun, nofun⟩
  | @past pre o hl =>
    have ho : o ∈ l := by
      rw [hl]
      exact mem_append_right _ mem_cons_self
    constructor
    · intro hside a ha
      have hao : Ascends cmp a o := by
        rw [hl] at ha hascl
        rcases mem_append.mp ha with ha | ha
        · exact (pairwise_append.mp hascl).2.2 a ha o mem_cons_self
        · rw [mem_singleton.mp ha]
          exact ⟨id, id⟩
      exact hao.le (goPast_right hside)
    · intro hside b hb
      obtain ⟨hle, hlast⟩ := goPast_left hside
      refine ⟨(hasc o ho b hb).1 hle, fun hfst hzero => ?_⟩
      -- an equal object before the node is the only match of a search for any
      have hpos := (hasc o ho b hb).2
      have hequ : bias = .equal := Bias.eq_equal hfst (hlast (by omega))
      rcases hone o ho b hb hequ with hne | hne
      · omega
      · exact hne hzero
  | @before o post hr =>
    have ho : o ∈ r := by
      rw [hr]
      exact mem_cons_self
    constructor
    · intro hside a ha
      obtain ⟨hle, hfst⟩ := goBefore_right hside
      have hnn := (hasc a ha o ho).1
      have hpos := (hasc a ha o ho).2
      refine ⟨by omega, fun hlast hzero => ?_⟩
      have hequ : bias = .equal := Bias.eq_equal (hfst (by omega)) hlast
      rcases hone a ha o ho hequ with hne | hne
      · exact hne hzero
      · omega
    · intro hside b hb
      have hob : Ascends cmp o b := by
        rw [hr] at hb hascr
        rcases mem_cons.mp hb with rfl | hb
        · exact ⟨id, id⟩
        · exact (pairwise_cons.mp hascr).1 b hb
      exact hob.ge (goBefore_left hside)

lemma Decided.leaves {l r s : BinTree (Cell α)} (hsk : bias.Seeks d)
    (hfork : fork .left v l r = fork d v t s) (hasc : (objs l ++ objs r).Pairwise (Ascends cmp))
    (hone : (objs l ++ objs r).Pairwise (OneMatch cmp bias))
    (h : Decided (fun o (_ : Unit) => cmp o) bias () (objs l) (objs r) side) :
    (side = d → ∀ o ∈ objs s, Low d cmp o) ∧ (side = d.flip → ∀ o ∈ objs t, High d bias cmp o) := by
  obtain ⟨hrt, hleft⟩ := h.sides hasc hone
  cases d with
  | right =>
    obtain ⟨-, rfl, rfl⟩ := hfork
    have hbias : bias ≠ .last := by
      rcases hsk with rfl | rfl <;> decide
    refine ⟨fun hside o ho => ?_, fun hside o ho => ?_⟩
    · obtain ⟨hle, hne⟩ := hrt hside o ho
      exact lt_of_le_of_ne hle (hne hbias)
    · obtain ⟨hle, hne⟩ := hleft hside o ho
      exact ⟨hle, fun hequ => hne (by rw [hequ]; decide)⟩
  | left =>
    obtain ⟨-, rfl, rfl⟩ := hfork
    have hbias : bias ≠ .first := by
      rcases hsk with rfl | rfl <;> decide
    refine ⟨fun hside o ho => ?_, fun hside o ho => ?_⟩
    · obtain ⟨hle, hne⟩ := hleft hside o ho
      have hne := hne hbias
      unfold Low along
      dsimp only
      omega
    · obtain ⟨hle, hne⟩ := hrt hside o ho
      have hle : 0 ≤ -cmp o := by omega
      exact ⟨hle, fun hequ => neg_ne_zero.mpr (hne (by rw [hequ]; decide))⟩

/-! ## At the end of the way down -/

/-- The first entry that is not empty is the first match, or nothing matches. Induction on the
list. -/
lemma find_isMatch {obj : β → Option α} {l : List β}
    (h : l.Pairwise fun a b => (obj a).isSome → isMatch cmp (obj a) = false → isMatch cmp (obj b) = false) :
    (l.find? fun e => (obj e).isSome).filter (fun e => isMatch cmp (obj e)) = l.find? fun e => isMatch cmp (obj e) := by
  induction l with
  | nil => rfl
  | cons e l ih =>
    obtain ⟨he, hl⟩ := pairwise_cons.mp h
    cases hobj : obj e with
    | none =>
      rw [find?_cons_of_neg (by simp [hobj]), find?_cons_of_neg (by simp [hobj, isMatch]), ih hl]
    | some o =>
      rw [find?_cons_of_pos (by simp [hobj])]
      cases hmat : isMatch cmp (obj e) with
      | true => rw [Option.filter_some, if_pos hmat, find?_cons_of_pos (by exact hmat)]
      | false =>
        rw [Option.filter_some, if_neg (by simp [hmat]), find?_cons_of_neg (by simp [hmat]), eq_comm, find?_eq_none]
        intro b hb
        rw [he b hb (by simp [hobj]) hmat]
        exact Bool.false_ne_true

lemma filter_of_find {p : β → Bool} {l : List β} {e : β} (h : l.find? p = some e) :
    ∃ pre post, l = pre ++ e :: post ∧ p e = true ∧ l.filter p = e :: post.filter p := by
  obtain ⟨he, pre, post, rfl, hpre⟩ := find?_eq_some_iff_append.mp h
  have hnil : pre.filter p = [] := filter_eq_nil_iff.mpr fun a ha => by simpa using hpre a ha
  exact ⟨pre, post, rfl, he, by rw [filter_append, hnil, filter_cons_of_pos he, nil_append]⟩

/-- Cells in the order of a traversal: the comparison does not fall, and there is one match for a
search for any. -/
def InSearchOrder (d : Side) (cmp : α → ℤ) (bias : Bias) (l : List (Cell α)) : Prop :=
  l.Pairwise fun a b => ∀ x, a.obj = some x → ∀ y, b.obj = some y → Ascends (along d cmp) x y ∧ OneMatch cmp bias x y

lemma inSearchOrder_inorder (hasc : (objs t).Pairwise (Ascends cmp))
    (hone : (objs t).Pairwise (OneMatch cmp bias)) (d : Side) : InSearchOrder d cmp bias (inorder d t) := by
  unfold objs at hasc hone
  rw [pairwise_filterMap] at hasc hone
  have hboth := hasc.and hone
  cases d with
  | right => exact hboth.imp fun h x hx y hy => ⟨h.1 x hx y hy, h.2 x hx y hy⟩
  | left =>
    unfold InSearchOrder
    rw [show inorder .left t = (inorder .right t).reverse from inorder_flip .right t, pairwise_reverse]
    refine hboth.imp fun h x hx y hy => ?_
    obtain ⟨hnn, hpos⟩ := h.1 y hy x hx
    refine ⟨⟨?_, ?_⟩, fun hequ => (h.2 y hy x hx hequ).symm⟩
    · unfold along
      dsimp only
      omega
    · unfold along
      dsimp only
      omega

lemma along_eq_zero : along d cmp o = 0 ↔ cmp o = 0 := by
  cases d with
  | right => exact Iff.rfl
  | left => exact neg_eq_zero

lemma isMatch_eq_false {o : Option α} (h : ∀ x, o = some x → cmp x ≠ 0) : isMatch cmp o = false := by
  cases o with
  | none => rfl
  | some x => simpa [isMatch] using h x rfl

lemma exists_of_isMatch {o : Option α} (h : isMatch cmp o = true) : ∃ x, o = some x ∧ cmp x = 0 := by
  cases o with
  | none => exact absurd h Bool.false_ne_true
  | some x => exact ⟨x, rfl, of_decide_eq_true h⟩

lemma isMatch_stops {a b : Option α} (hnn : ∀ x, a = some x → 0 ≤ along d cmp x)
    (hasc : ∀ x, a = some x → ∀ y, b = some y → Ascends (along d cmp) x y) (hsome : a.isSome)
    (hna : isMatch cmp a = false) : isMatch cmp b = false := by
  obtain ⟨x, rfl⟩ := Option.isSome_iff_exists.mp hsome
  refine isMatch_eq_false fun y hy hzero => ?_
  have hne : along d cmp x ≠ 0 := by
    rw [Ne, along_eq_zero]
    simpa [isMatch] using hna
  have hpos : 0 < along d cmp x := lt_of_le_of_ne (hnn x rfl) hne.symm
  exact ((hasc x rfl y hy).2 hpos).ne' (along_eq_zero.mpr hzero)

lemma find_isMatch_none (h : ∀ c ∈ l, isMatch cmp c.obj = false) : (l.find? fun c => isMatch cmp c.obj) = none := by
  rw [find?_eq_none]
  intro c hc
  rw [h c hc]
  exact Bool.false_ne_true

section

variable (post : List (Cell α)) (hpre : ∀ c ∈ pre, isMatch cmp c.obj = false)
include hpre

lemma find_isMatch_after (hv : isMatch cmp v.obj = false) :
    ((pre ++ v :: post).find? fun c => isMatch cmp c.obj) = post.find? fun c => isMatch cmp c.obj := by
  rw [find?_append, find?_cons_of_neg (by simp [hv]), find_isMatch_none hpre, Option.none_or]

lemma find_isMatch_at (hv : isMatch cmp v.obj = true) :
    ((pre ++ v :: post).find? fun c => isMatch cmp c.obj) = some v := by
  rw [find?_append, find?_cons_of_pos (by exact hv), find_isMatch_none hpre, Option.none_or]

end

lemma checkNeighbour_spec {post : List (Cell α)} (h : Rep self t) (hsk : bias.Seeks d)
    (hlist : inorder d t = pre ++ v :: post) (hord : InSearchOrder d cmp bias (inorder d t))
    (hpre : ∀ c ∈ pre, ∀ o, c.obj = some o → Low d cmp o) (hv : isMatch cmp v.obj = false)
    (hpost : ∀ c ∈ post, ∀ o, c.obj = some o → High d bias cmp o) :
    checkNeighbour cmp bias self v.id = some (((inorder d t).find? fun c => isMatch cmp c.obj).map Cell.id) := by
  have hobj : ∀ c ∈ post, (self.node c.id).obj = c.obj := by
    intro c hc
    obtain ⟨p, q, hspl⟩ := append_of_mem hc
    have hpl : inorder d t = (pre ++ v :: p) ++ c :: q := by rw [hlist, hspl, append_assoc, cons_append]
    exact h.whole.obj_eq hpl
  have hfind := find_isMatch_after post (fun c hc => isMatch_eq_false fun o ho => (hpre c hc o ho).not_isMatch) hv
  rw [hlist, hfind]
  rcases hsk with rfl | hbias
  · -- a search for any match is over: nothing after the node is equal
    rw [find_isMatch_none fun c hc => isMatch_eq_false fun o ho => mt along_eq_zero.mpr ((hpost c hc o ho).2 rfl)]
    rfl
  have hchk : checkNeighbour cmp bias self v.id = (rbNodeStepFull d self v.id).map (checkMatch cmp self) := by
    rw [hbias]
    cases d with
    | right => rfl
    | left => rfl
  have hstop : post.Pairwise fun a b =>
      a.obj.isSome → isMatch cmp a.obj = false → isMatch cmp b.obj = false := by
    unfold InSearchOrder at hord
    rw [hlist, pairwise_append, pairwise_cons] at hord
    exact hord.2.1.2.imp_of_mem fun {a b} ha _ hab hsome hna =>
      isMatch_stops (fun x hx => (hpost a ha x hx).1) (fun x hx y hy => (hab x hx y hy).1) hsome hna
  rw [hchk, rbNodeStepFull_spec h hlist, Option.map_some, ← find_isMatch hstop]
  cases hfull : post.find? (·.obj.isSome) with
  | none => rfl
  | some c =>
    have hc := hobj c (mem_of_find?_eq_some hfull)
    rw [Option.map_some, checkMatch, Option.filter_some, hc, Option.filter_some]
    unfold isMatch
    split_ifs <;> rfl

/-! ## The way down -/

lemma findInitialStep_full (hsk : bias.Seeks d) (hobj : (self.node node).obj = some o) :
    findInitialStep cmp bias self node =
      if along d cmp o < 0 then
        match (self.node node).child d with
        | some next => some (.inl next)
        | none => (checkNeighbour cmp bias self node).map .inr
      else if bias = .equal ∧ along d cmp o = 0 then some (.inr (some node))
      else
        match (self.node node).child d.flip with
        | some next => some (.inl next)
        | none => some (.inr (if along d cmp o = 0 then some node else none)) := by
  unfold findInitialStep
  rw [hobj]
  rcases lt_trichotomy (cmp o) 0 with hcmp | hcmp | hcmp
  · have hnot : ¬ 0 < cmp o := by omega
    cases d with
    | right => rcases hsk with rfl | rfl <;> simp [along, RbNode.child, checkNeighbour, hcmp, hnot]
    | left => rcases hsk with rfl | rfl <;> simp [along, RbNode.child, Side.flip, hcmp, hcmp.ne, hnot]
  · cases d with
    | right | left => rcases hsk with rfl | rfl <;> simp [along, RbNode.child, Side.flip, hcmp]
  · have hnot : ¬ cmp o < 0 := by omega
    cases d with
    | right => rcases hsk with rfl | rfl <;> simp [along, RbNode.child, Side.flip, hcmp, hcmp.ne', hnot]
    | left => rcases hsk with rfl | rfl <;> simp [along, RbNode.child, checkNeighbour, hcmp]

/-- A round goes to a child, with what it leaves behind where it should be, or ends with the first
match. -/
def GoesDown (cmp : α → ℤ) (bias : Bias) (d : Side) (self : RbTree α) (ctx : List (TreeFrame (Cell α))) (v : Cell α)
    (t s : BinTree (Cell α)) : Prop :=
  (∃ c, findInitialStep cmp bias self v.id = some (.inl c) ∧ rootId t = some c ∧
    Between d (Low d cmp) (High d bias cmp) (⟨d, v, s⟩ :: ctx)) ∨
  (∃ c, findInitialStep cmp bias self v.id = some (.inl c) ∧ rootId s = some c ∧
    Between d (Low d cmp) (High d bias cmp) (⟨d.flip, v, t⟩ :: ctx)) ∨
  findInitialStep cmp bias self v.id =
    some (.inr (((inorder d (plug ctx (fork d v t s))).find? fun c => isMatch cmp c.obj).map Cell.id))

section Rounds

variable {self : RbTree α} {ctx : List (TreeFrame (Cell α))} {v : Cell α} {t s : BinTree (Cell α)}

lemma inorder_plug_fork : inorder d (plug ctx (fork d v t s)) =
    (ctxBefore d ctx ++ inorder d s) ++ v :: (inorder d t ++ ctxAfter d ctx) := by
  rw [inorder_plug, inorder_fork]
  simp

section At

variable (h : Rep self (plug ctx (fork d v t s))) (hsk : bias.Seeks d)
  (hord : InSearchOrder d cmp bias (inorder d (plug ctx (fork d v t s))))
  (hbtw : Between d (Low d cmp) (High d bias cmp) ctx)

include h hsk hord hbtw

/-- The way down ends at a node without a match. -/
lemma goesDown_neighbour (hs : ∀ o ∈ objs s, Low d cmp o) (hv : isMatch cmp v.obj = false)
    (ht : ∀ o ∈ objs t, High d bias cmp o)
    (hstep : findInitialStep cmp bias self v.id = (checkNeighbour cmp bias self v.id).map .inr) :
    GoesDown cmp bias d self ctx v t s := by
  refine .inr (Or.inr ?_)
  rw [hstep, checkNeighbour_spec h hsk inorder_plug_fork hord ?_ hv ?_]
  · rfl
  · intro c hc o ho
    rcases mem_append.mp hc with hc | hc
    · exact hbtw.1 c hc o ho
    · exact hs o ((mem_objs d).mpr ⟨c, hc, ho⟩)
  · intro c hc o ho
    rcases mem_append.mp hc with hc | hc
    · exact ht o ((mem_objs d).mpr ⟨c, hc, ho⟩)
    · exact hbtw.2 c hc o ho

lemma goesDown_on (hv : ∀ o, v.obj = some o → Low d cmp o)
    (hs : ∀ o ∈ objs s, Low d cmp o)
    (hstep : findInitialStep cmp bias self v.id =
      match (self.node v.id).child d with
      | some next => some (.inl next)
      | none => (checkNeighbour cmp bias self v.id).map .inr) : GoesDown cmp bias d self ctx v t s := by
  have hch : (self.node v.id).child d = rootId t := by rw [h.node_eq, mkNode_child]
  rw [hch] at hstep
  cases ht : rootId t with
  | some c =>
    rw [ht] at hstep
    exact .inl ⟨c, hstep, ht, hbtw.same hv hs⟩
  | none =>
    obtain rfl := eq_nil_of_rootId ht
    exact goesDown_neighbour h hsk hord hbtw hs (isMatch_eq_false fun o ho => (hv o ho).not_isMatch) nofun hstep

lemma goesDown_back (hv : v.obj = none)
    (ht : ∀ o ∈ objs t, High d bias cmp o)
    (hstep : findInitialStep cmp bias self v.id =
      match (self.node v.id).child d.flip with
      | some next => some (.inl next)
      | none => (checkNeighbour cmp bias self v.id).map .inr) : GoesDown cmp bias d self ctx v t s := by
  have hch : (self.node v.id).child d.flip = rootId s := by rw [h.node_eq, ← mkNode_flip, mkNode_child]
  rw [hch] at hstep
  cases hs : rootId s with
  | some c =>
    rw [hs] at hstep
    refine .inr (.inl ⟨c, hstep, hs, hbtw.flip (fun o ho => ?_) ht⟩)
    rw [hv] at ho
    exact absurd ho.symm (Option.some_ne_none o)
  | none =>
    obtain rfl := eq_nil_of_rootId hs
    exact goesDown_neighbour h hsk hord hbtw nofun (by rw [hv]; rfl) ht hstep

lemma goesDown_full {o : α} (hv : v.obj = some o) : GoesDown cmp bias d self ctx v t s := by
  have hobj : (self.node v.id).obj = some o := by rw [h.node_eq, mkNode_obj, hv]
  have hstep : findInitialStep cmp bias self v.id = _ := findInitialStep_full hsk hobj
  have hsame : ∀ x, v.obj = some x → x = o := fun x hx => Option.some.inj (hx.symm.trans hv)
  have hlist : InSearchOrder d cmp bias ((ctxBefore d ctx ++ inorder d s) ++ v :: (inorder d t ++ ctxAfter d ctx)) :=
    inorder_plug_fork ▸ hord
  obtain ⟨-, haft, hbef⟩ := pairwise_append.mp hlist
  have hbef : ∀ c ∈ ctxBefore d ctx ++ inorder d s, ∀ x, c.obj = some x →
      Ascends (along d cmp) x o ∧ OneMatch cmp bias x o := fun c hc x hx =>
    hbef c hc v mem_cons_self x hx o hv
  have haft : ∀ c ∈ inorder d t ++ ctxAfter d ctx, ∀ y, c.obj = some y → Ascends (along d cmp) o y := fun c hc y hy =>
    ((pairwise_cons.mp haft).1 c hc o hv y hy).1
  by_cases hlow : along d cmp o < 0
  · -- smaller than the argument, with everything before it
    rw [if_pos hlow] at hstep
    refine goesDown_on h hsk hord hbtw (fun x hx => hsame x hx ▸ hlow) (fun x hx => ?_) hstep
    obtain ⟨c, hc, hcx⟩ := (mem_objs d).mp hx
    have hnn := (hbef c (mem_append_right _ hc) x hcx).1.1
    unfold Low
    omega
  rw [if_neg hlow] at hstep
  by_cases hany : bias = .equal ∧ along d cmp o = 0
  · -- the one match of a search for any
    rw [if_pos hany] at hstep
    refine .inr (Or.inr ?_)
    rw [hstep, inorder_plug_fork, find_isMatch_at]
    · rfl
    · intro c hc
      refine isMatch_eq_false fun x hx hzero => ?_
      rcases (hbef c hc x hx).2 hany.1 with hne | hne
      · exact hne hzero
      · exact hne (along_eq_zero.mp hany.2)
    · simpa [hv, isMatch] using along_eq_zero.mp hany.2
  rw [if_neg hany] at hstep
  have hhigh : High d bias cmp o := ⟨not_lt.mp hlow, fun hequ hzero => hany ⟨hequ, hzero⟩⟩
  have hch : (self.node v.id).child d.flip = rootId s := by rw [h.node_eq, ← mkNode_flip, mkNode_child]
  rw [hch] at hstep
  have hhighs : ∀ c ∈ inorder d t ++ ctxAfter d ctx, ∀ y, c.obj = some y → High d bias cmp y := by
    intro c hc y hy
    obtain ⟨hnn, hpos⟩ := haft c hc y hy
    refine ⟨hnn hhigh.1, fun hequ => (hpos ?_).ne'⟩
    exact lt_of_le_of_ne hhigh.1 (hhigh.2 hequ).symm
  cases hs : rootId s with
  | some c =>
    rw [hs] at hstep
    refine .inr (.inl ⟨c, hstep, hs, hbtw.flip (fun x hx => hsame x hx ▸ hhigh) fun y hy => ?_⟩)
    obtain ⟨c, hc, hcy⟩ := (mem_objs d).mp hy
    exact hhighs c (mem_append_left _ hc) y hcy
  | none =>
    obtain rfl := eq_nil_of_rootId hs
    refine .inr (Or.inr ?_)
    have hpre : ∀ c ∈ ctxBefore d ctx ++ inorder d nil, isMatch cmp c.obj = false := by
      intro c hc
      rw [inorder_nil, append_nil] at hc
      exact isMatch_eq_false fun x hx => (hbtw.1 c hc x hx).not_isMatch
    rw [hstep, inorder_plug_fork]
    by_cases hzero : along d cmp o = 0
    · have hmat : isMatch cmp v.obj = true := by simpa [hv, isMatch] using along_eq_zero.mp hzero
      rw [if_pos hzero, find_isMatch_at _ hpre hmat]
      rfl
    have hmat : isMatch cmp v.obj = false := isMatch_eq_false fun x hx =>
      hsame x hx ▸ mt along_eq_zero.mpr hzero
    have hpos : 0 < along d cmp o := lt_of_le_of_ne hhigh.1 (Ne.symm hzero)
    rw [if_neg hzero, find_isMatch_after _ hpre hmat, find_isMatch_none]
    · rfl
    · exact fun c hc => isMatch_eq_false fun y hy =>
        mt along_eq_zero.mpr ((haft c hc y hy).2 hpos).ne'

end At

lemma findInitialStep_spec (h : Rep self (plug ctx (fork d v t s))) (hsk : bias.Seeks d)
    (hasc : (objs (plug ctx (fork d v t s))).Pairwise (Ascends cmp))
    (hone : (objs (plug ctx (fork d v t s))).Pairwise (OneMatch cmp bias))
    (hbtw : Between d (Low d cmp) (High d bias cmp) ctx) : GoesDown cmp bias d self ctx v t s := by
  have hord := inSearchOrder_inorder hasc hone d
  cases hv : v.obj with
  | some o => exact goesDown_full h hsk hord hbtw hv
  | none =>
    obtain ⟨l, r, hfork⟩ := fork_eq_fork d .left v t s
    have hsub : ∀ {R : α → α → Prop}, (objs (plug ctx (fork d v t s))).Pairwise R → (objs l ++ objs r).Pairwise R := by
      intro R hR
      rw [hfork, objs_plug, objs_fork, hv, Option.toList_none, append_nil, append_assoc] at hR
      exact (pairwise_append.mp (pairwise_append.mp hR).2.1).1
    have hobj : (self.node v.id).obj = none := by rw [h.node_eq, mkNode_obj, hv]
    obtain ⟨side, hside, hdecided⟩ :=
      rbFindEmptyDirection_decided (g := fun o (_ : Unit) => cmp o) (y := ()) bias (hfork ▸ h)
    obtain ⟨hon, hback⟩ := hdecided.leaves hsk hfork.symm (hsub hasc) (hsub hone)
    have hstep : findInitialStep cmp bias self v.id =
        match (self.node v.id).child side with
        | some next => some (.inl next)
        | none => (checkNeighbour cmp bias self v.id).map .inr := by
      unfold findInitialStep
      rw [hobj]
      rw [hside]
      rfl
    rcases Side.eq_or_eq_flip d side with rfl | rfl
    · refine goesDown_on h hsk hord hbtw (fun o ho => ?_) (hon rfl) hstep
      rw [hv] at ho
      exact absurd ho.symm (Option.some_ne_none o)
    · exact goesDown_back h hsk hord hbtw hv (hback rfl) hstep

lemma findInitial_loop {ctx : List (TreeFrame (Cell α))} {t : BinTree (Cell α)}
    (h : Rep self (plug ctx t)) (hsk : bias.Seeks d) (hasc : (objs (plug ctx t)).Pairwise (Ascends cmp))
    (hone : (objs (plug ctx t)).Pairwise (OneMatch cmp bias))
    (hbtw : Between d (Low d cmp) (High d bias cmp) ctx) (hcur : rootId t = some cur)
    (hfuel : (ids t).length ≤ fuel) :
    iterate (findInitialStep cmp bias self) fuel cur =
      some (((inorder d (plug ctx t)).find? fun c => isMatch cmp c.obj).map Cell.id) := by
  induction fuel generalizing ctx t cur with
  | zero =>
    exact absurd hfuel (Nat.not_le.mpr (length_ids_pos hcur))
  | succ fuel ih =>
    obtain ⟨v, t, s, rfl, rfl⟩ := exists_fork_of_rootId hcur d
    have hlen := (ids_fork_perm d v t s).length_eq
    simp only [length_cons, length_append] at hlen
    rcases findInitialStep_spec h hsk hasc hone hbtw with
      ⟨c, hstep, hc, hdown⟩ | ⟨c, hstep, hc, hdown⟩ | hstep
    · have hon : Rep self (plug (⟨d, v, s⟩ :: ctx) t) := h
      have hdeeper := ih hon hasc hone hdown hc (by omega)
      exact (iterate_next hstep fuel).trans hdeeper
    · have hplug : plug ctx (fork d v t s) = plug (⟨d.flip, v, t⟩ :: ctx) s := by rw [plug_cons, fork_flip]
      rw [hplug] at h hasc hone ⊢
      exact (iterate_next hstep fuel).trans (ih h hasc hone hdown hc (by omega))
    · exact iterate_done hstep fuel

lemma rbFindInitial_spec {t : BinTree (Cell α)} (h : Rep self t) (hsk : bias.Seeks d)
    (hasc : (objs t).Pairwise (Ascends cmp)) (hone : (objs t).Pairwise (OneMatch cmp bias)) :
    rbFindInitial cmp bias self = some (((inorder d t).find? fun c => isMatch cmp c.obj).map Cell.id) := by
  unfold rbFindInitial
  rw [h.root_eq]
  cases hroot : rootId t with
  | none => rw [eq_nil_of_rootId hroot]; rfl
  | some root =>
    have hplug : Rep self (plug [] t) := h
    exact findInitial_loop hplug hsk hasc hone ⟨nofun, nofun⟩ hroot h.length_ids_le

end Rounds

/-! ## From one match to the next -/

section Traversal

variable {conf : RbConf α} {self : RbTree α} {t : BinTree (Cell α)} {pre post mid : List (ℕ × Option α)}
  {e : ℕ × Option α}

lemma exists_cell_of_entry (hlist : inDirection d (listing t) = pre ++ e :: post) :
    ∃ cpre c cpost, inorder d t = cpre ++ c :: cpost ∧ cpre.map (fun c => (c.id, c.obj)) = pre ∧ (c.id, c.obj) = e ∧
      cpost.map (fun c => (c.id, c.obj)) = post := by
  rw [inDirection_listing, map_eq_append_iff] at hlist
  obtain ⟨cpre, crest, hspl, hpre, hrest⟩ := hlist
  obtain ⟨c, cpost, rfl, hc, hpost⟩ := map_eq_cons_iff.mp hrest
  exact ⟨cpre, c, cpost, hspl, hpre, hc, hpost⟩

lemma Rep.length_inDirection_le (h : Rep self t) (d : Side) : (inDirection d (listing t)).length ≤ self.fresh := by
  rw [inDirection_listing, length_map]
  exact h.length_inorder_le d

/-- The nodes after a match, in the order of the traversal: none of them is smaller. -/
structure Following (d : Side) (cmp : α → ℤ) (post : List (ℕ × Option α)) : Prop where
  nonneg : ∀ e ∈ post, ∀ x, e.2 = some x → 0 ≤ along d cmp x
  ascends : post.Pairwise fun a b => ∀ x, a.2 = some x → ∀ y, b.2 = some y → Ascends (along d cmp) x y

section Entry

variable (h : Rep self t) (hlist : inDirection d (listing t) = pre ++ e :: post)

include h hlist

lemma rbNodeStep_entry : rbNodeStep d self e.1 = some (post.head?.map Prod.fst) := by
  obtain ⟨cpre, c, cpost, hspl, -, rfl, rfl⟩ := exists_cell_of_entry hlist
  rw [rbNodeStep_spec h hspl, head?_map, Option.map_map]
  rfl

lemma obj_of_entry : (self.node e.1).obj = e.2 := by
  refine h.obj_of_mem_listing ((mem_inDirection (d := d)).mp ?_)
  rw [hlist]
  exact mem_append_right _ mem_cons_self

/-- The way to the next node that is not empty. Induction on what is left of the list. -/
lemma findNext_loop (hfuel : post.length < fuel) : iterate (findNextStep cmp d self) fuel e.1 =
      some (((post.find? fun e => e.2.isSome).filter fun e => isMatch cmp e.2).map Prod.fst) := by
  obtain _ | fuel := fuel
  · omega
  have hnext := rbNodeStep_entry h hlist
  induction post generalizing pre e fuel with
  | nil =>
    refine iterate_done ?_ fuel
    rw [findNextStep, hnext]
    rfl
  | cons e' post ih =>
    have hlist' : inDirection d (listing t) = (pre ++ [e]) ++ e' :: post := by rw [hlist, append_assoc]; rfl
    have hobj := obj_of_entry h hlist'
    rw [length_cons] at hfuel
    cases he : e'.2 with
    | none =>
      obtain _ | fuel := fuel
      · omega
      rw [find?_cons_of_neg (by simp [he])]
      refine (iterate_next ?_ _).trans (ih hlist' fuel (by omega) (rbNodeStep_entry h hlist'))
      simp [findNextStep, hnext, hobj, he]
    | some o =>
      rw [find?_cons_of_pos (by simp [he])]
      refine iterate_done ?_ fuel
      rw [Option.filter_some]
      by_cases hzero : cmp o = 0
      · rw [if_pos (by simp [he, hzero, isMatch])]
        simp [findNextStep, hnext, hobj, he, hzero]
      · rw [if_neg (by simp [he, hzero, isMatch])]
        simp [findNextStep, hnext, hobj, he, hzero]

lemma rbAo2FindNext_spec (s : Search α) (hpost : Following d s.cmp post) :
    rbAo2FindNext s d self e.1 = some ((post.find? fun e => isMatch s.cmp e.2).map Prod.fst) := by
  have hlen := h.length_inDirection_le d
  rw [hlist, length_append, length_cons] at hlen
  have hstop : post.Pairwise fun a b =>
      a.2.isSome → isMatch s.cmp a.2 = false → isMatch s.cmp b.2 = false :=
    hpost.ascends.imp_of_mem fun {a _} ha _ hab => isMatch_stops (hpost.nonneg a ha) hab
  rw [rbAo2FindNext, findNext_loop h hlist (by omega), find_isMatch hstop]

end Entry

/-! ## Unlinking the nodes that are visited -/

lemma exists_plug_of_listing {p q : List (ℕ × Option α)} (hlist : listing t = p ++ e :: q) :
    ∃ ctx c a b, t = plug ctx (fork .left c a b) ∧ (c.id, c.obj) = e ∧
      ∀ c', listing (plug ctx (fork .left c' a b)) = p ++ (c'.id, c'.obj) :: q := by
  obtain ⟨cpre, c, cpost, hspl, rfl, hc, rfl⟩ := exists_cell_of_entry (d := .right) hlist
  obtain ⟨ctx, a, b, ht, rfl, rfl⟩ := exists_plug_of_inorder .right hspl
  refine ⟨ctx, c, a, b, ht, hc, fun c' => ?_⟩
  have hfork : fork .left c' a b = fork .right c' b a := rfl
  rw [listing, hfork, inorder_plug_fork, map_append, map_cons]

lemma listing_of_entry (hlist : inDirection d (listing t) = pre ++ e :: post) :
    ∃ p q, listing t = p ++ e :: q ∧
      (∀ {t' : BinTree (Cell α)} {e'}, listing t' = p ++ e' :: q → inDirection d (listing t') = pre ++ e' :: post) ∧
      ∀ {t' : BinTree (Cell α)}, listing t' = p ++ q → inDirection d (listing t') = pre ++ post := by
  cases d with
  | right => exact ⟨pre, post, hlist, id, id⟩
  | left =>
    refine ⟨post.reverse, pre.reverse, ?_, ?_, ?_⟩
    · have hrev := congrArg List.reverse hlist
      simpa [inDirection] using hrev
    · intro t' e' ht'
      simp [inDirection, ht']
    · intro t' ht'
      simp [inDirection, ht']

section

variable (h : Valid conf self t) (hlist : inDirection d (listing t) = pre ++ e :: post)
include h hlist

lemma Valid.unlink_entry :
    ∃ t', Valid conf (self.unlinkObj e.1) t' ∧ inDirection d (listing t') = pre ++ (e.1, none) :: post := by
  obtain ⟨p, q, hasc, hedit, -⟩ := listing_of_entry hlist
  obtain ⟨ctx, c, a, b, rfl, rfl, hplug⟩ := exists_plug_of_listing hasc
  exact ⟨_, h.unlinkObj, hedit (hplug { c with obj := none })⟩

lemma Valid.destroy_entry (hemp : e.2 = none) : ∃ self' t', self.destroyNode e.1 = some self' ∧ Valid conf self' t' ∧
      inDirection d (listing t') = pre ++ post ∧ self'.fresh = self.fresh := by
  obtain ⟨p, q, hasc, -, hremoved⟩ := listing_of_entry hlist
  obtain ⟨ctx, c, a, b, rfl, rfl, hplug⟩ := exists_plug_of_listing hasc
  obtain ⟨self', t', hdestroy, hval, hlisting, -, hfr⟩ := h.destroyNode hemp (hplug c)
  exact ⟨self', t', hdestroy, hval, hremoved hlisting, hfr⟩

lemma Valid.visitNode_entry (visits : Visits) :
    ∃ t' o, Valid conf (visitNode visits self e.1) t' ∧ inDirection d (listing t') = pre ++ (e.1, o) :: post ∧
      (visits.unlink e.1 = true → o = none) := by
  unfold visitNode
  split_ifs with hunlink
  · obtain ⟨t', h', hlist'⟩ := h.unlink_entry hlist
    exact ⟨t', none, h', hlist', fun _ => rfl⟩
  · exact ⟨t, e.2, h, hlist, fun hyes => absurd hyes hunlink⟩

end

lemma Valid.dropNode_entry {o : Option α} (h : Valid conf self t)
    (hlist : inDirection d (listing t) = pre ++ (i, o) :: post) (visits : Visits)
    (hemp : visits.unlink i = true → o = none) :
    ∃ self' t' pre', dropNode visits self i = some self' ∧ Valid conf self' t' ∧
      inDirection d (listing t') = pre' ++ post := by
  unfold dropNode
  split_ifs with hdrop
  · obtain ⟨self', t', hdestroy, h', hlist', -⟩ := h.destroy_entry hlist (hemp hdrop.1)
    exact ⟨self', t', pre, hdestroy, h', hlist'⟩
  · refine ⟨self, t, pre ++ [(i, o)], rfl, h, ?_⟩
    rw [hlist, append_assoc]
    rfl

lemma Following.tail (h : Following d cmp (mid ++ e :: post)) : Following d cmp post :=
  ⟨fun e' he' => h.nonneg e' (mem_append_right _ (mem_cons_of_mem _ he')),
    (pairwise_cons.mp (pairwise_append.mp h.ascends).2.1).2⟩

section

variable (s : Search α) (visits : Visits) (h : Valid conf self t)
  (hlist : inDirection d (listing t) = pre ++ e :: post) (hpost : Following d s.cmp post) (visited : List ℕ)
include h hlist hpost

lemma traverseStep_spec : ∃ self' t' pre', Valid conf self' t' ∧ inDirection d (listing t') = pre' ++ post ∧
      traverseStep s d visits (self, e.1, visited) =
        some (match (post.find? fun e => isMatch s.cmp e.2).map Prod.fst with
          | none => .inr (self', visited ++ [e.1])
          | some n => .inl (self', n, visited ++ [e.1])) := by
  obtain ⟨t₁, o, h₁, hlist₁, hemp⟩ := h.visitNode_entry hlist visits
  have hnext := rbAo2FindNext_spec h₁.rep hlist₁ s hpost
  obtain ⟨self₂, t₂, pre', hdrop, h₂, hlist₂⟩ := h₁.dropNode_entry hlist₁ visits hemp
  refine ⟨self₂, t₂, pre', h₂, hlist₂, ?_⟩
  simp [traverseStep, hnext, hdrop]

lemma traverse_loop (hfuel : post.length < fuel) : ∃ self' t', Valid conf self' t' ∧
      iterate (traverseStep s d visits) fuel (self, e.1, visited) =
        some (self', visited ++ e.1 :: (post.filter fun e => isMatch s.cmp e.2).map Prod.fst) := by
  induction fuel generalizing self t pre e post visited with
  | zero => exact absurd hfuel (Nat.not_lt_zero _)
  | succ fuel ih =>
    obtain ⟨self', t', pre', h', hlist', hstep⟩ := traverseStep_spec s visits h hlist hpost visited
    cases hfind : post.find? fun e => isMatch s.cmp e.2 with
    | none =>
      rw [hfind] at hstep
      refine ⟨self', t', h', ?_⟩
      rw [filter_eq_nil_iff.mpr (find?_eq_none.mp hfind)]
      exact iterate_done hstep fuel
    | some next =>
      rw [hfind] at hstep
      obtain ⟨mid, rest, rfl, -, hfilter⟩ := filter_of_find hfind
      rw [length_append, length_cons] at hfuel
      have hpl : inDirection d (listing t') = (pre' ++ mid) ++ next :: rest := by rw [hlist', append_assoc]
      obtain ⟨self'', t'', h'', hrun⟩ := ih h' hpl hpost.tail (visited ++ [e.1]) (by omega)
      refine ⟨self'', t'', h'', (iterate_next hstep fuel).trans (hrun.trans ?_)⟩
      rw [hfilter, append_assoc]
      rfl

end

end Traversal

end Directed

/-! ## Every traversal -/

/-- The sort function is monotone for the search argument. Where duplicates are rejected or
replaced, objects that match the same object or key, and not only the same partial key, are
equal. -/
structure Search.Fits (conf : RbConf α) (s : Search α) (t : BinTree (Cell α)) : Prop where
  ascends : (objs t).Pairwise (Ascends s.cmp)
  same : conf.dups = .reject ∨ conf.dups = .replace → s.partialKey = false →
    ∀ a ∈ objs t, ∀ b ∈ objs t, s.cmp a = 0 → s.cmp b = 0 → conf.sortFn a b = 0

/-- No two objects are equal in a container that does not allow duplicates.
Source: `rb_ao2_integrity` -/
def NoDuplicates (conf : RbConf α) (t : BinTree (Cell α)) : Prop :=
  conf.dups = .reject ∨ conf.dups = .replace → (objs t).Pairwise fun a b => conf.sortFn a b ≠ 0

variable {conf : RbConf α} {t : BinTree (Cell α)} {d : Side}

lemma fits_object (hf : Comparator conf.sortFn) (hsort : Sorted conf.sortFn (objs t)) (x : α) :
    Search.Fits conf ⟨fun o => conf.sortFn o x, false⟩ t := by
  constructor
  · refine List.Pairwise.imp (fun {a b} hab => ⟨fun ha => hf.ge_of_ge_of_le ha hab, fun ha => ?_⟩) hsort
    by_contra hb
    exact absurd (hf.trans a b x hab (not_lt.mp hb)) (not_le.mpr ha)
  · intro _ _ a _ b _ ha hb
    have hab : conf.sortFn a b ≤ 0 := hf.trans a x b ha.le ((hf.sign x b).mpr hb.ge)
    have hba : conf.sortFn b a ≤ 0 := hf.trans b x a hb.le ((hf.sign x a).mpr ha.ge)
    exact le_antisymm hab ((hf.sign b a).mp hba)

lemma searchBias_equal {dups : Dups} {partialKey : Bool} (h : searchBias dups partialKey d = .equal) :
    (dups = .reject ∨ dups = .replace) ∧ partialKey = false := by
  cases partialKey with
  | false =>
    refine ⟨?_, rfl⟩
    cases dups with
    | reject => exact .inl rfl
    | replace => exact .inr rfl
    | allow => cases d <;> cases h
    | objReject => cases d <;> cases h
  | true => cases dups <;> cases d <;> cases h

lemma oneMatch_of_noDuplicates {s : Search α} (h : s.Fits conf t) (hdups : NoDuplicates conf t) (d : Side) :
    (objs t).Pairwise (OneMatch s.cmp (searchBias conf.dups s.partialKey d)) := by
  by_cases hequ : searchBias conf.dups s.partialKey d = .equal
  · obtain ⟨hpolicy, hkey⟩ := searchBias_equal hequ
    refine (hdups hpolicy).imp_of_mem fun {a b} ha hb hab _ => ?_
    by_contra hboth
    rw [not_or, not_ne_iff, not_ne_iff] at hboth
    exact hab (h.same hpolicy hkey a ha b hb hboth.1 hboth.2)
  · exact List.Pairwise.imp (fun _ hbias => absurd hbias hequ) h.ascends

lemma following_of_match {cmp : α → ℤ} {pre post : List (ℕ × Option α)} {e : ℕ × Option α}
    (hasc : (objs t).Pairwise (Ascends cmp)) (hlist : inDirection d (listing t) = pre ++ e :: post)
    (he : isMatch cmp e.2 = true) : Following d cmp post := by
  have hord : (inDirection d (listing t)).Pairwise fun a b =>
      ∀ x, a.2 = some x → ∀ y, b.2 = some y → Ascends (along d cmp) x y := by
    have hnever : (objs t).Pairwise (OneMatch cmp .first) :=
      List.Pairwise.imp (fun _ hbias => absurd hbias (by decide)) hasc
    rw [inDirection_listing, pairwise_map]
    exact (inSearchOrder_inorder hasc hnever d).imp fun hab x hx y hy => (hab x hx y hy).1
  rw [hlist, pairwise_append, pairwise_cons] at hord
  refine ⟨fun b hb y hy => ?_, hord.2.1.2⟩
  obtain ⟨x, hx, hzero⟩ := exists_of_isMatch he
  exact (hord.2.1.1 b hb x hx y hy).1 (along_eq_zero.mpr hzero).ge

/-- **A directed traversal** visits exactly the nodes that match, once each and in order, whatever
empty nodes there are and whichever visited nodes are unlinked or deleted on the way. -/
theorem rbTraverse_visits {conf : RbConf α} {self : RbTree α} {t : BinTree (Cell α)} (h : Valid conf self t)
    (hdups : NoDuplicates conf t) {s : Search α} (hs : s.Fits conf t) (d : Side) (visits : Visits) :
    ∃ self' t', Valid conf self' t' ∧
      rbTraverse conf s d visits self = some (self', matching s.cmp d (listing t)) := by
  have hfst : rbAo2FindFirst conf s d self =
      some (((inDirection d (listing t)).find? fun e => isMatch s.cmp e.2).map Prod.fst) := by
    rw [rbAo2FindFirst, rbFindInitial_spec h.rep (searchBias_seeks _ _ d) hs.ascends
      (oneMatch_of_noDuplicates hs hdups d), inDirection_listing, find?_map, Option.map_map]
    rfl
  unfold rbTraverse matching
  rw [hfst]
  cases hfind : (inDirection d (listing t)).find? fun e => isMatch s.cmp e.2 with
  | none =>
    refine ⟨self, t, h, ?_⟩
    rw [filter_eq_nil_iff.mpr (find?_eq_none.mp hfind)]
    rfl
  | some e =>
    obtain ⟨pre, post, hlist, hmat, hfilter⟩ := filter_of_find hfind
    have hlen := h.rep.length_inDirection_le d
    rw [hlist, length_append, length_cons] at hlen
    obtain ⟨self', t', h', hrun⟩ := traverse_loop s visits h hlist
      (following_of_match hs.ascends hlist hmat) [] (show post.length < self.fresh by omega)
    refine ⟨self', t', h', hrun.trans ?_⟩
    rw [hfilter]
    rfl

end Search

def RbConf.numbers (dups : Dups) : RbConf ℕ := ⟨fun a b => a - b, dups, false⟩

lemma comparator_numbers (dups : Dups) : Comparator (RbConf.numbers dups).sortFn := by
  refine ⟨fun a b => ?_, fun a b c hab hbc => ?_⟩
  · simp only [RbConf.numbers]
    omega
  · simp only [RbConf.numbers] at hab hbc ⊢
    omega

/-- Four numbers, one of them emptied; the two nodes of an equal number are visited and deleted. -/
theorem rbTraverse_visits_numbers :
    ∃ self t, rbRun (.numbers .allow) [.link 2, .link 1, .link 2, .link 3, .unlinkObj 1] RbTree.new = some self ∧
      Valid (.numbers .allow) self t ∧ ∃ self' t', Valid (.numbers .allow) self' t' ∧
        rbTraverse (.numbers .allow) ⟨fun o => (RbConf.numbers .allow).sortFn o 2, false⟩ .right
          ⟨fun _ => true, fun _ => true⟩ self =
            some (self', matching (fun o => (RbConf.numbers .allow).sortFn o 2) .right (listing t)) := by
  obtain ⟨self, t, hrun, hval, -⟩ := rbRun_valid (comparator_numbers .allow)
    [.link 2, .link 1, .link 2, .link 3, .unlinkObj 1]
  refine ⟨self, t, hrun, hval, ?_⟩
  refine rbTraverse_visits hval (fun hdups => ?_) (fits_object (comparator_numbers .allow) hval.sorted 2) .right _
  rcases hdups with hdups | hdups <;> cases hdups

def compareTens (o : ℕ) : ℤ := (o / 10 : ℕ) - 1

/-- Several objects with one key, in a container that rejects duplicates: the search stops at the
first match on its way down. -/
theorem rbTraverse_not_visits :
    ∃ self t, Valid (.numbers .reject) self t ∧ NoDuplicates (.numbers .reject) t ∧
      (objs t).Pairwise (Ascends compareTens) ∧
      (rbTraverse (.numbers .reject) ⟨compareTens, false⟩ .right ⟨fun _ => false, fun _ => false⟩ self).map Prod.snd ≠
        some (matching compareTens .right (listing t)) := by
  obtain ⟨self, t, hrun, hval, -⟩ := rbRun_valid (comparator_numbers .reject) [.link 12, .link 11, .link 13]
  have hobs : (rbRun (.numbers .reject) [.link 12, .link 11, .link 13] RbTree.new).map RbTree.objects =
      some [12, 11, 13] := by decide
  have hvisited : (rbRun (.numbers .reject) [.link 12, .link 11, .link 13] RbTree.new).bind (fun self =>
      (rbTraverse (.numbers .reject) ⟨compareTens, false⟩ .right ⟨fun _ => false, fun _ => false⟩ self).map
        Prod.snd) = some [0, 2] := by decide
  rw [hrun, Option.map_some, Option.some_inj] at hobs
  rw [hrun, Option.bind_some] at hvisited
  have hperm : (objs t).Perm [12, 11, 13] := hobs ▸ hval.objects_perm.symm
  refine ⟨self, t, hval, fun _ => ?_, ?_, ?_⟩
  · have hnd : (objs t).Nodup := hperm.nodup_iff.mpr (by decide)
    refine List.Pairwise.imp (fun {a b} hab hzero => hab ?_) hnd
    simp only [RbConf.numbers] at hzero
    omega
  · refine List.Pairwise.imp (fun {a b} hab => ?_) hval.sorted
    simp only [RbConf.numbers] at hab
    unfold Ascends compareTens
    omega
  · rw [hvisited]
    intro hall
    have hlen := congrArg List.length (Option.some.inj hall)
    have hcnt : (listing t).countP (fun e => isMatch compareTens e.2) = (objs t).countP fun o => compareTens o = 0 := by
      rw [objs_eq_listing, countP_filterMap]
      refine countP_congr fun e _ => ?_
      cases e.2 with
      | none => exact Iff.rfl
      | some o => exact Iff.rfl
    rw [matching, length_map, inDirection, ← countP_eq_length_filter, hcnt, hperm.countP_eq] at hlen
    cases hlen

/-- **The tree stays flat** in every run: its height is at most twice the logarithm of its size. -/
theorem rbRun_height {α : Type} [DecidableEq α] {conf : RbConf α} (hf : Comparator conf.sortFn)
    (ops : List (ContainerOp α)) :
    ∃ self t, rbRun conf ops .new = some self ∧ Rep self t ∧ height t ≤ 2 * (size t + 1).log2 := by
  obtain ⟨self, hrun, t, hval⟩ := rbRun_new hf ops
  obtain ⟨m, hbal⟩ := hval.balanced
  obtain ⟨hheight, hsize⟩ := hbal.height_le
  have hlog : m ≤ (size t + 1).log2 := (Nat.le_log2 (Nat.succ_ne_zero _)).2 hsize
  exact ⟨self, t, hrun, hval.rep, hheight.trans (Nat.mul_le_mul_left 2 hlog)⟩

/-- Numbers that come in order are rotated all the time; the first one is unlinked and its node
destroyed. -/
theorem rbRun_height_numbers :
    ∃ self t, rbRun (.numbers .allow)
        [.link 1, .link 2, .link 3, .link 4, .link 5, .link 6, .unlinkObj 0, .destroyNode 0] .new = some self ∧
      Rep self t ∧ height t ≤ 2 * (size t + 1).log2 :=
  rbRun_height (comparator_numbers .allow) _

end Telephony.Ao2
