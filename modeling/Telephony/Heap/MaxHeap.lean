import Telephony.Lib.Runs
import Telephony.Lib.HeapOrder
import Telephony.Lib.Loop

/-!
# The max heap

`main/heap.c` keeps pointers to elements in an array, and in each element the number of its slot, so
that an element can be taken out from the middle. The slots are counted from 1. They are `int`s in
the source and numbers here: a heap has fewer than `2 ^ 31` slots.
-/

namespace Telephony.Heap

open Lib List Function Nat

/-! ## Data model -/

structure AstHeap (E : Type) where
  indexOffset : ℤ
  curLen : ℕ
  availLen : ℕ
  heap : ℕ → E
  index : E → ℤ

variable {E : Type}

def AstHeap.get (h : AstHeap E) (i : ℕ) : E := h.heap (i - 1)

def create (initHeight : ℕ) (indexOffset : ℤ) (heap : ℕ → E) (index : E → ℤ) : AstHeap E :=
  ⟨indexOffset, 0, 2 ^ (if initHeight = 0 then 8 else initHeight) - 1, heap, index⟩

section Operations

variable [DecidableEq E]

def AstHeap.getIndex (h : AstHeap E) (elm : E) : ℤ := if h.indexOffset < 0 then -1 else h.index elm

def AstHeap.set (h : AstHeap E) (i : ℕ) (elm : E) : AstHeap E :=
  { h with
    heap := update h.heap (i - 1) elm
    index := if 0 ≤ h.indexOffset then update h.index elm i else h.index }

def AstHeap.swap (h : AstHeap E) (i j : ℕ) : AstHeap E := (h.set i (h.get j)).set j (h.get i)

variable (cmpFn : E → E → ℤ)

def verify (h : AstHeap E) : ℤ :=
  if ∀ n < h.curLen / 2,
      (2 * (n + 1) ≤ h.curLen → ¬ cmpFn (h.get (n + 1)) (h.get (2 * (n + 1))) < 0) ∧
      (2 * (n + 1) + 1 ≤ h.curLen → ¬ cmpFn (h.get (n + 1)) (h.get (2 * (n + 1) + 1)) < 0)
  then 0 else -1

/-- The child `c`, if there is one and it exceeds the value in slot `m`.
Source: `max_heapify` ("max = …") -/
def larger (h : AstHeap E) (c m : ℕ) : ℕ := if c ≤ h.curLen ∧ cmpFn (h.get c) (h.get m) > 0 then c else m

/-- Source: `max_heapify` ("for (;;)"): a round, from slot `i` -/
def heapifyRound (s : AstHeap E × ℕ) : Option ((AstHeap E × ℕ) ⊕ AstHeap E) :=
  let (h, i) := s
  let max := larger cmpFn h (2 * i + 1) (larger cmpFn h (2 * i) i)
  if max = i then some (.inr h) else some (.inl (h.swap i max, max))

def maxHeapify (h : AstHeap E) (i : ℕ) : Option (AstHeap E) := iterate (heapifyRound cmpFn) (h.curLen + 1) (h, i)

/-- Source: `bubble_up` ("while (i > 1"): a round -/
def bubbleRound (s : AstHeap E × ℕ) : Option ((AstHeap E × ℕ) ⊕ (AstHeap E × ℕ)) :=
  let (h, i) := s
  if 1 < i ∧ cmpFn (h.get (i / 2)) (h.get i) < 0 then some (.inl (h.swap i (i / 2), i / 2)) else some (.inr (h, i))

def bubbleUp (h : AstHeap E) (i : ℕ) : Option (AstHeap E × ℕ) := iterate (bubbleRound cmpFn) (i + 1) (h, i)

/-- `granted` is the answer of the allocator when the array is full.
Source: `grow_heap` -/
def AstHeap.grow (h : AstHeap E) (granted : Bool) : Option (AstHeap E) :=
  if granted then some { h with availLen := h.availLen * 2 + 1 } else none

def push (elm : E) (granted : Bool) (h : AstHeap E) : Option (ℤ × AstHeap E) :=
  match if h.curLen = h.availLen then h.grow granted else some h with
  | none => some (-1, h)
  | some h => do
    let h := { h with curLen := h.curLen + 1 }
    let (h, _) ← bubbleUp cmpFn (h.set h.curLen elm) h.curLen
    return (0, h)

/-- Source: `_ast_heap_remove` -/
def removeAt (index : ℕ) (h : AstHeap E) : Option (Option E × AstHeap E) :=
  if index = 0 ∨ h.curLen < index then some (none, h)
  else do
    let ret := h.get index
    let last := h.get h.curLen
    let h := { h with curLen := h.curLen - 1 }
    let (h, index) ← bubbleUp cmpFn (h.set index last) index
    let h ← maxHeapify cmpFn h index
    return (some ret, h)

def remove (elm : E) (h : AstHeap E) : Option (Option E × AstHeap E) :=
  let i := h.getIndex elm
  if i = -1 then some (none, h) else removeAt cmpFn i.toNat h

def pop (h : AstHeap E) : Option (Option E × AstHeap E) := removeAt cmpFn 1 h

end Operations

/-! ## Slots -/

section Slots

variable [DecidableEq E] {h h' : AstHeap E} {i j k : ℕ} {elm : E}

def AstHeap.elements (h : AstHeap E) : List E := (range h.curLen).map h.heap

def Placed (h : AstHeap E) : Prop := ∀ k, 1 ≤ k → k ≤ h.curLen → h.index (h.get k) = k

omit [DecidableEq E] in
lemma mem_elements : elm ∈ h.elements ↔ ∃ k, 1 ≤ k ∧ k ≤ h.curLen ∧ h.get k = elm := by
  unfold AstHeap.elements
  rw [mem_map]
  constructor
  · rintro ⟨k, hk, rfl⟩
    exact ⟨k + 1, by omega, mem_range.mp hk, rfl⟩
  · rintro ⟨k, hpos, hk, rfl⟩
    exact ⟨k - 1, mem_range.mpr (by omega), rfl⟩

lemma get_set_self (h : AstHeap E) (i : ℕ) (elm : E) : (h.set i elm).get i = elm := update_self _ _ _

lemma get_set_ne (h : AstHeap E) (elm : E) (hi : 1 ≤ i) (hk : 1 ≤ k) (hki : k ≠ i) :
    (h.set i elm).get k = h.get k := update_of_ne (by omega) _ _

lemma index_set (hoff : 0 ≤ h.indexOffset) (i : ℕ) (elm : E) :
    (h.set i elm).index = update h.index elm i := if_pos hoff

lemma set_get (hoff : 0 ≤ h.indexOffset) (hidx : h.index (h.get i) = i) : h.set i (h.get i) = h := by
  have hheap : update h.heap (i - 1) (h.get i) = h.heap := update_eq_self _ _
  have hfields : update h.index (h.get i) i = h.index := by
    rw [← hidx]
    exact update_eq_self _ _
  unfold AstHeap.set
  rw [if_pos hoff, hheap, hfields]

lemma swap_exchanged (h : AstHeap E) (hi : 1 ≤ i) (hj : 1 ≤ j) (hij : i ≠ j) :
    Exchanged i j h.get (h.swap i j).get where
  left := (get_set_ne _ _ hj hi hij).trans (get_set_self _ _ _)
  right := get_set_self _ _ _
  other := fun _ hk hki hkj => (get_set_ne _ _ hj hk hkj).trans (get_set_ne _ _ hi hk hki)

structure Kept (h h' : AstHeap E) : Prop where
  offset : h'.indexOffset = h.indexOffset
  curLen : h'.curLen = h.curLen
  availLen : h'.availLen = h.availLen
  placed : Placed h'
  members : h'.elements.Perm h.elements

omit [DecidableEq E] in
lemma Kept.trans {h'' : AstHeap E} (h₁ : Kept h h') (h₂ : Kept h' h'') : Kept h h'' where
  offset := h₂.offset.trans h₁.offset
  curLen := h₂.curLen.trans h₁.curLen
  availLen := h₂.availLen.trans h₁.availLen
  placed := h₂.placed
  members := h₂.members.trans h₁.members

lemma swap_kept (hoff : 0 ≤ h.indexOffset) (hpld : Placed h) (hi : 1 ≤ i) (hin : i ≤ h.curLen)
    (hj : 1 ≤ j) (hjn : j ≤ h.curLen) (hij : i ≠ j) : Kept h (h.swap i j) where
  offset := rfl
  curLen := rfl
  availLen := rfl
  placed := by
    have hexc := swap_exchanged h hi hj hij
    have hidx : (h.swap i j).index = update (update h.index (h.get j) i) (h.get i) j := by
      unfold AstHeap.swap
      rw [index_set (h := h.set i (h.get j)) hoff, index_set hoff]
    have hap : ∀ {k l}, 1 ≤ k → k ≤ h.curLen → 1 ≤ l → l ≤ h.curLen → k ≠ l → h.get k ≠ h.get l := by
      intro k l hk hkn hl hln hkl heq
      have hsame := (hpld k hk hkn).symm.trans ((congrArg h.index heq).trans (hpld l hl hln))
      exact hkl (Int.ofNat.inj hsame)
    intro k hk hkn
    rw [hidx]
    by_cases hki : k = i
    · rw [hki, hexc.left, update_of_ne (hap hj hjn hi hin (Ne.symm hij)), update_self]
    by_cases hkj : k = j
    · rw [hkj, hexc.right, update_self]
    rw [hexc.other k hk hki hkj, update_of_ne (hap hk hkn hi hin hki),
      update_of_ne (hap hk hkn hj hjn hkj)]
    exact hpld k hk hkn
  members := by
    have hheap : (h.swap i j).heap = h.heap ∘ Equiv.swap (i - 1) (j - 1) := by
      funext k
      rw [comp_apply, Equiv.swap_apply_def]
      split_ifs with hki hkj
      · rw [hki]
        exact (swap_exchanged h hi hj hij).left
      · rw [hkj]
        exact (swap_exchanged h hi hj hij).right
      · exact (swap_exchanged h hi hj hij).other (k + 1) (by omega) (by omega) (by omega)
    change ((range h.curLen).map (h.swap i j).heap).Perm h.elements
    rw [hheap]
    exact map_range_swap h.heap (by omega) (by omega)

end Slots

/-! ## Sifting -/

section Sifting

variable [DecidableEq E] {cmpFn : E → E → ℤ} {h h' : AstHeap E} {i : ℕ} {s : AstHeap E × ℕ}

def Tops (cmpFn : E → E → ℤ) (h : AstHeap E) (i : ℕ) : Prop :=
  ∀ k, k ≤ h.curLen → k / 2 = i → 0 ≤ cmpFn (h.get i) (h.get k)

/-- A value on its way up, which was in slot `i` of `h` and is in a slot of another heap. -/
structure Rising (cmpFn : E → E → ℤ) (h : AstHeap E) (i : ℕ) (s : AstHeap E × ℕ) : Prop where
  kept : Kept h s.1
  pos : 1 ≤ s.2
  le : s.2 ≤ s.1.curLen
  loose : Loose cmpFn s.1.curLen s.2 s.1.get
  tops : Tops cmpFn h i → Tops cmpFn s.1 s.2

section

variable (hf : Comparator cmpFn)
include hf

lemma bubbleRound_cases (hoff : 0 ≤ h.indexOffset) (hs : Rising cmpFn h i s) :
    (∃ s', bubbleRound cmpFn s = some (.inl s') ∧ Rising cmpFn h i s' ∧ s'.2 < s.2) ∨
      ∃ s', bubbleRound cmpFn s = some (.inr s') ∧ Rising cmpFn h i s' ∧
        (2 ≤ s'.2 → 0 ≤ cmpFn (s'.1.get (s'.2 / 2)) (s'.1.get s'.2)) := by
  obtain ⟨h', i'⟩ := s
  have hpos : 1 ≤ i' := hs.pos
  have hle : i' ≤ h'.curLen := hs.le
  by_cases hup : 1 < i' ∧ cmpFn (h'.get (i' / 2)) (h'.get i') < 0
  · have hswap := swap_kept (h := h') (j := i' / 2) (hs.kept.offset ▸ hoff) hs.kept.placed hpos hle (by omega) (by omega)
      (by omega)
    have hexc := swap_exchanged (j := i' / 2) h' hpos (by omega) (by omega)
    refine .inl ⟨(h'.swap i' (i' / 2), i' / 2), if_pos hup, ⟨hs.kept.trans hswap, ?_, ?_, ?_, fun _ => ?_⟩, ?_⟩
    · omega
    · change i' / 2 ≤ h'.curLen
      omega
    · exact hs.loose.up hf hup.1 hle hexc
    · exact hs.loose.up_tops hf hup.1 hup.2 hexc
    · omega
  · refine .inr ⟨(h', i'), if_neg hup, hs, fun htwo => ?_⟩
    rw [not_and, Int.not_lt] at hup
    exact hup htwo

lemma bubbleUp_spec (hoff : 0 ≤ h.indexOffset) (hpld : Placed h) (hi : 1 ≤ i)
    (hin : i ≤ h.curLen) (hlse : Loose cmpFn h.curLen i h.get) :
    ∃ h' i', bubbleUp cmpFn h i = some (h', i') ∧ Rising cmpFn h i (h', i') ∧
      (2 ≤ i' → 0 ≤ cmpFn (h'.get (i' / 2)) (h'.get i')) := by
  have hsta : Rising cmpFn h i (h, i) :=
    ⟨⟨rfl, rfl, rfl, hpld, .refl _⟩, hi, hin, hlse, fun htops => htops⟩
  obtain ⟨⟨h', i'⟩, hpost, hrun⟩ := iterate_total (fun s hs => bubbleRound_cases (s := s) hf hoff hs) hsta
  exact ⟨h', i', hrun _ (lt_succ_self _), hpost⟩

omit [DecidableEq E] in
lemma larger_cases (h : AstHeap E) (c m : ℕ) : (larger cmpFn h c m = m ∨ (larger cmpFn h c m = c ∧ c ≤ h.curLen)) ∧
      cmpFn (h.get m) (h.get (larger cmpFn h c m)) ≤ 0 ∧
      (c ≤ h.curLen → cmpFn (h.get c) (h.get (larger cmpFn h c m)) ≤ 0) := by
  unfold larger
  split_ifs with hc
  · exact ⟨.inr ⟨rfl, hc.1⟩, (hf.sign _ _).mpr (Int.le_of_lt hc.2), fun _ => (hf.self _).le⟩
  · refine ⟨.inl rfl, (hf.self _).le, fun hle => ?_⟩
    rw [not_and, Int.not_lt] at hc
    exact hc hle

lemma heapifyRound_cases (h : AstHeap E) (i : ℕ) :
    (∃ j, heapifyRound cmpFn (h, i) = some (.inl (h.swap i j, j)) ∧ j ≤ h.curLen ∧ j / 2 = i ∧
      0 ≤ cmpFn (h.get j) (h.get i) ∧ ∀ k, k ≤ h.curLen → k / 2 = i → 0 ≤ cmpFn (h.get j) (h.get k)) ∨
    (heapifyRound cmpFn (h, i) = some (.inr h) ∧ Tops cmpFn h i) := by
  obtain ⟨hleft, hge, hgel⟩ := larger_cases hf h (2 * i) i
  obtain ⟨hrt, hge', hger⟩ := larger_cases hf h (2 * i + 1) (larger cmpFn h (2 * i) i)
  unfold heapifyRound
  dsimp only
  generalize larger cmpFn h (2 * i) i = m at hleft hge hgel hrt hge' hger ⊢
  generalize larger cmpFn h (2 * i + 1) m = j at hrt hge' hger ⊢
  have hchs : ∀ k, k ≤ h.curLen → k / 2 = i → 0 ≤ cmpFn (h.get j) (h.get k) := by
    intro k hk hki
    rcases (by omega : k = 2 * i ∨ k = 2 * i + 1) with rfl | rfl
    · exact (hf.sign _ _).mp (hf.trans _ _ _ (hgel hk) hge')
    · exact (hf.sign _ _).mp (hger hk)
  by_cases hji : j = i
  · rw [if_pos hji]
    exact .inr ⟨rfl, hji ▸ hchs⟩
  · rw [if_neg hji]
    exact .inl ⟨j, rfl, by omega, by omega, (hf.sign _ _).mp (hf.trans _ _ _ hge hge'), hchs⟩

end

structure Sinking (cmpFn : E → E → ℤ) (h : AstHeap E) (s : AstHeap E × ℕ) : Prop where
  kept : Kept h s.1
  pos : 1 ≤ s.2
  loose : Loose cmpFn s.1.curLen s.2 s.1.get
  parent : 2 ≤ s.2 → 0 ≤ cmpFn (s.1.get (s.2 / 2)) (s.1.get s.2)

lemma Sinking.round (hf : Comparator cmpFn) (hoff : 0 ≤ h.indexOffset) (hs : Sinking cmpFn h s) :
    (∃ s', heapifyRound cmpFn s = some (.inl s') ∧ Sinking cmpFn h s' ∧ h.curLen - s'.2 < h.curLen - s.2) ∨
      ∃ h', heapifyRound cmpFn s = some (.inr h') ∧ Kept h h' ∧ HeapOrdered cmpFn h'.curLen h'.get := by
  obtain ⟨h', i'⟩ := s
  have hpos : 1 ≤ i' := hs.pos
  have hlen : h'.curLen = h.curLen := hs.kept.curLen
  rcases heapifyRound_cases hf h' i' with ⟨j, hrnd, hj, hch, hgt, hmax⟩ | ⟨hrnd, htops⟩
  · have hswap := swap_kept (h := h') (j := j) (hs.kept.offset ▸ hoff) hs.kept.placed hpos (by omega) (by omega)
      hj (by omega)
    have hexc := swap_exchanged (j := j) h' hpos (by omega) (by omega)
    obtain ⟨hlse, hpar⟩ := hs.loose.down hj hch hgt hmax hexc
    refine .inl ⟨(h'.swap i' j, j), hrnd, ⟨hs.kept.trans hswap, ?_, hlse, fun _ => hpar⟩, ?_⟩
    · omega
    · omega
  · exact .inr ⟨h', hrnd, hs.kept, hs.loose.ordered hs.parent htops⟩

lemma maxHeapify_spec (hf : Comparator cmpFn) (hoff : 0 ≤ h.indexOffset) (hpld : Placed h) (hi : 1 ≤ i)
    (hlse : Loose cmpFn h.curLen i h.get) (hpar : 2 ≤ i → 0 ≤ cmpFn (h.get (i / 2)) (h.get i)) :
    ∃ h', maxHeapify cmpFn h i = some h' ∧ Kept h h' ∧ HeapOrdered cmpFn h'.curLen h'.get := by
  have hsta : Sinking cmpFn h (h, i) := ⟨⟨rfl, rfl, rfl, hpld, .refl _⟩, hi, hlse, hpar⟩
  obtain ⟨h', hpost, hrun⟩ := iterate_total (fun s hs => Sinking.round (s := s) hf hoff hs) hsta
  exact ⟨h', hrun _ (lt_succ_of_le (sub_le _ _)), hpost⟩

end Sifting

/-! ## Operations -/

section Invariant

variable [DecidableEq E] {cmpFn : E → E → ℤ} {h : AstHeap E} {inside : List E}

structure Inv (cmpFn : E → E → ℤ) (h : AstHeap E) (inside : List E) : Prop where
  offset : 0 ≤ h.indexOffset
  room : h.curLen ≤ h.availLen
  order : HeapOrdered cmpFn h.curLen h.get
  placed : Placed h
  members : h.elements.Perm inside

omit [DecidableEq E] in
lemma create_inv {indexOffset : ℤ} (hoff : 0 ≤ indexOffset) (initHeight : ℕ) (heap : ℕ → E) (index : E → ℤ) :
    Inv cmpFn (create initHeight indexOffset heap index) [] where
  offset := hoff
  room := zero_le _
  order := fun _ htwo hk => absurd (le_trans htwo hk) (not_succ_le_zero 1)
  placed := fun _ hpos hk => absurd (le_trans hpos hk) (not_succ_le_zero 0)
  members := .refl _

omit [DecidableEq E] in
lemma Kept.inv {h' h'' : AstHeap E} (hkept : Kept h' h'') (hoff : 0 ≤ h'.indexOffset)
    (hroom : h'.curLen ≤ h'.availLen) (hord : HeapOrdered cmpFn h''.curLen h''.get)
    (hmbs : h'.elements.Perm inside) : Inv cmpFn h'' inside where
  offset := hkept.offset ▸ hoff
  room := by
    rwa [hkept.curLen, hkept.availLen]
  order := hord
  placed := hkept.placed
  members := hkept.members.trans hmbs

def AstHeap.append (h : AstHeap E) (elm : E) : AstHeap E :=
  AstHeap.set { h with curLen := h.curLen + 1 } (h.curLen + 1) elm

variable {elm : E} {k index : ℕ}

lemma append_get (hpos : 1 ≤ k) (hk : k ≤ h.curLen) : (h.append elm).get k = h.get k :=
  get_set_ne _ _ (by omega) hpos (by omega)

lemma append_elements (h : AstHeap E) (elm : E) : (h.append elm).elements = h.elements ++ [elm] := by
  change (range (h.curLen + 1)).map (update h.heap h.curLen elm) = _
  rw [range_succ, map_append, map_singleton, update_self]
  congr 1
  refine map_congr_left fun k hk => update_of_ne ?_ _ _
  exact Nat.ne_of_lt (mem_range.mp hk)

lemma Inv.append_placed (h' : Inv cmpFn h inside) (hnew : elm ∉ inside) : Placed (h.append elm) := by
  intro k hpos hk
  change k ≤ h.curLen + 1 at hk
  have hidx : (h.append elm).index = update h.index elm ((h.curLen + 1 : ℕ) : ℤ) := if_pos h'.offset
  rw [hidx]
  rcases lt_or_eq_of_le hk with hlt | rfl
  · have hmem : h.get k ∈ h.elements := mem_elements.mpr ⟨k, hpos, by omega, rfl⟩
    rw [append_get hpos (by omega), update_of_ne]
    · exact h'.placed k hpos (by omega)
    · rintro rfl
      exact hnew (h'.members.mem_iff.mp hmem)
  · have hget : (h.append elm).get (h.curLen + 1) = elm := get_set_self _ _ _
    rw [hget, update_self]

lemma Inv.append (hf : Comparator cmpFn) (h' : Inv cmpFn h inside) (hroom : h.curLen < h.availLen)
    (hnew : elm ∉ inside) :
    ∃ h'' i, bubbleUp cmpFn (h.append elm) (h.curLen + 1) = some (h'', i) ∧ Inv cmpFn h'' (elm :: inside) := by
  have hlse : Loose cmpFn (h.append elm).curLen (h.curLen + 1) (h.append elm).get := by
    refine ⟨fun k htwo hk hne _ => ?_, fun _ k hk hch => ?_⟩
    · change k ≤ h.curLen + 1 at hk
      rw [append_get (by omega) (by omega), append_get (by omega) (by omega)]
      exact h'.order k htwo (by omega)
    · change k ≤ h.curLen + 1 at hk
      omega
  obtain ⟨h'', i, hbub, hris, hpar⟩ := bubbleUp_spec hf (h := h.append elm) h'.offset (h'.append_placed hnew)
    (le_add_left 1 h.curLen) le_rfl hlse
  have hleaf : Tops cmpFn (h.append elm) (h.curLen + 1) := by
    intro k hk hch
    change k ≤ h.curLen + 1 at hk
    omega
  refine ⟨h'', i, hbub, hris.kept.inv h'.offset hroom (hris.loose.ordered hpar (hris.tops hleaf)) ?_⟩
  rw [append_elements]
  exact (perm_append_singleton elm _).trans (h'.members.cons elm)

lemma push_inv (hf : Comparator cmpFn) (h' : Inv cmpFn h inside) (hnew : elm ∉ inside) (granted : Bool) :
    push cmpFn elm granted h = some (-1, h) ∨
      ∃ h'', push cmpFn elm granted h = some (0, h'') ∧ Inv cmpFn h'' (elm :: inside) := by
  unfold push
  by_cases hfull : h.curLen = h.availLen
  · rw [if_pos hfull]
    cases granted with
    | false => exact .inl rfl
    | true =>
      have hgrw : Inv cmpFn { h with availLen := h.availLen * 2 + 1 } inside :=
        ⟨h'.offset, le_trans h'.room (by dsimp only; omega), h'.order, h'.placed, h'.members⟩
      obtain ⟨h'', i, hbub, hinv⟩ := hgrw.append hf (by dsimp only; omega) hnew
      refine .inr ⟨h'', ?_, hinv⟩
      change (bubbleUp cmpFn (AstHeap.append { h with availLen := h.availLen * 2 + 1 } elm) (h.curLen + 1) >>= _) = _
      rw [hbub]
      rfl
  · rw [if_neg hfull]
    obtain ⟨h'', i, hbub, hinv⟩ := h'.append hf (lt_of_le_of_ne h'.room hfull) hnew
    refine .inr ⟨h'', ?_, hinv⟩
    change (bubbleUp cmpFn (h.append elm) (h.curLen + 1) >>= _) = _
    rw [hbub]
    rfl

def AstHeap.replace (h : AstHeap E) (index : ℕ) : AstHeap E :=
  AstHeap.set { h with curLen := h.curLen - 1 } index (h.get h.curLen)

lemma replace_get (hpos : 1 ≤ index) (hk : 1 ≤ k) (hne : k ≠ index) :
    (h.replace index).get k = h.get k := get_set_ne _ _ hpos hk hne

lemma replace_elements (hpos : 1 ≤ index) (hle : index ≤ h.curLen) :
    (h.get index :: (h.replace index).elements).Perm h.elements := by
  obtain ⟨n, hn⟩ : ∃ n, h.curLen = n + 1 := ⟨h.curLen - 1, by omega⟩
  have hperm := map_range_take_out (n := n) (i := index - 1) h.heap (by omega)
  unfold AstHeap.elements
  rw [hn]
  change (h.get index :: (range (h.curLen - 1)).map (update h.heap (index - 1) (h.heap (h.curLen - 1)))).Perm _
  rwa [hn]

lemma replace_placed (hoff : 0 ≤ h.indexOffset) (hpld : Placed h) (hpos : 1 ≤ index)
    (hlt : index < h.curLen) : Placed (h.replace index) := by
  intro k hk hkn
  change k ≤ h.curLen - 1 at hkn
  have hidx : (h.replace index).index = update h.index (h.get h.curLen) index := if_pos hoff
  rw [hidx]
  by_cases hki : k = index
  · have hget : (h.replace index).get index = h.get h.curLen := get_set_self _ _ _
    rw [hki, hget, update_self]
  rw [replace_get hpos hk hki, update_of_ne]
  · exact hpld k hk (by omega)
  · intro heq
    have hslot := (hpld k hk (by omega)).symm.trans ((congrArg h.index heq).trans (hpld h.curLen (by omega) le_rfl))
    omega

section

variable (hf : Comparator cmpFn) (h' : Inv cmpFn h inside) (hpos : 1 ≤ index) (hle : index ≤ h.curLen)
include hf h' hpos hle

lemma Inv.replace : ∃ h₁ i h₂, bubbleUp cmpFn (h.replace index) index = some (h₁, i) ∧ maxHeapify cmpFn h₁ i = some h₂ ∧
      Inv cmpFn h₂ (h.replace index).elements := by
  have hroom : h.curLen - 1 ≤ h.availLen := le_trans (sub_le _ _) h'.room
  rcases lt_or_eq_of_le hle with hlt | rfl
  · have hpld := replace_placed h'.offset h'.placed hpos hlt
    have hlse : Loose cmpFn (h.replace index).curLen index (h.replace index).get := by
      refine HeapOrdered.loose hf (a := h.get) (fun k htwo hk => h'.order k htwo ?_) fun k hk _ hne =>
        replace_get hpos hk hne
      change k ≤ h.curLen - 1 at hk
      omega
    obtain ⟨h₁, i, hbub, hris, hpar⟩ := bubbleUp_spec hf (h := h.replace index) h'.offset hpld hpos
      (show index ≤ h.curLen - 1 by omega) hlse
    obtain ⟨h₂, hheapify, hkept, hord⟩ := maxHeapify_spec hf (hris.kept.offset ▸ h'.offset) hris.kept.placed
      hris.pos hris.loose hpar
    exact ⟨h₁, i, h₂, hbub, hheapify, (hris.kept.trans hkept).inv h'.offset hroom hord (.refl _)⟩
  have hsame : h.replace h.curLen = { h with curLen := h.curLen - 1 } :=
    set_get (h := { h with curLen := h.curLen - 1 }) h'.offset (h'.placed _ hpos le_rfl)
  rw [hsame]
  refine ⟨{ h with curLen := h.curLen - 1 }, h.curLen, { h with curLen := h.curLen - 1 }, ?_, ?_, ?_⟩
  · have hup : ¬ (1 < h.curLen ∧ cmpFn (h.get (h.curLen / 2)) (h.get h.curLen) < 0) := by
      rw [not_and, Int.not_lt]
      exact fun htwo => h'.order h.curLen htwo le_rfl
    have hrnd : bubbleRound cmpFn ({ h with curLen := h.curLen - 1 }, h.curLen) =
        some (.inr ({ h with curLen := h.curLen - 1 }, h.curLen)) := if_neg hup
    exact iterate_done hrnd _
  · have hleft : larger cmpFn { h with curLen := h.curLen - 1 } (2 * h.curLen) h.curLen = h.curLen :=
      if_neg fun hc => by have hch := hc.1; dsimp only at hch; omega
    have hrt : larger cmpFn { h with curLen := h.curLen - 1 } (2 * h.curLen + 1) h.curLen = h.curLen :=
      if_neg fun hc => by have hch := hc.1; dsimp only at hch; omega
    refine iterate_done ?_ _
    unfold heapifyRound
    dsimp only
    rw [hleft, hrt, if_pos rfl]
  · exact ⟨h'.offset, hroom, fun k htwo hk => h'.order k htwo (le_trans hk (sub_le _ _)),
      fun k hk hkn => h'.placed k hk (le_trans hkn (sub_le _ _)), .refl _⟩

lemma removeAt_inv : ∃ h'', removeAt cmpFn index h = some (some (h.get index), h'') ∧
      Inv cmpFn h'' (inside.erase (h.get index)) := by
  obtain ⟨h₁, i, h₂, hbub, hheapify, hinv⟩ := h'.replace hf hpos hle
  refine ⟨h₂, ?_, { hinv with members := hinv.members.trans ?_ }⟩
  · unfold removeAt
    rw [if_neg (by omega)]
    change (bubbleUp cmpFn (h.replace index) index >>= _) = _
    simp only [hbub, hheapify, Option.bind_eq_bind, Option.bind_some]
    rfl
  · have hperm := ((replace_elements hpos hle).trans h'.members).erase (h.get index)
    rwa [erase_cons_head] at hperm

end

end Invariant

/-! ## Sequences of operations -/

section Runs

variable [DecidableEq E] (cmpFn : E → E → ℤ)

/-- An operation; a push comes with the answer of the allocator, should the array be full. -/
inductive Op (E : Type)
  | push (elm : E) (granted : Bool)
  | pop
  | remove (elm : E)

structure World (E : Type) where
  heap : AstHeap E
  inside : List E

/-- The element that an operation returns, and the world after it. An element that could not be
pushed is not inside.
-/
def step (w : World E) : Op E → Option (Option E × World E)
  | .push elm granted => do
    let (res, h) ← push cmpFn elm granted w.heap
    return (none, ⟨h, if res = 0 then elm :: w.inside else w.inside⟩)
  | .pop => do
    let (ret, h) ← pop cmpFn w.heap
    return (ret, ⟨h, ret.elim w.inside w.inside.erase⟩)
  | .remove elm => do
    let (ret, h) ← remove cmpFn elm w.heap
    return (ret, ⟨h, w.inside.erase elm⟩)

def Possible (w : World E) : Op E → Prop
  | .push elm _ => elm ∉ w.inside
  | .pop => True
  | .remove elm => elm ∈ w.inside

/-- What is to be returned: nothing, an element that no other one exceeds, or the element that is
removed. -/
def Returns (w : World E) (ret : Option E) : Op E → Prop
  | .push _ _ => ret = none
  | .pop => (w.inside = [] ∧ ret = none) ∨ ∃ elm ∈ w.inside, ret = some elm ∧ ∀ e ∈ w.inside, cmpFn e elm ≤ 0
  | .remove elm => ret = some elm

structure World.Sound (w : World E) : Prop where
  verified : verify cmpFn w.heap = 0
  placed : ∀ k, 1 ≤ k → k ≤ w.heap.curLen → w.heap.getIndex (w.heap.get k) = k
  members : w.heap.elements.Perm w.inside

def next (w : World E) (op : Op E) : Option (World E) := (step cmpFn w op).map Prod.snd

instance (w : World E) : (op : Op E) → Decidable (Possible w op)
  | .push elm _ => inferInstanceAs (Decidable (elm ∉ w.inside))
  | .pop => inferInstanceAs (Decidable True)
  | .remove elm => inferInstanceAs (Decidable (elm ∈ w.inside))

variable {cmpFn} {w : World E} {inside : List E} {h : AstHeap E}

omit [DecidableEq E] in
lemma Inv.verified (h' : Inv cmpFn h inside) : verify cmpFn h = 0 := by
  refine if_pos fun n hn => ⟨fun hl => ?_, fun hr => ?_⟩
  · have hch := h'.order (2 * (n + 1)) (by omega) hl
    rw [Nat.mul_div_cancel_left _ (by decide)] at hch
    exact Int.not_lt.mpr hch
  · have hch := h'.order (2 * (n + 1) + 1) (by omega) hr
    rw [show (2 * (n + 1) + 1) / 2 = n + 1 by omega] at hch
    exact Int.not_lt.mpr hch

omit [DecidableEq E] in
lemma Inv.getIndex (h' : Inv cmpFn h inside) {k : ℕ} (hk : 1 ≤ k) (hkn : k ≤ h.curLen) : h.getIndex (h.get k) = k :=
  (if_neg (Int.not_lt.mpr h'.offset)).trans (h'.placed k hk hkn)

omit [DecidableEq E] in
lemma Inv.sound (h' : Inv cmpFn w.heap w.inside) : w.Sound cmpFn :=
  ⟨h'.verified, fun _ hk hkn => h'.getIndex hk hkn, h'.members⟩

lemma step_inv (hf : Comparator cmpFn) (h : Inv cmpFn w.heap w.inside) {op : Op E} (hop : Possible w op) :
    ∃ ret w', step cmpFn w op = some (ret, w') ∧ Inv cmpFn w'.heap w'.inside ∧ Returns cmpFn w ret op := by
  cases op with
  | push elm granted =>
    rcases push_inv hf h hop granted with hfull | ⟨h', hpush, hinv⟩
    · exact ⟨none, w, by simp only [step, hfull]; rfl, h, rfl⟩
    · exact ⟨none, ⟨h', elm :: w.inside⟩, by simp only [step, hpush]; rfl, hinv, rfl⟩
  | pop =>
    by_cases hemp : w.heap.curLen = 0
    · have hpop : pop cmpFn w.heap = some (none, w.heap) := if_pos (.inr (by omega))
      have hnil : w.heap.elements = [] := by
        unfold AstHeap.elements
        rw [hemp]
        rfl
      exact ⟨none, w, by simp only [step, hpop]; rfl, h, .inl ⟨(hnil ▸ h.members).symm.eq_nil, rfl⟩⟩
    obtain ⟨h', hpop, hinv⟩ := removeAt_inv hf h (le_refl 1) (by omega)
    have hpop : pop cmpFn w.heap = some (some (w.heap.get 1), h') := hpop
    refine ⟨some (w.heap.get 1), ⟨h', w.inside.erase (w.heap.get 1)⟩, by simp only [step, hpop]; rfl, hinv,
      .inr ⟨w.heap.get 1, ?_, rfl, fun e he => ?_⟩⟩
    · exact h.members.mem_iff.mp (mem_elements.mpr ⟨1, le_refl 1, by omega, rfl⟩)
    · obtain ⟨k, hk, hkn, rfl⟩ := mem_elements.mp (h.members.mem_iff.mpr he)
      exact h.order.root_max hf hk hkn
  | remove elm =>
    obtain ⟨k, hk, hkn, rfl⟩ := mem_elements.mp (h.members.mem_iff.mpr hop)
    obtain ⟨h', hremoved, hinv⟩ := removeAt_inv hf h hk hkn
    have hrem : remove cmpFn (w.heap.get k) w.heap = some (some (w.heap.get k), h') := by
      unfold remove
      rwa [h.getIndex hk hkn]
    exact ⟨_, ⟨h', w.inside.erase (w.heap.get k)⟩, by simp only [step, hrem]; rfl, hinv, rfl⟩

/-- **The heap is sound** after each operation of any sequence in which no element is pushed that is
in it, and each operation returns what it should. Induction on the operations. -/
theorem heapRun_sound (hf : Comparator cmpFn) (initHeight : ℕ) {indexOffset : ℤ} (hoffset : 0 ≤ indexOffset)
    (heap : ℕ → E) (index : E → ℤ) (ops : List (Op E))
    (hops : Each (next cmpFn) Possible ⟨create initHeight indexOffset heap index, []⟩ ops) :
    Each (next cmpFn) (fun w op => ∃ ret w', step cmpFn w op = some (ret, w') ∧ w'.Sound cmpFn ∧ Returns cmpFn w ret op)
      ⟨create initHeight indexOffset heap index, []⟩ ops := by
  refine Each.imp_of_inv (I := fun w => Inv cmpFn w.heap w.inside) ?_ (create_inv hoffset initHeight heap index) hops
  intro w op h hop
  obtain ⟨ret, w', hstep, hinv, hrets⟩ := step_inv hf h hop
  refine ⟨⟨ret, w', hstep, hinv.sound, hrets⟩, fun w'' hnext => ?_⟩
  rw [next, hstep] at hnext
  cases hnext
  exact hinv

end Runs

/-! ### Numbers in a heap -/

abbrev byNumber (a b : ℤ) : ℤ := a - b

lemma comparator_byNumber : Comparator byNumber := by
  constructor <;> unfold byNumber <;> omega

/-- Three numbers, one of which is taken out from the middle and comes back. -/
theorem heapRun_sound_numbers :
    Each (next byNumber) (fun w op => ∃ ret w', step byNumber w op = some (ret, w') ∧
        w'.Sound byNumber ∧ Returns byNumber w ret op)
      ⟨create 1 0 (fun _ => 0) (fun _ => 0), []⟩
      [.push 5 true, .push 7 true, .push 6 true, .remove 5, .pop, .push 5 true] := by
  exact heapRun_sound comparator_byNumber 1 (Int.le_refl 0) _ _ _ (by decide)

/-- A number that is pushed twice is in two slots, and its index field is that of one of them. -/
theorem heapRun_not_sound :
    ¬ Each (next byNumber) (fun w op => ∃ ret w', step byNumber w op = some (ret, w') ∧
        w'.Sound byNumber ∧ Returns byNumber w ret op)
      ⟨create 1 0 (fun _ => 0) (fun _ => 0), []⟩ [.push 5 true, .push 5 true] := by
  rintro ⟨⟨ret, w, hfst, -⟩, hrest⟩
  obtain ⟨⟨ret', w', hsec, hsnd, -⟩, -⟩ := hrest w (by rw [next, hfst]; rfl)
  have hidx : ((step byNumber ⟨create 1 0 (fun _ => 0) (fun _ => 0), []⟩ (.push 5 true)).bind
      fun r => step byNumber r.2 (.push 5 true)).map
        (fun r => (r.2.heap.curLen, r.2.heap.getIndex (r.2.heap.get 1))) = some (2, 2) := by
    decide
  rw [hfst, Option.bind_some, hsec, Option.map_some, Option.some_inj, Prod.mk.injEq] at hidx
  have hpld := hsnd.placed 1 (le_refl 1) (by rw [hidx.1]; decide)
  rw [hidx.2] at hpld
  cases hpld

end Telephony.Heap
