import Mathlib.Data.List.Perm.Subperm
import Telephony.Jitter.Adaptive
import Telephony.Lib.Ring

/-!
# The adaptive jitter buffer: its queue

What the linked nodes of `main/jitterbuf.c` stand for: the list of frames in order. A store that
represents a queue sorted by timestamp never follows a null pointer. The nodes of the queue and of
the free list stay apart.
-/

namespace Telephony.Jitter.Adaptive

open Lib List Function

section Store

variable {δ : Type} {s s' : JbStore δ} {ring free : List ℕ} {q : List (JbFrame δ)}

/-! ## Pointers -/

def JbStore.nx (s : JbStore δ) (a : ℕ) : Option ℕ := (s.heap a).next

def JbStore.pv (s : JbStore δ) (a : ℕ) : Option ℕ := (s.heap a).prev

def JbStore.at (s : JbStore δ) (a : ℕ) : JbFrame δ := (s.heap a).frame

section

variable (a : ℕ) (v : Option ℕ)

@[simp] lemma nx_setNext : (s.setNext a v).nx = update s.nx a v := by
  funext b
  by_cases h : b = a <;> simp [JbStore.nx, JbStore.setNext, h]

@[simp] lemma pv_setNext : (s.setNext a v).pv = s.pv := by
  funext b
  by_cases h : b = a <;> simp [JbStore.pv, JbStore.setNext, h]

@[simp] lemma at_setNext : (s.setNext a v).at = s.at := by
  funext b
  by_cases h : b = a <;> simp [JbStore.at, JbStore.setNext, h]

@[simp] lemma nx_setPrev : (s.setPrev a v).nx = s.nx := by
  funext b
  by_cases h : b = a <;> simp [JbStore.nx, JbStore.setPrev, h]

@[simp] lemma pv_setPrev : (s.setPrev a v).pv = update s.pv a v := by
  funext b
  by_cases h : b = a <;> simp [JbStore.pv, JbStore.setPrev, h]

@[simp] lemma at_setPrev : (s.setPrev a v).at = s.at := by
  funext b
  by_cases h : b = a <;> simp [JbStore.at, JbStore.setPrev, h]

end

section

variable (a : ℕ) (f : JbFrame δ)

@[simp] lemma nx_setFrame : (s.setFrame a f).nx = s.nx := by
  funext b
  by_cases h : b = a <;> simp [JbStore.nx, JbStore.setFrame, h]

@[simp] lemma pv_setFrame : (s.setFrame a f).pv = s.pv := by
  funext b
  by_cases h : b = a <;> simp [JbStore.pv, JbStore.setFrame, h]

@[simp] lemma at_setFrame : (s.setFrame a f).at = update s.at a f := by
  funext b
  by_cases h : b = a <;> simp [JbStore.at, JbStore.setFrame, h]

end

variable {x p u a : ℕ} {ts : ℤ} {l₁ l₂ l ring' : List ℕ} {all : Bool} {f : JbFrame δ}

lemma linkBefore_eq (h : s.pv p = some u) :
    s.linkBefore x p =
      some ((((s.setNext x (some p)).setPrev x (some u)).setPrev p (some x)).setNext u (some x)) := by
  have hprev : (s.heap p).prev = some u := h
  simp only [JbStore.linkBefore, hprev]
  rfl

lemma walkStep_eq (h : s.pv p = some u) :
    s.walkStep ts p = some (if ts < (s.at u).ts ∧ some u ≠ s.frames then .inl u else .inr p) := by
  have hprev : (s.heap p).prev = some u := h
  simp only [JbStore.walkStep, hprev]
  rfl

/-! ## Stores that represent a queue -/

/-- The nodes of the queue and of the free list, in order.
Source: `queue_put` ("frames are a circular") -/
structure StoreRep (s : JbStore δ) (ring free : List ℕ) : Prop where
  frames_eq : s.frames = ring.head?
  linked : LinkedRing s.nx s.pv ring
  free_chain : NullChain s.nx s.free free
  nodup : (ring ++ free).Nodup
  lt_fresh : ∀ a ∈ ring ++ free, a < s.fresh

/-- The circular list of the store holds the frames `q`, from the head on.
Source: `struct jitterbuf` (`frames`) -/
def JbStore.Queue (s : JbStore δ) (q : List (JbFrame δ)) : Prop :=
  ∃ ring free, StoreRep s ring free ∧ q = ring.map s.at

structure Spare (s : JbStore δ) (ring free : List ℕ) (x : ℕ) : Prop where
  rep : StoreRep s ring free
  not_mem : x ∉ ring ++ free
  lt_fresh : x < s.fresh

lemma StoreRep.length_le (h : StoreRep s ring free) : ring.length ≤ s.fresh := by
  have hsub : ring ⊆ List.range s.fresh := by
    intro a ha
    exact mem_range.mpr (h.lt_fresh a (mem_append_left _ ha))
  simpa using (subperm_of_subset h.linked.nodup hsub).length_le

lemma StoreRep.allocFrame (h : StoreRep s ring free) :
    ∃ free', Spare s.allocFrame.2 ring free' s.allocFrame.1 ∧ s.allocFrame.2.heap = s.heap := by
  have hchn := h.free_chain
  unfold JbStore.allocFrame
  cases hfree : s.free with
  | none =>
    rw [hfree] at hchn
    refine ⟨free, ⟨⟨h.frames_eq, h.linked, hchn, h.nodup, ?_⟩, ?_, ?_⟩, rfl⟩
    · intro a ha
      exact Nat.lt_succ_of_lt (h.lt_fresh a ha)
    · intro hmem
      exact Nat.lt_irrefl _ (h.lt_fresh _ hmem)
    · exact Nat.lt_succ_self _
  | some frame =>
    rw [hfree] at hchn
    cases free with
    | nil => exact absurd hchn (by simp [NullChain])
    | cons b free =>
      obtain ⟨hb, hrest⟩ := hchn
      obtain rfl : frame = b := Option.some.inj hb
      have hperm : (ring ++ frame :: free).Nodup := h.nodup
      rw [nodup_middle, nodup_cons] at hperm
      have hsub : ∀ a ∈ ring ++ free, a ∈ ring ++ frame :: free := by
        intro a ha
        rw [mem_append] at ha ⊢
        exact ha.imp_right fun hmem => mem_cons_of_mem _ hmem
      refine ⟨free, ⟨⟨h.frames_eq, h.linked, hrest, hperm.2, fun a ha => h.lt_fresh a (hsub a ha)⟩,
        hperm.1, h.lt_fresh frame (by simp)⟩, rfl⟩

lemma Spare.setFrame (h : Spare s ring free x) (f : JbFrame δ) :
    Spare (s.setFrame x f) ring free x ∧ ring.map (s.setFrame x f).at = ring.map s.at := by
  refine ⟨{ h with rep := { h.rep with linked := ?_, free_chain := ?_ } }, ?_⟩
  · rw [nx_setFrame, pv_setFrame]
    exact h.rep.linked
  · rw [nx_setFrame]
    exact h.rep.free_chain
  · refine map_congr_left fun a ha => ?_
    have hne : a ≠ x := by
      rintro rfl
      exact h.not_mem (mem_append_left _ ha)
    rw [at_setFrame, update_of_ne hne]

lemma Spare.linkBefore (h : Spare s (l₁ ++ p :: l₂) free x) :
    ∃ s', s.linkBefore x p = some s' ∧ s'.at = s.at ∧ s'.frames = s.frames ∧ s'.free = s.free ∧
      s'.fresh = s.fresh ∧ LinkedRing s'.nx s'.pv (l₁ ++ x :: p :: l₂) ∧ NullChain s'.nx s'.free free := by
  have hx : x ∉ l₁ ++ p :: l₂ := fun hmem => h.not_mem (mem_append_left _ hmem)
  have hrot := h.rep.linked.rotate
  obtain ⟨u, hu⟩ : ∃ u, ((p :: l₂) ++ l₁).getLast? = some u := ⟨_, getLast?_eq_some_getLast (by simp)⟩
  have hpu : s.pv p = some u := hrot.prev_head rfl hu
  have hul : u ∈ l₁ ++ p :: l₂ := perm_append_comm.mem_iff.mp (mem_of_getLast? hu)
  refine ⟨_, linkBefore_eq hpu, ?_, rfl, rfl, rfl, ?_, ?_⟩
  · simp
  · simp only [nx_setNext, nx_setPrev, pv_setNext, pv_setPrev]
    exact h.rep.linked.insert hpu hx
  · refine h.rep.free_chain.congr fun a ha => ?_
    have hdisj := (nodup_append.mp h.rep.nodup).2.2
    have hau : a ≠ u := fun he => hdisj u hul a ha he.symm
    have hax : a ≠ x := fun he => h.not_mem (mem_append_right _ (he ▸ ha))
    simp [hau, hax]

/-! ## The walk back from the head -/

/-- **The walk back** from the node behind `l₁` stops behind the last node that is not later.
Induction on the nodes before it, from the last one on. -/
lemma walkBack_from {fuel : ℕ} (hring : LinkedRing s.nx s.pv (a :: l₁ ++ l₂)) (hfrs : s.frames = some a)
    (hle : (s.at a).ts ≤ ts) (hlat : ∀ b ∈ l₂, ts < (s.at b).ts) (hfuel : l₁.length < fuel) :
    ∃ k₁ k₂, l₁ ++ l₂ = k₁ ++ k₂ ∧ iterate (s.walkStep ts) fuel (l₂.headD a) = some (k₂.headD a) ∧
      (∀ b ∈ k₂, ts < (s.at b).ts) ∧ ∀ u ∈ (a :: k₁).getLast?, (s.at u).ts ≤ ts := by
  induction l₁ using List.reverseRecOn generalizing l₂ fuel with
  | nil =>
    obtain ⟨fuel, rfl⟩ : ∃ k, fuel = k + 1 := ⟨fuel - 1, by omega⟩
    have hprev : s.pv (l₂.headD a) = some a :=
      hring.rotate.prev_head (by cases l₂ <;> rfl) (by simp)
    have hstep : s.walkStep ts (l₂.headD a) = some (.inr (l₂.headD a)) := by
      rw [walkStep_eq hprev, if_neg (fun h => h.2 hfrs.symm)]
    exact ⟨[], l₂, rfl, iterate_done hstep fuel, hlat, by simpa using hle⟩
  | append_singleton l₁ u ih =>
    obtain _ | fuel := fuel
    · omega
    have hprev : s.pv (l₂.headD a) = some u :=
      hring.rotate.prev_head (by cases l₂ <;> rfl) (by simp [getLast?_cons])
    have hua : u ≠ a := by
      have hnd := hring.nodup
      rintro rfl
      simp at hnd
    by_cases hlt : ts < (s.at u).ts
    · have hstep : s.walkStep ts (l₂.headD a) = some (.inl u) := by
        rw [walkStep_eq hprev, if_pos ⟨hlt, by simpa [hfrs] using hua⟩]
      obtain ⟨k₁, k₂, hspl, hiter, hk₂, hk₁⟩ := @ih (u :: l₂) fuel
        (by simpa using hring) (forall_mem_cons.mpr ⟨hlt, hlat⟩)
        (by simp at hfuel; omega)
      exact ⟨k₁, k₂, by simpa using hspl, (iterate_next hstep fuel).trans hiter, hk₂, hk₁⟩
    have hstep : s.walkStep ts (l₂.headD a) = some (.inr (l₂.headD a)) := by
      rw [walkStep_eq hprev, if_neg (fun h => hlt h.1)]
    refine ⟨l₁ ++ [u], l₂, rfl, iterate_done hstep fuel, hlat, ?_⟩
    intro v hv
    rw [getLast?_cons] at hv
    obtain rfl : u = v := by simpa using hv
    exact not_lt.mp hlt

/-! ## Putting and getting -/

def SortedByTs (q : List (JbFrame δ)) : Prop := q.Pairwise fun f g => f.ts ≤ g.ts

lemma SortedByTs.le_of_getLast (h : SortedByTs q) (hlast : ∀ f ∈ q.getLast?, f.ts ≤ ts) : ∀ f ∈ q, f.ts ≤ ts := by
  rcases q.eq_nil_or_concat with rfl | ⟨q', g, rfl⟩
  · simp
  have hg : g.ts ≤ ts := hlast g (by simp)
  rw [concat_eq_append] at h ⊢
  intro f hf
  rcases mem_append.mp hf with hf | hf
  · exact ((pairwise_append.mp h).2.2 f hf g (by simp)).trans hg
  · obtain rfl := mem_singleton.mp hf
    exact hg

def Inserted (f : JbFrame δ) (q q' : List (JbFrame δ)) : Prop :=
  ∃ q₁ q₂, q = q₁ ++ q₂ ∧ q' = q₁ ++ f :: q₂ ∧ (∀ g ∈ q₁, g.ts ≤ f.ts) ∧ ∀ g ∈ q₂, f.ts < g.ts

lemma Spare.inserted (h : Spare s ring free x) (hperm : ring'.Perm (x :: ring))
    (hfrs : s'.frames = ring'.head?) (hfr : s'.fresh = s.fresh) (hlnk : LinkedRing s'.nx s'.pv ring')
    (hfree : NullChain s'.nx s'.free free) :
    s'.Queue (ring'.map s'.at) := by
  refine ⟨ring', free, ⟨hfrs, hlnk, hfree, ?_, ?_⟩, rfl⟩
  · rw [(hperm.append_right free).nodup_iff, cons_append, nodup_cons]
    exact ⟨h.not_mem, h.rep.nodup⟩
  · intro b hb
    rw [(hperm.append_right free).mem_iff, cons_append, mem_cons] at hb
    rw [hfr]
    rcases hb with rfl | hb
    · exact h.lt_fresh
    · exact h.rep.lt_fresh b hb

lemma Spare.linkFrame_head (h : Spare s (a :: l) free x) (hlt : (s.at x).ts < (s.at a).ts) :
    ∃ ooo s', s.linkFrame x (s.at x).ts = some (true, ooo, s') ∧ s'.Queue ((x :: a :: l).map s.at) := by
  obtain ⟨s', hlink, hat, -, -, hfr, hring, hfree⟩ := @Spare.linkBefore _ _ _ x a [] l h
  have hlt' : (s.at x).ts < (s.heap a).frame.ts := hlt
  refine ⟨true, { s' with frames := some x }, ?_, ?_⟩
  · simp only [JbStore.linkFrame, h.rep.frames_eq, head?_cons, if_pos hlt', hlink]
    rfl
  · rw [← hat]
    exact @Spare.inserted _ _ { s' with frames := some x } _ _ _ _ h (.refl _) rfl hfr hring hfree

lemma Spare.linkFrame_inner (h : Spare s (a :: l) free x) (hle : (s.at a).ts ≤ (s.at x).ts) :
    ∃ ooo s' k₁ k₂, s.linkFrame x (s.at x).ts = some (false, ooo, s') ∧ l = k₁ ++ k₂ ∧
      (∀ b ∈ k₂, (s.at x).ts < (s.at b).ts) ∧ (∀ u ∈ (a :: k₁).getLast?, (s.at u).ts ≤ (s.at x).ts) ∧
      s'.Queue ((a :: k₁ ++ x :: k₂).map s.at) := by
  have hfrs : s.frames = some a := h.rep.frames_eq
  have hlen : l.length < s.fresh + 1 := by
    have := h.rep.length_le
    rw [length_cons] at this
    omega
  obtain ⟨k₁, k₂, hspl, hwalk, hk₂, hk₁⟩ := @walkBack_from _ _ a _ l [] _
    (by simpa using h.rep.linked) hfrs hle (by simp) hlen
  rw [append_nil] at hspl
  subst hspl
  obtain ⟨u, hu⟩ : ∃ u, (a :: (k₁ ++ k₂)).getLast? = some u := ⟨_, getLast?_eq_some_getLast (by simp)⟩
  have hlast : (s.heap a).prev = some u := h.rep.linked.prev_head rfl hu
  have hlt' : ¬(s.at x).ts < (s.heap a).frame.ts := not_lt.mpr hle
  -- behind the last node the new one goes before the head, but stays the last
  have hlink : ∃ s', s.linkBefore x (k₂.headD a) = some s' ∧ s'.at = s.at ∧ s'.frames = s.frames ∧
      s'.fresh = s.fresh ∧ LinkedRing s'.nx s'.pv (a :: k₁ ++ x :: k₂) ∧ NullChain s'.nx s'.free free := by
    cases k₂ with
    | nil =>
      rw [append_nil] at h
      obtain ⟨s', hlink, hat, hfr, -, hfre, hring, hfree⟩ := @Spare.linkBefore _ _ _ x a [] k₁ h
      exact ⟨s', hlink, hat, hfr, hfre, @LinkedRing.rotate _ _ _ [x] _ hring, hfree⟩
    | cons p k₂ =>
      obtain ⟨s', hlink, hat, hfr, -, hfre, hring, hfree⟩ := @Spare.linkBefore _ _ _ x p (a :: k₁) k₂ h
      exact ⟨s', hlink, hat, hfr, hfre, hring, hfree⟩
  obtain ⟨s', hlink, hat, hfr, hfre, hring, hfree⟩ := hlink
  refine ⟨decide ((s.at x).ts < (s.at u).ts), s', k₁, k₂, ?_, rfl, hk₂, hk₁, ?_⟩
  · simp only [JbStore.linkFrame, hfrs, if_neg hlt', hlast, JbStore.walkBack]
    rw [show iterate (s.walkStep (s.at x).ts) (s.fresh + 1) a = some (k₂.headD a) from hwalk]
    simp only [Option.bind_eq_bind, Option.bind_some, hlink]
    rfl
  · rw [← hat]
    exact h.inserted perm_middle (hfr.trans hfrs) hfre hring hfree

lemma JbStore.Queue.put (h : s.Queue q) (hsrt : SortedByTs q) (f : JbFrame δ) :
    ∃ head ooo s' q', s.put f = some (head, ooo, s') ∧ Inserted f q q' ∧ s'.Queue q' := by
  obtain ⟨ring, free, hrep, rfl⟩ := h
  obtain ⟨free', hspr, hheap⟩ := hrep.allocFrame
  obtain ⟨hspr', hmap⟩ := hspr.setFrame f
  have hat : s.allocFrame.2.at = s.at := by
    funext a
    simp [JbStore.at, hheap]
  rw [hat] at hmap
  unfold JbStore.put
  generalize s.allocFrame.1 = x at *
  generalize hs₁ : s.allocFrame.2.setFrame x f = s₁ at *
  obtain rfl : s₁.at x = f := by rw [← hs₁, at_setFrame, update_self]
  rw [← hmap] at hsrt ⊢
  cases ring with
  | nil =>
    refine ⟨true, false, _, [s₁.at x], by rw [JbStore.linkFrame, hspr'.rep.frames_eq]; rfl,
      ⟨[], [], rfl, rfl, by simp, by simp⟩, ?_⟩
    have hself : Linked ((s₁.setNext x (some x)).setPrev x (some x)).nx
        ((s₁.setNext x (some x)).setPrev x (some x)).pv x x := ⟨by simp, by simp⟩
    have hfree : NullChain ((s₁.setNext x (some x)).setPrev x (some x)).nx s₁.free free' := by
      refine hspr'.rep.free_chain.congr fun b hb => ?_
      have hbx : b ≠ x := fun he => hspr'.not_mem (he ▸ hb)
      simp [hbx]
    rw [show [s₁.at x] = [x].map ((s₁.setNext x (some x)).setPrev x (some x)).at by simp]
    exact hspr'.inserted (.refl _) rfl rfl (linkedRing_singleton hself) hfree
  | cons a l =>
    rcases lt_or_ge (s₁.at x).ts (s₁.at a).ts with hlt | hle
    · obtain ⟨ooo, s', hlink, hque⟩ := hspr'.linkFrame_head hlt
      refine ⟨true, ooo, s', _, hlink, ⟨[], (a :: l).map s₁.at, rfl, rfl, by simp, ?_⟩, hque⟩
      intro g hg
      rw [map_cons, mem_cons] at hg
      rcases hg with rfl | hg
      · exact hlt
      · exact hlt.trans_le ((pairwise_cons.mp hsrt).1 g hg)
    obtain ⟨ooo, s', k₁, k₂, hlink, rfl, hk₂, hk₁, hque⟩ := hspr'.linkFrame_inner hle
    refine ⟨false, ooo, s', _, hlink, ⟨(a :: k₁).map s₁.at, k₂.map s₁.at, by simp, by simp, ?_, ?_⟩, hque⟩
    · have hprefix : SortedByTs ((a :: k₁).map s₁.at) := by
        rw [← cons_append, map_append] at hsrt
        exact (pairwise_append.mp hsrt).1
      refine hprefix.le_of_getLast fun f hf => ?_
      rw [getLast?_map, Option.mem_map] at hf
      obtain ⟨u, hu, rfl⟩ := hf
      exact hk₁ u hu
    · intro g hg
      obtain ⟨b, hb, rfl⟩ := mem_map.mp hg
      exact hk₂ b hb

/-- The store after the node `a` was unlinked from its neighbours and put onto the free list. -/
def JbStore.unlink (s : JbStore δ) (a u v : ℕ) (frames : Option ℕ) : JbStore δ :=
  { ((s.setNext u (some v)).setPrev v (some u)).setNext a s.free with frames := frames, free := some a }

section

variable (a u v : ℕ) (frames : Option ℕ)

lemma at_unlink : (s.unlink a u v frames).at = s.at := by
  change (((s.setNext u (some v)).setPrev v (some u)).setNext a s.free).at = s.at
  simp

lemma nx_unlink : (s.unlink a u v frames).nx = update (update s.nx u (some v)) a s.free := by
  change (((s.setNext u (some v)).setPrev v (some u)).setNext a s.free).nx = _
  simp

lemma pv_unlink : (s.unlink a u v frames).pv = update s.pv v (some u) := by
  change (((s.setNext u (some v)).setPrev v (some u)).setNext a s.free).pv = _
  simp

end

lemma get_eq {v : ℕ} (hfrs : s.frames = some a) (hdue : all = true ∨ (s.at a).ts ≤ ts)
    (hu : s.pv a = some u) (hv : s.nx a = some v) :
    s.get ts all = some (some a, s.unlink a u v (if v = a then none else some v)) := by
  have hu' : (s.heap a).prev = some u := hu
  have hv' : (s.heap a).next = some v := hv
  have hdue' : all = true ∨ (s.heap a).frame.ts ≤ ts := hdue
  -- the pointer of the head to its next node is only written with its own value
  have hsame : (((s.setNext u (some v)).setPrev v (some u)).heap a).next = some v := by
    change ((s.setNext u (some v)).setPrev v (some u)).nx a = some v
    rw [nx_setPrev, nx_setNext]
    by_cases hau : a = u
    · rw [hau, update_self]
    · rw [update_of_ne hau, hv]
  simp only [JbStore.get, hfrs, if_pos hdue', hu', hv', Option.bind_eq_bind, Option.bind_some, hsame,
    Option.some.injEq]
  rfl

lemma JbStore.Queue.get_nil (h : s.Queue []) (ts : ℤ) (all : Bool) : s.get ts all = some (none, s) := by
  obtain ⟨ring, free, hrep, hq⟩ := h
  obtain rfl : ring = [] := map_eq_nil_iff.mp hq.symm
  have hfrs : s.frames = none := hrep.frames_eq
  simp [JbStore.get, hfrs]

lemma JbStore.Queue.get_of_not_due (h : s.Queue (f :: q)) (hdue : ¬(all = true ∨ f.ts ≤ ts)) :
    s.get ts all = some (none, s) := by
  obtain ⟨ring, free, hrep, hq⟩ := h
  cases ring with
  | nil => cases hq
  | cons a l =>
    obtain ⟨rfl, -⟩ := List.cons.inj hq
    have hfrs : s.frames = some a := hrep.frames_eq
    have hdue' : ¬(all = true ∨ (s.heap a).frame.ts ≤ ts) := hdue
    simp [JbStore.get, hfrs, if_neg hdue']

lemma JbStore.Queue.get (h : s.Queue (f :: q)) (hdue : all = true ∨ f.ts ≤ ts) :
    ∃ a s', s.get ts all = some (some a, s') ∧ s'.at a = f ∧ s'.Queue q := by
  obtain ⟨ring, free, hrep, hq⟩ := h
  cases ring with
  | nil => cases hq
  | cons a l =>
    obtain ⟨rfl, rfl⟩ := List.cons.inj hq
    obtain ⟨u, hu⟩ : ∃ u, (a :: l).getLast? = some u := ⟨_, getLast?_eq_some_getLast (by simp)⟩
    obtain ⟨v, hv⟩ : ∃ v, (l ++ [a]).head? = some v := ⟨_, head?_eq_some_head (by simp)⟩
    have hprev : s.pv a = some u := hrep.linked.prev_head rfl hu
    have hnext : s.nx a = some v := by
      have hrot : LinkedRing s.nx s.pv (l ++ [a]) := @LinkedRing.rotate _ _ _ [a] l hrep.linked
      exact hrot.next_last hv (by simp)
    have hal : a ∉ l := (nodup_cons.mp hrep.linked.nodup).1
    have hdisj := (nodup_append.mp hrep.nodup).2.2
    have hul : u ∈ a :: l := mem_of_getLast? hu
    refine ⟨a, _, get_eq hrep.frames_eq hdue hprev hnext, by rw [at_unlink], l, a :: free, ?_, by rw [at_unlink]⟩
    constructor
    · cases l with
      | nil =>
        obtain rfl : a = v := by simpa using hv
        exact if_pos rfl
      | cons b l =>
        obtain rfl : b = v := by simpa using hv
        have hba : b ≠ a := fun he => hal (he ▸ mem_cons_self)
        exact if_neg hba
    · rw [nx_unlink, pv_unlink]
      cases l with
      | nil => exact linkedRing_nil
      | cons b l =>
        obtain rfl : b = v := by simpa using hv
        refine (hrep.linked.pop rfl hu).congr (fun c hc => ?_) fun c hc => rfl
        have hca : c ≠ a := fun he => hal (he ▸ hc)
        exact update_of_ne hca _ _
    · refine ⟨rfl, ?_⟩
      rw [nx_unlink, update_self]
      refine hrep.free_chain.congr fun c hc => ?_
      have hca : c ≠ a := fun he => hdisj a mem_cons_self c hc he.symm
      have hcu : c ≠ u := fun he => hdisj u hul c hc he.symm
      rw [update_of_ne hca, update_of_ne hcu]
    · exact (perm_middle.nodup_iff).mpr hrep.nodup
    · intro c hc
      exact hrep.lt_fresh c (perm_middle.mem_iff.mp hc)

lemma JbStore.Queue.ends (h : s.Queue q) : (∃ next, s.queueNext = some next) ∧ ∃ last, s.queueLast = some last := by
  obtain ⟨ring, free, hrep, -⟩ := h
  unfold JbStore.queueNext JbStore.queueLast
  rw [hrep.frames_eq]
  cases ring with
  | nil => exact ⟨⟨_, rfl⟩, ⟨_, rfl⟩⟩
  | cons a l =>
    obtain ⟨u, hu⟩ : ∃ u, (a :: l).getLast? = some u := ⟨_, getLast?_eq_some_getLast (by simp)⟩
    have hprev : (s.heap a).prev = some u := hrep.linked.prev_head rfl hu
    refine ⟨⟨_, rfl⟩, ⟨(s.heap u).frame.ts, ?_⟩⟩
    simp only [head?_cons, hprev]
    rfl

lemma queue_empty (heap : ℕ → JbNode δ) : (⟨none, none, heap, 0⟩ : JbStore δ).Queue [] :=
  ⟨[], [], ⟨rfl, linkedRing_nil, rfl, nodup_nil, by simp⟩, rfl⟩

end Store

end Telephony.Jitter.Adaptive
