import Mathlib.Data.List.Chain
import Mathlib.Data.List.Nodup

/-!
# Rings and chains of linked nodes

Doubly linked circular lists and null-terminated singly linked lists, as statements about the
pointers `next` and `prev` of their nodes. A ring may be read from any of its nodes.
-/

namespace Telephony.Lib

open List Option Function

section Ring

variable {ι : Type*} {nx pv nx' pv' : ι → Option ι}

def Linked (nx pv : ι → Option ι) (a b : ι) : Prop := nx a = some b ∧ pv b = some a

structure LinkedRing (nx pv : ι → Option ι) (l : List ι) : Prop where
  nodup : l.Nodup
  chain : l.IsChain (Linked nx pv)
  closed : ∀ u ∈ l.getLast?, ∀ p ∈ l.head?, Linked nx pv u p

lemma linkedRing_nil : LinkedRing nx pv [] := ⟨nodup_nil, .nil, by simp⟩

variable {a p u b x : ι} {l₁ l₂ l : List ι}

lemma linkedRing_singleton (h : Linked nx pv a a) : LinkedRing nx pv [a] where
  nodup := nodup_singleton a
  chain := .singleton a
  closed := by simpa using h

lemma LinkedRing.rotate (h : LinkedRing nx pv (l₁ ++ l₂)) : LinkedRing nx pv (l₂ ++ l₁) := by
  by_cases h₁ : l₁ = []
  · simpa [h₁] using h
  by_cases h₂ : l₂ = []
  · simpa [h₂] using h
  obtain ⟨hnd, hchn, hcl⟩ := h
  obtain ⟨hchn₁, hchn₂, hlink⟩ := isChain_append.mp hchn
  rw [getLast?_append_of_ne_nil _ h₂, head?_append_of_ne_nil _ h₁] at hcl
  refine ⟨perm_append_comm.nodup_iff.mp hnd, isChain_append.mpr ⟨hchn₂, hchn₁, hcl⟩, ?_⟩
  rwa [getLast?_append_of_ne_nil _ h₁, head?_append_of_ne_nil _ h₂]

lemma LinkedRing.congr (h : LinkedRing nx pv l) (hnx : ∀ a ∈ l, nx' a = nx a) (hpv : ∀ a ∈ l, pv' a = pv a) :
    LinkedRing nx' pv' l where
  nodup := h.nodup
  chain := h.chain.imp_of_mem_imp fun a b ha hb hab => ⟨(hnx a ha).trans hab.1, (hpv b hb).trans hab.2⟩
  closed := fun u hu p hp => by
    have hlink := h.closed u hu p hp
    exact ⟨(hnx u (mem_of_getLast? hu)).trans hlink.1, (hpv p (mem_of_head? hp)).trans hlink.2⟩

section

variable (h : LinkedRing nx pv l) (hp : l.head? = some p) (hu : l.getLast? = some u)
include h hp hu

lemma LinkedRing.prev_head : pv p = some u :=
  (h.closed u hu p hp).2

lemma LinkedRing.next_last : nx u = some p :=
  (h.closed u hu p hp).1

lemma LinkedRing.inner_link (hb : b ∈ l.tail) (hab : Linked nx pv a b) : a ≠ u ∧ b ≠ p := by
  have hbp : b ≠ p := by
    rintro rfl
    obtain ⟨l', rfl⟩ := head?_eq_some_iff.mp hp
    exact (nodup_cons.mp h.nodup).1 hb
  refine ⟨?_, hbp⟩
  rintro rfl
  have hnext := (h.next_last hp hu).symm.trans hab.1
  exact hbp (Option.some.inj hnext).symm

end

variable [DecidableEq ι]

lemma LinkedRing.push (h : LinkedRing nx pv l) (hp : l.head? = some p) (hu : l.getLast? = some u) (hx : x ∉ l) :
    LinkedRing (update (update nx x (some p)) u (some x)) (update (update pv x (some u)) p (some x)) (l ++ [x]) := by
  have hul : u ∈ l := mem_of_getLast? hu
  have hpl : p ∈ l := mem_of_head? hp
  have hxu : x ≠ u := fun he => hx (he ▸ hul)
  have hxp : x ≠ p := fun he => hx (he ▸ hpl)
  constructor
  · exact h.nodup.append (nodup_singleton x) (by simpa using hx)
  · refine isChain_append.mpr ⟨?_, .singleton x, ?_⟩
    · refine h.chain.imp_of_mem_tail_imp fun a b ha hb hab => ?_
      obtain ⟨hau, hbp⟩ := h.inner_link hp hu hb hab
      have hax : a ≠ x := fun he => hx (he ▸ ha)
      have hbx : b ≠ x := fun he => hx (he ▸ mem_of_mem_tail hb)
      exact ⟨by simp [hau, hax, hab.1], by simp [hbp, hbx, hab.2]⟩
    · intro v hv w hw
      rw [hu, mem_some_iff] at hv
      rw [head?_singleton, mem_some_iff] at hw
      subst hv hw
      exact ⟨by simp, by simp [hxp]⟩
  · intro v hv w hw
    rw [getLast?_concat, mem_some_iff] at hv
    rw [head?_append, hp, some_or, mem_some_iff] at hw
    subst hv hw
    exact ⟨by simp [hxu], by simp⟩

lemma LinkedRing.insert (h : LinkedRing nx pv (l₁ ++ p :: l₂)) (hu : pv p = some u) (hx : x ∉ l₁ ++ p :: l₂) :
    LinkedRing (update (update nx x (some p)) u (some x))
      (update (update pv x (some u)) p (some x)) (l₁ ++ x :: p :: l₂) := by
  have hrot := h.rotate
  have hhead : ((p :: l₂) ++ l₁).head? = some p := rfl
  obtain ⟨v, hv⟩ : ∃ v, ((p :: l₂) ++ l₁).getLast? = some v := by exact ⟨_, getLast?_eq_some_getLast (by simp)⟩
  have huv : v = u := Option.some.inj ((hrot.prev_head hhead hv).symm.trans hu)
  subst huv
  have hpush := hrot.push hhead hv (x := x) fun hmem => hx (perm_append_comm.mem_iff.mp hmem)
  rw [append_assoc] at hpush
  simpa using hpush.rotate

lemma LinkedRing.pop (h : LinkedRing nx pv (a :: l)) (hb : l.head? = some b) (hu : l.getLast? = some u) :
    LinkedRing (update nx u (some b)) (update pv b (some u)) l := by
  have hlast : (a :: l).getLast? = some u := by
    rw [getLast?_cons, hu]
    rfl
  constructor
  · exact (nodup_cons.mp h.nodup).2
  · refine h.chain.tail.imp_of_mem_tail_imp fun c d hc hd hcd => ?_
    have hcu : c ≠ u := (h.inner_link rfl hlast (mem_of_mem_tail hd) hcd).1
    have hdb : d ≠ b := by
      rintro rfl
      obtain ⟨l', rfl⟩ := head?_eq_some_iff.mp hb
      exact (nodup_cons.mp (nodup_cons.mp h.nodup).2).1 hd
    exact ⟨by simp [hcu, hcd.1], by simp [hdb, hcd.2]⟩
  · intro v hv w hw
    rw [hu, mem_some_iff] at hv
    rw [hb, mem_some_iff] at hw
    subst hv hw
    exact ⟨by simp, by simp⟩

end Ring

section Chain

variable {ι : Type*} {nx nx' : ι → Option ι}

def NullChain (nx : ι → Option ι) : Option ι → List ι → Prop
  | head, [] => head = none
  | head, a :: l => head = some a ∧ NullChain nx (nx a) l

lemma NullChain.congr {head : Option ι} {l : List ι} (h : NullChain nx head l)
    (hnx : ∀ a ∈ l, nx' a = nx a) : NullChain nx' head l := by
  induction l generalizing head with
  | nil => exact h
  | cons a l ih =>
    rw [forall_mem_cons] at hnx
    refine ⟨h.1, ?_⟩
    rw [hnx.1]
    exact ih h.2 hnx.2

end Chain

end Telephony.Lib
