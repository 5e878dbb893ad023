import Mathlib.Data.Fintype.BigOperators
import Telephony.StringFields.Storage

/-!
# Slots in pools

What the pools are for, without the memory: each owner of space has a slot. The slots lie apart from
each other in the used part of their pools (`Layout`), and the one that was allocated last is the
topmost one of the head pool (`Top`). The owners are the fields, and a place for space that does not
belong to a field yet.
-/

namespace Telephony.StringFields

open Lib List Function

structure Slot where
  start : ℕ
  room : ℕ
  deriving DecidableEq, Repr

def Slot.Apart (t u : Slot) : Prop :=
  t.start + t.room + allocationAlign ≤ u.start ∨ u.start + u.room + allocationAlign ≤ t.start

def Slot.Covers (t : Slot) (x : ℕ) : Prop := t.start ≤ x + allocationAlign ∧ x < t.start + t.room

def Pool.Apart (p q : Pool) : Prop :=
  p.base + p.size + poolHeader ≤ q.base ∨ q.base + q.size + poolHeader ≤ p.base

def Pool.Holds (p : Pool) (t : Slot) : Prop :=
  p.base + allocationAlign ≤ t.start ∧ t.start + t.room ≤ p.base + p.used ∧ 0 < t.room

def Pool.share (p : Pool) : Option Slot → ℕ
  | none => 0
  | some t => if p.Contains t.start then t.room else 0

section Layout

variable {κ : Type} [Fintype κ]

structure Pool.Ok (p : Pool) (slot : κ → Option Slot) : Prop where
  used_le : p.used ≤ p.size
  size_pos : 0 < p.size
  low : poolHeader ≤ p.base
  high : p.base + p.size ≤ 2 ^ 63
  active : p.active = ∑ k, p.share (slot k)
  active_le : p.active ≤ p.used

structure Layout (chain : List Pool) (slot : κ → Option Slot) : Prop where
  ok : ∀ p ∈ chain, p.Ok slot
  apart : chain.Pairwise Pool.Apart
  inside : ∀ k t, slot k = some t → ∃ p ∈ chain, p.Holds t
  disjoint : ∀ j k t u, j ≠ k → slot j = some t → slot k = some u → t.Apart u

def Top (head : Pool) (last : Option ℕ) (slot : κ → Option Slot) : Prop :=
  ∀ k t, slot k = some t → last = some t.start →
    head.Contains t.start ∧ ∀ j u, slot j = some u → head.Contains u.start → u.start ≤ t.start

variable {chain l₁ l₂ : List Pool} {p p' q head : Pool} {slot : κ → Option Slot} {k j : κ} {t u : Slot}
  {o : Option Slot} {last : Option ℕ}

/-! ## Pools and slots -/

lemma Pool.Apart.symm (h : p.Apart q) : q.Apart p := Or.symm h

instance : Std.Symm Pool.Apart := ⟨fun _ _ => Pool.Apart.symm⟩

lemma Slot.Apart.symm (h : t.Apart u) : u.Apart t := Or.symm h

lemma Pool.Holds.contains (h : p.Holds t) (hle : p.used ≤ p.size) : p.Contains t.start := by
  obtain ⟨hlow, hhigh, hpos⟩ := h
  unfold Pool.Contains
  omega

lemma Pool.Apart.not_contains (h : p.Apart q) (ht : p.Holds t) (hle : p.used ≤ p.size) : ¬ q.Contains t.start := by
  obtain ⟨hlow, hhigh, hpos⟩ := ht
  unfold Pool.Apart poolHeader at h
  unfold Pool.Contains
  omega

lemma Pool.share_none : p.share none = 0 := rfl

lemma Pool.share_of_contains (h : p.Contains t.start) : p.share (some t) = t.room := by
  rw [Pool.share, if_pos h]

lemma Pool.share_of_not (h : ¬ p.Contains t.start) : p.share (some t) = 0 := by
  rw [Pool.share, if_neg h]

lemma Pool.share_congr (hbase : p'.base = p.base) (hsize : p'.size = p.size) (o : Option Slot) :
    p'.share o = p.share o := by
  cases o with
  | none => rfl
  | some t => simp [Pool.share, Pool.Contains, hbase, hsize]

omit [Fintype κ] in
lemma slot_of_update [DecidableEq κ] (hj : update slot k o j = some t) : j = k ∧ o = some t ∨ j ≠ k ∧ slot j = some t := by
  rw [update_apply] at hj
  split_ifs at hj with hjk
  · exact .inl ⟨hjk, hj⟩
  · exact .inr ⟨hjk, hj⟩

lemma sum_share_update [DecidableEq κ] (p : Pool) (slot : κ → Option Slot) (k : κ) (o : Option Slot) :
    ∑ j, p.share (update slot k o j) + p.share (slot k) = ∑ j, p.share (slot j) + p.share o := by
  have hupd : (fun j => p.share (update slot k o j)) = update (fun j => p.share (slot j)) k (p.share o) := by
    funext j
    exact apply_update (fun _ => p.share) slot k o j
  rw [hupd, Finset.sum_update_of_mem (Finset.mem_univ k),
    Finset.sum_eq_add_sum_sdiff_singleton_of_mem (Finset.mem_univ k) fun j => p.share (slot j)]
  omega

lemma Layout.apart_of_ne (h : Layout chain slot) (hp : p ∈ chain) (hq : q ∈ chain) (hne : p ≠ q) : p.Apart q :=
  h.apart.forall hp hq hne

lemma Layout.holds (h : Layout chain slot) (hp : p ∈ chain) (hk : slot k = some t)
    (hfnd : p.Contains t.start) : p.Holds t := by
  obtain ⟨q, hq, hh⟩ := h.inside k t hk
  by_cases heq : q = p
  · exact heq ▸ hh
  · exact absurd hfnd ((h.apart_of_ne hq hp heq).not_contains hh (h.ok q hq).used_le)

lemma Layout.free (h : Layout (head :: l₂) slot) (hk : slot k = some t) {x : ℕ}
    (hlow : head.base + head.used ≤ x) (hhigh : x < head.base + head.size) : ¬ t.Covers x := by
  intro hcvs
  unfold Slot.Covers allocationAlign at hcvs
  obtain ⟨q, hq, hh⟩ := h.inside k t hk
  have hle := (h.ok q hq).used_le
  obtain ⟨h₁, h₂, h₃⟩ := hh
  by_cases heq : q = head
  · subst heq
    omega
  have hap := h.apart_of_ne hq mem_cons_self heq
  unfold Pool.Apart poolHeader at hap
  omega

lemma Layout.not_contains_of_idle (h : Layout chain slot) (hp : p ∈ chain)
    (hidle : ∑ j, p.share (slot j) = 0) (hk : slot k = some t) : ¬ p.Contains t.start := by
  intro hfnd
  have hzero := (Finset.sum_eq_zero_iff.mp hidle) k (Finset.mem_univ k)
  rw [hk, Pool.share_of_contains hfnd] at hzero
  have hpos := (h.holds hp hk hfnd).2.2
  omega

/-! ## Changes -/

lemma Layout.drop (h : Layout (l₁ ++ p :: l₂) slot)
    (hnone : ∀ k t, slot k = some t → ¬ p.Contains t.start) : Layout (l₁ ++ l₂) slot := by
  have hsub : (l₁ ++ l₂).Sublist (l₁ ++ p :: l₂) :=
    List.Sublist.append_left (sublist_cons_self p l₂) l₁
  refine ⟨fun q hq => h.ok q (hsub.subset hq), h.apart.sublist hsub, fun k t hk => ?_, h.disjoint⟩
  obtain ⟨q, hq, hh⟩ := h.inside k t hk
  refine ⟨q, (mem_cons.mp (perm_middle.mem_iff.mp hq)).resolve_left ?_, hh⟩
  rintro rfl
  exact hnone k t hk (hh.contains (h.ok q hq).used_le)

lemma Layout.cons (h : Layout chain slot) (hpos : 0 < p.size) (hlow : poolHeader ≤ p.base)
    (hhigh : p.base + p.size ≤ 2 ^ 63) (hused : p.used = 0) (hact : p.active = 0)
    (hap : ∀ q ∈ chain, p.Apart q) : Layout (p :: chain) slot := by
  have hshare : ∀ j, p.share (slot j) = 0 := by
    intro j
    cases hj : slot j with
    | none => rfl
    | some t =>
      obtain ⟨q, hq, hh⟩ := h.inside j t hj
      exact Pool.share_of_not ((hap q hq).symm.not_contains hh (h.ok q hq).used_le)
  refine ⟨?_, pairwise_cons.mpr ⟨hap, h.apart⟩, ?_, h.disjoint⟩
  · intro q hq
    rcases mem_cons.mp hq with rfl | hq
    · exact ⟨by omega, hpos, hlow, hhigh, by rw [hact, Finset.sum_eq_zero fun j _ => hshare j], by omega⟩
    · exact h.ok q hq
  · intro k t hk
    obtain ⟨q, hq, hh⟩ := h.inside k t hk
    exact ⟨q, mem_cons_of_mem _ hq, hh⟩

lemma Layout.single (hpos : 0 < p.size) (hlow : poolHeader ≤ p.base) (hhigh : p.base + p.size ≤ 2 ^ 63)
    (hused : p.used = 0) (hact : p.active = 0) : Layout [p] (fun _ : κ => none) := by
  exact Layout.cons ⟨by simp, List.Pairwise.nil, nofun, nofun⟩ hpos hlow hhigh hused hact (by simp)

lemma Layout.comp_equiv (h : Layout chain slot) (e : Equiv.Perm κ) : Layout chain (slot ∘ e) := by
  refine ⟨?_, h.apart, fun k t hk => h.inside (e k) t hk, ?_⟩
  · intro p hp
    have hok := h.ok p hp
    refine { hok with active := ?_ }
    rw [hok.active]
    exact (Equiv.sum_comp e fun k => p.share (slot k)).symm
  · intro j k t u hne hj hk
    exact h.disjoint (e j) (e k) t u (fun heq => hne (e.injective heq)) hj hk

lemma Layout.replace [DecidableEq κ] (h : Layout (l₁ ++ p :: l₂) slot)
    (hbase : p'.base = p.base) (hsize : p'.size = p.size) (hused : p'.used ≤ p'.size)
    (hle : p'.active ≤ p'.used)
    (hact : p'.active + p.share (slot k) = p.active + p.share o)
    (hold : ∀ t, slot k = some t → p.Contains t.start)
    (hnew : ∀ t, o = some t → p'.Holds t)
    (hrest : ∀ j t, j ≠ k → slot j = some t → p.Contains t.start → p'.Holds t)
    (hdisjoint : ∀ t j u, o = some t → j ≠ k → slot j = some u → t.Apart u) :
    Layout (l₁ ++ p' :: l₂) (update slot k o) := by
  have hp : p ∈ l₁ ++ p :: l₂ := by simp
  obtain ⟨hps, hothers⟩ := pairwise_cons.mp ((pairwise_middle Pool.Apart.symm).mp h.apart)
  have hoth : ∀ q ∈ l₁ ++ l₂, p'.Apart q := by
    intro q hq
    rw [Pool.Apart, hbase, hsize]
    exact hps q hq
  -- the slot counts in this pool only
  have hshare : ∀ q ∈ l₁ ++ l₂, q.share o = q.share (slot k) := by
    intro q hq
    have hzero : q.share o = 0 := by
      cases ho : o with
      | none => rfl
      | some t => exact Pool.share_of_not ((hoth q hq).not_contains (hnew t ho) hused)
    have hzero' : q.share (slot k) = 0 := by
      cases hk : slot k with
      | none => rfl
      | some t => exact Pool.share_of_not ((hps q hq).not_contains (h.holds hp hk (hold t hk)) (h.ok p hp).used_le)
    omega
  refine ⟨fun q hq => ?_, (pairwise_middle Pool.Apart.symm).mpr (pairwise_cons.mpr ⟨hoth, hothers⟩),
    fun j t hj => ?_, fun i j t u hne hi hj => ?_⟩
  · have hsum := sum_share_update q slot k o
    rcases mem_cons.mp (perm_middle.mem_iff.mp hq) with rfl | hq
    · have hok := h.ok p hp
      have hsum := sum_share_update p slot k o
      refine ⟨hused, by rw [hsize]; exact hok.size_pos, by rw [hbase]; exact hok.low,
        by rw [hbase, hsize]; exact hok.high, ?_, hle⟩
      rw [Finset.sum_congr rfl fun j _ => Pool.share_congr hbase hsize _]
      have := hok.active
      omega
    · have hok := h.ok q (perm_middle.mem_iff.mpr (mem_cons_of_mem _ hq))
      have := hshare q hq
      refine { hok with active := ?_ }
      have := hok.active
      omega
  · rcases slot_of_update hj with ⟨rfl, ht⟩ | ⟨hne, hj⟩
    · exact ⟨p', by simp, hnew t ht⟩
    obtain ⟨q, hq, hh⟩ := h.inside j t hj
    rcases mem_cons.mp (perm_middle.mem_iff.mp hq) with rfl | hq
    · exact ⟨p', by simp, hrest j t hne hj (hh.contains (h.ok q hp).used_le)⟩
    · exact ⟨q, perm_middle.mem_iff.mpr (mem_cons_of_mem _ hq), hh⟩
  · rcases slot_of_update hi with ⟨rfl, ht⟩ | ⟨hik, hi'⟩ <;> rcases slot_of_update hj with ⟨rfl, hu⟩ | ⟨hjk, hj'⟩
    · exact absurd rfl hne
    · exact hdisjoint t j u ht hjk hj'
    · exact (hdisjoint u i t hu hik hi').symm
    · exact h.disjoint i j t u hne hi' hj'

/-! ## Taking space, growing and releasing -/

variable [DecidableEq κ] {n u g used : ℕ}

def Pool.take (p : Pool) (used active : ℕ) : Pool :=
  { p with used := p.used + used, active := p.active + active }

lemma Pool.Holds.take (h : p.Holds t) (used active : ℕ) : (p.take used active).Holds t := by
  unfold Pool.Holds Pool.take at *
  dsimp only
  omega

section

variable (h : Layout (head :: l₂) slot)
include h

lemma Layout.claim (hk : slot k = none) (hroom : head.used + u ≤ head.size)
    (hn : n + allocationAlign ≤ u) (hpos : 0 < n) :
    Layout (head.take u n :: l₂) (update slot k (some ⟨head.base + head.used + allocationAlign, n⟩)) := by
  unfold allocationAlign at *
  have hmem : head ∈ head :: l₂ := mem_cons_self
  refine @Layout.replace κ _ [] l₂ head (head.take u n) slot k _ _ h rfl rfl hroom ?_ ?_ ?_ ?_ ?_ ?_
  · exact Nat.add_le_add (h.ok head hmem).active_le (by omega)
  · rw [hk, Pool.share_of_contains ⟨by dsimp only; omega, by dsimp only; omega⟩]
    rfl
  · intro t ht
    rw [hk] at ht
    cases ht
  · rintro t ⟨⟩
    unfold Pool.Holds Pool.take allocationAlign
    dsimp only
    omega
  · intro j t _ hj hc
    exact (h.holds hmem hj hc).take u n
  · rintro t j v ⟨⟩ _ hj
    obtain ⟨q, hq, hh⟩ := h.inside j v hj
    have hle := (h.ok q hq).used_le
    obtain ⟨h₁, h₂, h₃⟩ := hh
    unfold Slot.Apart allocationAlign at *
    dsimp only
    by_cases heq : q = head
    · subst heq
      omega
    have hap := h.apart_of_ne hq hmem heq
    unfold Pool.Apart poolHeader at hap
    omega

lemma Layout.claim_top (hroom : head.used + u ≤ head.size) (hn : n + allocationAlign ≤ u) :
    Top (head.take u n) (some (head.base + head.used + allocationAlign))
      (update slot k (some ⟨head.base + head.used + allocationAlign, n⟩)) := by
  unfold allocationAlign at *
  intro j t hj hlast
  have hsta : t.start = head.base + head.used + 2 := (Option.some.inj hlast).symm
  refine ⟨?_, ?_⟩
  · unfold Pool.Contains Pool.take
    dsimp only
    omega
  intro i v hi hc
  rcases slot_of_update hi with ⟨-, ⟨⟩⟩ | ⟨-, hi⟩
  · exact Nat.le_of_eq hsta.symm
  have hh := h.holds mem_cons_self hi hc
  unfold Pool.Holds at hh
  omega

omit [DecidableEq κ] in
lemma Layout.apart_of_behind {v : Slot} (hj : slot j = some v)
    (hc : ¬ head.Contains v.start) (hlow : head.base + allocationAlign ≤ t.start)
    (hhigh : t.start + t.room ≤ head.base + head.size) : t.Apart v := by
  obtain ⟨q, hq, hh⟩ := h.inside j v hj
  have hle := (h.ok q hq).used_le
  have hne : q ≠ head := by
    rintro rfl
    exact hc (hh.contains hle)
  have hap := h.apart_of_ne hq mem_cons_self hne
  obtain ⟨h₁, h₂, h₃⟩ := hh
  unfold Slot.Apart allocationAlign at *
  unfold Pool.Apart poolHeader at hap
  omega

section

variable (htop : Top head last slot) (hk : slot k = some t) (hlast : last = some t.start)
include htop hk hlast

omit [DecidableEq κ] in
lemma Layout.below_top {v : Slot} (hne : j ≠ k) (hj : slot j = some v)
    (hc : head.Contains v.start) : v.start + v.room + allocationAlign ≤ t.start := by
  have hle := (htop k t hk hlast).2 j v hj hc
  have hap := h.disjoint j k v t hne hj hk
  unfold Slot.Apart allocationAlign at *
  omega

lemma Layout.grow (hroom : head.used + u ≤ head.size) (hg : g ≤ u) :
    Layout (head.take u g :: l₂) (update slot k (some ⟨t.start, t.room + g⟩)) := by
  have hmem : head ∈ head :: l₂ := mem_cons_self
  have hfnd := (htop k t hk hlast).1
  have hh := h.holds hmem hk hfnd
  obtain ⟨h₁, h₂, h₃⟩ := hh
  refine @Layout.replace κ _ [] l₂ head (head.take u g) slot k _ _ h rfl rfl hroom ?_ ?_ ?_ ?_ ?_ ?_
  · exact Nat.add_le_add (h.ok head hmem).active_le hg
  · rw [hk, Pool.share_of_contains hfnd, Pool.share_of_contains (t := ⟨t.start, t.room + g⟩) hfnd]
    unfold Pool.take
    dsimp only
    omega
  · intro v hv
    rw [hk] at hv
    cases hv
    exact hfnd
  · rintro v ⟨⟩
    unfold Pool.Holds Pool.take
    dsimp only
    omega
  · intro j v _ hj hc
    exact (h.holds hmem hj hc).take u g
  · rintro v j w ⟨⟩ hne hj
    by_cases hc : head.Contains w.start
    · exact .inr (h.below_top htop hk hlast hne hj hc)
    · exact h.apart_of_behind hj hc h₁ (by dsimp only; omega)

end

end

omit [Fintype κ] in
lemma Top.grow (htop : Top head last slot) (hk : slot k = some t) (p' : Pool) (hbase : p'.base = head.base)
    (hsize : p'.size = head.size) (room : ℕ) :
    Top p' last (update slot k (some ⟨t.start, room⟩)) := by
  have hsame : ∀ {j v}, update slot k (some ⟨t.start, room⟩) j = some v →
      ∃ w, slot j = some w ∧ w.start = v.start := by
    intro j v hj
    rcases slot_of_update hj with ⟨rfl, ⟨⟩⟩ | ⟨-, hj⟩
    · exact ⟨t, hk, rfl⟩
    · exact ⟨v, hj, rfl⟩
  have hpl : ∀ a, p'.Contains a ↔ head.Contains a := fun a => by unfold Pool.Contains; rw [hbase, hsize]
  intro j v hj hlast
  obtain ⟨w, hw, hwv⟩ := hsame hj
  rw [← hwv] at hlast ⊢
  obtain ⟨hfnd, hoth⟩ := htop j w hw hlast
  refine ⟨(hpl _).mpr hfnd, fun i x hi hc => ?_⟩
  obtain ⟨y, hy, hyx⟩ := hsame hi
  rw [← hyx] at hc ⊢
  exact hoth i y hy ((hpl _).mp hc)

section

variable (h : Layout (l₁ ++ p :: l₂) slot) (hk : slot k = some t) (hfnd : p.Contains t.start)
include h hk hfnd

lemma Layout.release (hused : used = p.used ∨ used = 0 ∧ p.active = t.room) :
    Layout (l₁ ++ { p with active := p.active - t.room, used := used } :: l₂) (update slot k none) := by
  have hmem : p ∈ l₁ ++ p :: l₂ := by simp
  have hok := h.ok p hmem
  have hsum := sum_share_update p slot k none
  rw [hk, Pool.share_of_contains hfnd, Pool.share_none] at hsum
  have hact := hok.active
  refine h.replace rfl rfl ?_ ?_ ?_ ?_ ?_ ?_ ?_
  · have := hok.used_le
    dsimp only
    omega
  · have := hok.active_le
    dsimp only
    omega
  · rw [hk, Pool.share_of_contains hfnd, Pool.share_none]
    dsimp only
    omega
  · intro v hv
    rw [hk] at hv
    cases hv
    exact hfnd
  · rintro v ⟨⟩
  · intro j v hne hj hc
    have hh := h.holds hmem hj hc
    rcases hused with rfl | ⟨rfl, hidle⟩
    · exact hh
    -- the bytes of this slot are counted, so the pool is not without slots
    have hzero : ∑ i, p.share (update slot k none i) = 0 := by omega
    have hj' := (Finset.sum_eq_zero_iff.mp hzero) j (Finset.mem_univ j)
    rw [update_of_ne hne, hj, Pool.share_of_contains hc] at hj'
    have := hh.2.2
    omega
  · rintro v j w ⟨⟩

lemma Layout.release_drop (hidle : p.active = t.room) : Layout (l₁ ++ l₂) (update slot k none) := by
  have hrel := h.release hk hfnd (.inr ⟨rfl, hidle⟩)
  refine hrel.drop fun j v hj => ?_
  refine hrel.not_contains_of_idle (by simp) ?_ hj
  rw [← (hrel.ok _ (by simp)).active]
  dsimp only
  omega

end

omit [Fintype κ] in
lemma Top.release (htop : Top head last slot) (p' : Pool) (hbase : p'.base = head.base)
    (hsize : p'.size = head.size) : Top p' last (update slot k none) := by
  have hold : ∀ {j v}, update slot k none j = some v → slot j = some v := by
    intro j v hj
    rcases slot_of_update hj with ⟨-, ⟨⟩⟩ | ⟨-, hj⟩
    exact hj
  have hpl : ∀ a, p'.Contains a ↔ head.Contains a := fun a => by unfold Pool.Contains; rw [hbase, hsize]
  intro j v hj hlast
  obtain ⟨hfnd, hoth⟩ := htop j v (hold hj) hlast
  exact ⟨(hpl _).mpr hfnd, fun i w hi hc => hoth i w (hold hi) ((hpl _).mp hc)⟩

end Layout

end Telephony.StringFields
