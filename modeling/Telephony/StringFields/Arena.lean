import Mathlib.Algebra.Order.BigOperators.Group.Finset
import Telephony.StringFields.Layout

/-!
# The operations of the pools

Each function on the pools keeps the invariant `Arena.Inv`: the pointers of the owners, with the
numbers of bytes that stand in front of them in the memory, are slots in the pools. The bytes that
belong to other owners keep their content (`Arena.Keeps`).
-/

set_option linter.unusedSectionVars false

namespace Telephony.StringFields

open Lib List Function Option

section Arena

variable {κ : Type} [Fintype κ] [DecidableEq κ]

namespace Arena

def slot (self : Arena) : FieldPtr → Option Slot
  | .empty => none
  | .at a => some ⟨a, self.allocation (.at a)⟩

structure Inv (arena : Arena) (ptr : κ → FieldPtr) : Prop where
  layout : Layout arena.chain fun k => arena.slot (ptr k)
  top : Top arena.head arena.lastAlloc fun k => arena.slot (ptr k)
  embedded : ∀ b, arena.embedded = some b → ∃ p ∈ arena.chain, p.base = b

def Keeps (self : Arena) (mem : Memory) (ptr : κ → FieldPtr) : Prop :=
  ∀ k t, self.slot (ptr k) = some t → ∀ x, t.Covers x → mem x = self.mem x

variable {self : Arena} {ptr : κ → FieldPtr} {k j : κ} {a n u g x : ℕ} {mem : Memory} {t : Slot}

/-! ## Slots and memory -/

lemma slot_at (h : ptr k = .at a) : self.slot (ptr k) = some ⟨a, self.allocation (.at a)⟩ := by
  rw [h, slot]

lemma slot_update (self : Arena) (ptr : κ → FieldPtr) (k : κ) (q : FieldPtr) :
    (fun j => self.slot (update ptr k q j)) = update (fun j => self.slot (ptr j)) k (self.slot q) := by
  funext j
  exact apply_update (fun _ => self.slot) ptr k q j

lemma Inv.holds (h : self.Inv ptr) (hk : ptr k = .at a) : ∃ p ∈ self.chain, p.Holds ⟨a, self.allocation (.at a)⟩ :=
  h.layout.inside k _ (slot_at hk)

lemma Inv.two_le (h : self.Inv ptr) (hk : ptr k = .at a) :
    poolHeader + allocationAlign ≤ a ∧ 0 < self.allocation (.at a) := by
  obtain ⟨p, hp, hlow, -, hpos⟩ := h.holds hk
  have := (h.layout.ok p hp).low
  dsimp only at hlow hpos
  exact ⟨by omega, hpos⟩

variable {other arena : Arena} {size : ℕ} {heap : Heap} {p : Pool}

section

variable (h : self.Inv ptr)
include h

lemma Inv.slot_of_same (k : κ)
    (hsame : ∀ a, ptr k = .at a → ∀ x, a ≤ x + allocationAlign → x < a → other.mem x = self.mem x) :
    other.slot (ptr k) = self.slot (ptr k) := by
  cases hk : ptr k with
  | empty => rfl
  | «at» a =>
    obtain ⟨hlow, hpos⟩ := h.two_le hk
    have hfrt := hsame a hk
    unfold poolHeader allocationAlign at *
    have hload : other.mem.load16 (a - 2) = self.mem.load16 (a - 2) :=
      Memory.load16_congr (hfrt _ (by omega) (by omega)) (hfrt _ (by omega) (by omega))
    exact congrArg (fun n => some (Slot.mk a n)) hload

lemma Inv.slot_of_keeps (hkp : self.Keeps mem ptr) (k : κ) (hmem : other.mem = mem) :
    other.slot (ptr k) = self.slot (ptr k) := by
  refine h.slot_of_same k fun a hk x hlow hhigh => ?_
  rw [hmem]
  exact hkp k _ (slot_at hk) x ⟨hlow, Nat.lt_add_right _ hhigh⟩

lemma Inv.of_mem (hsame : ∀ k a, ptr k = .at a → ∀ x, a ≤ x + allocationAlign → x < a → mem x = self.mem x) :
    { self with mem := mem }.Inv ptr := by
  have hslot : (fun k => { self with mem := mem }.slot (ptr k)) = fun k => self.slot (ptr k) :=
    funext fun k => h.slot_of_same k (hsame k)
  exact ⟨by rw [hslot]; exact h.layout, by rw [hslot]; exact h.top, h.embedded⟩

lemma Inv.of_keeps (hkp : self.Keeps mem ptr) : { self with mem := mem }.Inv ptr :=
  h.of_mem fun k _ hk x hlow hhigh => hkp k _ (slot_at hk) x ⟨hlow, Nat.lt_add_right _ hhigh⟩

lemma Inv.keeps_of_free (hsame : ∀ x, mem x ≠ self.mem x → self.head.base + self.head.used ≤ x ∧
      x < self.head.base + self.head.size) : self.Keeps mem ptr := by
  intro k t hk x hcvs
  by_contra hne
  obtain ⟨hlow, hhigh⟩ := hsame x hne
  exact h.layout.free hk hlow hhigh hcvs

lemma Inv.comp_equiv (e : Equiv.Perm κ) : self.Inv (ptr ∘ e) :=
  ⟨h.layout.comp_equiv e, fun k t hk hlast =>
    ⟨(h.top (e k) t hk hlast).1, fun j v hj hc => (h.top (e k) t hk hlast).2 (e j) v hj hc⟩, h.embedded⟩

lemma Inv.embedded_of_head (hprev : arena.prev = self.prev)
    (hbase : arena.head.base = self.head.base) (hemb : arena.embedded = self.embedded) (b : ℕ)
    (hb : arena.embedded = some b) : ∃ p ∈ arena.chain, p.base = b := by
  obtain ⟨p, hp, hpb⟩ := h.embedded b (hemb ▸ hb)
  rw [chain, hprev]
  rcases mem_cons.mp hp with rfl | hp
  · exact ⟨arena.head, mem_cons_self, hbase.trans hpb⟩
  · exact ⟨p, mem_cons_of_mem _ hp, hpb⟩

end

/-! ## Taking space -/

lemma le_makeRoomFor (n : ℕ) : n + allocationAlign ≤ makeRoomFor n allocationAlign := by
  unfold makeRoomFor allocationAlign
  omega

lemma le_alignFor (n : ℕ) : n ≤ alignFor n allocationAlign := by
  unfold alignFor allocationAlign
  omega

lemma Inv.claim_keeps (h : self.Inv ptr)
    (hroom : self.head.used + makeRoomFor n allocationAlign ≤ self.head.size) :
    self.Keeps (self.claim n).mem ptr := by
  have hn := le_makeRoomFor n
  refine h.keeps_of_free fun x hne => ?_
  by_contra hout
  refine hne (Memory.store16_of_outside ?_)
  unfold allocationAlign at *
  omega

lemma claim_allocation (hn : n < 2 ^ 16) :
    (self.claim n).allocation (.at (self.head.base + self.head.used + allocationAlign)) = n := by
  exact Memory.load16_store16 hn

lemma Inv.claim (h : self.Inv ptr) (hk : ptr k = .empty) (hpos : 0 < n) (hn : n < 2 ^ 16)
    (hroom : self.head.used + makeRoomFor n allocationAlign ≤ self.head.size) :
    (self.claim n).Inv (update ptr k (.at (self.head.base + self.head.used + allocationAlign))) := by
  have hkp := h.claim_keeps hroom
  have hslot : (fun j => (self.claim n).slot (update ptr k
        (.at (self.head.base + self.head.used + allocationAlign)) j)) =
      update (fun j => self.slot (ptr j)) k (some ⟨self.head.base + self.head.used + allocationAlign, n⟩) := by
    rw [slot_update, slot, claim_allocation hn]
    exact congrArg (update · k _) (funext fun j => h.slot_of_keeps hkp j rfl)
  have hemp : self.slot (ptr k) = none := by rw [hk, slot]
  refine ⟨?_, ?_, ?_⟩
  · rw [hslot]
    exact h.layout.claim hemp hroom (le_makeRoomFor n) hpos
  · rw [hslot]
    exact h.layout.claim_top hroom (le_makeRoomFor n)
  · exact h.embedded_of_head rfl rfl rfl

lemma extend_allocation (hfit : self.allocation (.at a) + g < 2 ^ 16) :
    (self.extend a g u).allocation (.at a) = self.allocation (.at a) + g :=
  Memory.load16_store16 hfit

lemma Inv.extend_same (h : self.Inv ptr) (hk : ptr k = .at a) (hne : j ≠ k)
    (hj : self.slot (ptr j) = some t) (hx : t.Covers x) : (self.extend a g u).mem x = self.mem x := by
  obtain ⟨hlow, hpos⟩ := h.two_le hk
  have hap := h.layout.disjoint j k t _ hne hj (slot_at hk)
  refine Memory.store16_of_outside ?_
  unfold Slot.Apart at hap
  unfold Slot.Covers at hx
  unfold poolHeader allocationAlign at *
  dsimp only at hap
  omega

lemma Inv.extend (h : self.Inv ptr) (hk : ptr k = .at a) (hlast : self.lastAlloc = some a)
    (hroom : self.head.used + u ≤ self.head.size) (hg : g ≤ u)
    (hfit : self.allocation (.at a) + g < 2 ^ 16) : (self.extend a g u).Inv ptr := by
  have hslot : (fun j => (self.extend a g u).slot (ptr j)) =
      update (fun j => self.slot (ptr j)) k (some ⟨a, self.allocation (.at a) + g⟩) := by
    funext j
    by_cases hjk : j = k
    · subst hjk
      rw [update_self, hk, slot, extend_allocation hfit]
    rw [update_of_ne hjk]
    exact h.slot_of_same j fun b hb x hlow hhigh =>
      h.extend_same hk hjk (slot_at hb) ⟨hlow, Nat.lt_add_right _ hhigh⟩
  refine ⟨?_, ?_, ?_⟩
  · rw [hslot]
    exact h.layout.grow h.top (slot_at hk) hlast hroom hg
  · rw [hslot]
    exact h.top.grow (slot_at hk) _ rfl rfl _
  · exact h.embedded_of_head rfl rfl rfl

/-! ## New pools -/

lemma succ_mul_le_two_pow_shiftCount (count size : ℕ) : (size + 1) * 2 ^ count ≤ 2 ^ shiftCount count size := by
  fun_induction shiftCount count size with
  | case1 count => simp
  | case2 count size hne ih =>
    have hhalf : size + 1 ≤ (size / 2 + 1) * 2 := by omega
    calc (size + 1) * 2 ^ count ≤ (size / 2 + 1) * 2 * 2 ^ count := Nat.mul_le_mul_right _ hhalf
      _ = (size / 2 + 1) * 2 ^ (count + 1) := by rw [Nat.mul_assoc, ← Nat.pow_succ']
      _ ≤ 2 ^ shiftCount (count + 1) (size / 2) := ih

lemma lt_optimalAllocSize (h : optimalAllocSize size ≤ 2 ^ 63) : size < optimalAllocSize size := by
  have hpow := succ_mul_le_two_pow_shiftCount 1 (size + allocatorOverhead)
  unfold optimalAllocSize at *
  unfold allocatorOverhead at *
  dsimp only at *
  split_ifs at * with hcnt <;> omega

lemma le_doubled (hpos : 0 < size) (toAlloc : ℕ) : toAlloc ≤ doubled size toAlloc := by
  fun_induction doubled size toAlloc with
  | case1 size h ih => exact ih (by omega)
  | case2 size h => omega

lemma Inv.addStringPool (h : self.Inv ptr) (hadd : self.addStringPool heap size = some arena) :
    arena.Inv ptr ∧ self.Keeps arena.mem ptr ∧ arena.head.used = 0 ∧ size ≤ arena.head.size := by
  obtain ⟨pool, hpool, rfl⟩ := map_eq_some_iff.mp hadd
  have hbel := heap.below hpool
  have hsize := lt_optimalAllocSize (Nat.le_trans (Nat.le_add_left _ _) hbel)
  have hblk : ∀ p ∈ self.chain, pool + optimalAllocSize (poolHeader + size) + poolHeader ≤ p.base ∨
      p.base + p.size ≤ pool := by
    intro p hp
    have hout := heap.apart hpool (p.base - poolHeader, poolHeader + p.size) (mem_map_of_mem hp)
    omega
  have hkp : self.Keeps (self.mem.zero pool (optimalAllocSize (poolHeader + size))) ptr := by
    intro k t hk x hx
    obtain ⟨p, hp, hh⟩ := h.layout.inside k t hk
    have hle := (h.layout.ok p hp).used_le
    have hout := hblk p hp
    unfold Pool.Holds at hh
    unfold Slot.Covers at hx
    exact Memory.zero_of_outside (by omega)
  have hinv := h.of_keeps hkp
  refine ⟨⟨?_, ?_, ?_⟩, hkp, rfl, ?_⟩
  · refine hinv.layout.cons ?_ ?_ ?_ rfl rfl fun p hp => ?_
    · dsimp only
      omega
    · exact Nat.le_add_left _ _
    · dsimp only
      omega
    · have hout := hblk p hp
      unfold Pool.Apart
      dsimp only
      omega
  · intro k t _ hlast
    cases hlast
  · intro b hb
    obtain ⟨p, hp, hbase⟩ := h.embedded b hb
    exact ⟨p, mem_cons_of_mem _ hp, hbase⟩
  · dsimp only
    omega

def behind (self : Arena) (n : ℕ) : List Pool :=
  if self.head.space < makeRoomFor n allocationAlign then self.chain else self.prev

lemma allocSpace_isSome_congr (self : Arena) (mem : Memory) (heap : Heap) (n : ℕ) :
    ({ self with mem := mem }.allocSpace heap n).isSome = (self.allocSpace heap n).isSome := by
  simp only [Arena.allocSpace]
  split_ifs
  · simp only [Arena.addStringPool, isSome_map]
    rfl
  · rfl

lemma Inv.space_eq (h : self.Inv ptr) : self.head.space = self.head.size - self.head.used := by
  have hok := h.layout.ok self.head mem_cons_self
  have hhigh := hok.high
  exact sizeSub_of_le hok.used_le (by omega)

lemma Inv.allocSpace (h : self.Inv ptr) (hk : ptr k = .empty) (hpos : 0 < n) (hn : n < 2 ^ 16)
    (hal : self.allocSpace heap n = some (arena, a)) :
    arena.Inv (update ptr k (.at a)) ∧ self.Keeps arena.mem ptr ∧ arena.allocation (.at a) = n ∧
      arena.embedded = self.embedded ∧ arena.prev = self.behind n := by
  have hspc := h.space_eq
  have hok := h.layout.ok self.head mem_cons_self
  simp only [Arena.allocSpace] at hal
  unfold behind
  by_cases hfull : self.head.space < makeRoomFor n allocationAlign
  · rw [if_pos hfull] at hal ⊢
    obtain ⟨added, hadd, heq⟩ := map_eq_some_iff.mp hal
    obtain ⟨rfl, rfl⟩ := Prod.mk.inj heq
    obtain ⟨hinv, hkp, hused, hsize⟩ := h.addStringPool hadd
    have hroom : added.head.used + makeRoomFor n allocationAlign ≤ added.head.size := by
      have := le_doubled hok.size_pos (makeRoomFor n allocationAlign)
      omega
    obtain ⟨pool, -, rfl⟩ := map_eq_some_iff.mp hadd
    refine ⟨hinv.claim hk hpos hn hroom, ?_, claim_allocation hn, rfl, rfl⟩
    intro j t hj x hx
    rw [← hkp j t hj x hx]
    exact hinv.claim_keeps hroom j t ((h.slot_of_keeps hkp j rfl).trans hj) x hx
  · rw [if_neg hfull] at hal ⊢
    obtain ⟨rfl, rfl⟩ := Prod.mk.inj (Option.some.inj hal)
    have hroom : self.head.used + makeRoomFor n allocationAlign ≤ self.head.size := by
      have := hok.used_le
      omega
    exact ⟨h.claim hk hpos hn hroom, h.claim_keeps hroom, claim_allocation hn, rfl, rfl⟩

/-! ## Giving space back -/

def LastOf (self : Arena) (p : Pool) : FieldPtr → Prop
  | .empty => False
  | .at a => p.Contains a ∧ p.active = self.allocation (.at a)

instance (self : Arena) (p : Pool) : DecidablePred (self.LastOf p)
  | .empty => by unfold LastOf; infer_instance
  | .at a => by unfold LastOf; infer_instance

lemma lastOf_congr {q : FieldPtr} (h : other.allocation q = self.allocation q) :
    other.LastOf p q ↔ self.LastOf p q := by
  cases q with
  | empty => exact Iff.rfl
  | «at» a => simp [LastOf, h]

lemma releaseBehind_eq (embedded : Option ℕ) (a n : ℕ) {l : List Pool} (h : ∃ p ∈ l, p.Contains a) :
    ∃ l₁ p l₂, l = l₁ ++ p :: l₂ ∧ p.Contains a ∧
      releaseBehind embedded a n l =
        if sizeSub p.active n = 0 then
          if embedded = some p.base then none else some (l₁ ++ l₂)
        else some (l₁ ++ { p with active := sizeSub p.active n } :: l₂) := by
  induction l with
  | nil => simp at h
  | cons q l ih =>
    by_cases hq : q.Contains a
    · refine ⟨[], q, l, rfl, hq, ?_⟩
      rw [releaseBehind, if_pos hq]
      rfl
    have hrest : ∃ p ∈ l, p.Contains a := by
      obtain ⟨p, hp, hc⟩ := h
      rcases mem_cons.mp hp with rfl | hp
      · exact absurd hc hq
      · exact ⟨p, hp, hc⟩
    obtain ⟨l₁, p, l₂, rfl, hc, heq⟩ := ih hrest
    refine ⟨q :: l₁, p, l₂, rfl, hc, ?_⟩
    rw [releaseBehind, heq]
    split_ifs <;> rfl

section

variable (h : self.Inv ptr)
include h

lemma Inv.release_active (hk : ptr k = .at a) (hp : p ∈ self.chain) (hc : p.Contains a) :
    self.allocation (.at a) ≤ p.active ∧
      sizeSub p.active (self.allocation (.at a)) = p.active - self.allocation (.at a) := by
  have hok := h.layout.ok p hp
  have hle : self.allocation (.at a) ≤ p.active := by
    rw [hok.active]
    have hone := Finset.single_le_sum (f := fun j => p.share (self.slot (ptr j)))
      (fun _ _ => Nat.zero_le _) (Finset.mem_univ k)
    rwa [slot_at hk, Pool.share_of_contains hc] at hone
  have h₁ := hok.active_le
  have h₂ := hok.used_le
  have h₃ := hok.high
  exact ⟨hle, sizeSub_of_le hle (by omega)⟩

lemma Inv.of_released (hmem : arena.mem = self.mem)
    (hlast : arena.lastAlloc = self.lastAlloc) (hbase : arena.head.base = self.head.base)
    (hsize : arena.head.size = self.head.size)
    (hlayout : Layout arena.chain (update (fun j => self.slot (ptr j)) k none))
    (hemb : ∀ b, arena.embedded = some b → ∃ p ∈ arena.chain, p.base = b) :
    arena.Inv (update ptr k .empty) := by
  have hslot : (fun j => arena.slot (update ptr k .empty j)) = update (fun j => self.slot (ptr j)) k none := by
    rw [slot_update]
    refine congrArg (update · k none) (funext fun j => h.slot_of_same j fun _ _ x _ _ => ?_)
    rw [hmem]
  refine ⟨by rw [hslot]; exact hlayout, ?_, hemb⟩
  rw [hslot, hlast]
  exact h.top.release _ hbase hsize

lemma Inv.releaseActive_head (hk : ptr k = .at a) (hhead : self.head.Contains a) :
    ∃ arena, self.releaseActive (.at a) = some arena ∧ arena.Inv (update ptr k .empty) ∧ arena.mem = self.mem := by
  obtain ⟨hle, hsub⟩ := h.release_active hk mem_cons_self hhead
  simp only [Arena.releaseActive]
  rw [if_pos hhead, hsub]
  refine ⟨_, rfl, ?_, rfl⟩
  refine h.of_released rfl rfl rfl rfl ?_ (h.embedded_of_head rfl rfl rfl)
  refine @Layout.release κ _ [] self.prev self.head _ k _ _ _ h.layout (slot_at hk) hhead ?_
  split_ifs with hidle
  · exact .inr ⟨rfl, by dsimp only; omega⟩
  · exact .inl rfl

lemma Inv.releaseActive_behind (hk : ptr k = .at a) (hhead : ¬ self.head.Contains a)
    (hsafe : ∀ p ∈ self.prev, self.embedded = some p.base → ¬ self.LastOf p (.at a)) :
    ∃ arena, self.releaseActive (.at a) = some arena ∧ arena.Inv (update ptr k .empty) ∧ arena.mem = self.mem := by
  have hbeh : ∃ p ∈ self.prev, p.Contains a := by
    obtain ⟨p, hp, hh⟩ := h.holds hk
    have hc := hh.contains (h.layout.ok p hp).used_le
    rcases mem_cons.mp hp with rfl | hp
    · exact absurd hc hhead
    · exact ⟨p, hp, hc⟩
  obtain ⟨l₁, p, l₂, hprev, hc, hrel⟩ :=
    releaseBehind_eq self.embedded a (self.allocation (.at a)) hbeh
  have hp : p ∈ self.prev := by simp [hprev]
  have hlayout : Layout ((self.head :: l₁) ++ p :: l₂) fun j => self.slot (ptr j) := by
    have := h.layout
    rwa [chain, hprev] at this
  have hchn : ∀ q ∈ self.chain, q ≠ p → q ∈ self.head :: (l₁ ++ l₂) := by
    intro q hq hne
    rw [chain, hprev] at hq
    simp only [mem_cons, mem_append] at hq ⊢
    tauto
  obtain ⟨hle, hsub⟩ := h.release_active hk (mem_cons_of_mem _ hp) hc
  simp only [Arena.releaseActive]
  rw [if_neg hhead, hrel, hsub]
  by_cases hidle : p.active - self.allocation (.at a) = 0
  · have hlast : self.LastOf p (.at a) := ⟨hc, by omega⟩
    have hoth : self.embedded ≠ some p.base := fun hb => hsafe p hp hb hlast
    rw [if_pos hidle, if_neg hoth]
    refine ⟨_, rfl, ?_, rfl⟩
    refine h.of_released rfl rfl rfl rfl ?_ ?_
    · exact hlayout.release_drop (slot_at hk) hc (by dsimp only; omega)
    · intro b hb
      obtain ⟨q, hq, rfl⟩ := h.embedded b hb
      refine ⟨q, hchn q hq ?_, rfl⟩
      rintro rfl
      exact hoth hb
  rw [if_neg hidle]
  refine ⟨_, rfl, ?_, rfl⟩
  refine h.of_released rfl rfl rfl rfl ?_ ?_
  · exact hlayout.release (slot_at hk) hc (.inl rfl)
  intro b hb
  obtain ⟨q, hq, hbase⟩ := h.embedded b hb
  by_cases hqp : q = p
  · exact ⟨{ p with active := p.active - self.allocation (.at a) }, by simp [chain], hqp ▸ hbase⟩
  refine ⟨q, ?_, hbase⟩
  have := hchn q hq hqp
  simp only [chain, mem_cons, mem_append] at this ⊢
  tauto

lemma Inv.releaseActive (k : κ) (hsafe : ∀ p ∈ self.prev, self.embedded = some p.base → ¬ self.LastOf p (ptr k)) :
    ∃ arena, self.releaseActive (ptr k) = some arena ∧ arena.Inv (update ptr k .empty) ∧ arena.mem = self.mem := by
  cases hk : ptr k with
  | empty =>
    refine ⟨self, rfl, ?_, rfl⟩
    rwa [← hk, update_eq_self]
  | «at» a =>
    rw [hk] at hsafe
    by_cases hhead : self.head.Contains a
    · exact h.releaseActive_head hk hhead
    · exact h.releaseActive_behind hk hhead hsafe

lemma Inv.reset : ∃ arena, self.reset = some arena ∧ arena.Inv fun _ : κ => .empty := by
  -- the pool that is kept, with the embedded one among the pools
  have hkept : ∃ p ∈ self.chain, (∀ b, self.embedded = some b → p.base = b) ∧
      self.reset = some { self with head := { p with used := 0, active := 0 }, prev := [] } := by
    simp only [Arena.reset]
    cases hemb : self.embedded with
    | none => exact ⟨self.head, mem_cons_self, by simp, rfl⟩
    | some b =>
      obtain ⟨q, hq, hbase⟩ := h.embedded b hemb
      have hfnd : (self.chain.find? fun p => p.base = b).isSome := by
        rw [find?_isSome]
        exact ⟨q, hq, by simpa using hbase⟩
      obtain ⟨p, hp⟩ := isSome_iff_exists.mp hfnd
      have hpb : p.base = b := by simpa using find?_some hp
      refine ⟨p, mem_of_find?_eq_some hp, ?_, by dsimp only; rw [hp]; rfl⟩
      rintro c ⟨⟩
      exact hpb
  obtain ⟨p, hp, hembe, hreset⟩ := hkept
  have hok := h.layout.ok p hp
  refine ⟨_, hreset, Layout.single hok.size_pos hok.low hok.high rfl rfl, ?_, ?_⟩
  · intro k t hk
    cases hk
  · intro b hb
    exact ⟨_, mem_cons_self, hembe b hb⟩

end

end Arena

end Arena

end Telephony.StringFields
