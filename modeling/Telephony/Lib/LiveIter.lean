import Mathlib.Data.List.Sublists

/-!
# Iterating over a list that changes

A list of keyed entries, some of them empty, is edited while an iteration goes through it. The
iteration only remembers the key it returned last; that entry stays in the list. Keys are never used
again.
-/

namespace Telephony.Lib

open List

section Sublists

variable {κ : Type*} {p : κ}

lemma filter_mem_of_sublist [DecidableEq κ] {l' l : List κ} (h : l'.Sublist l) (hnd : l.Nodup) :
    l.filter (fun k => k ∈ l') = l' := by
  induction h with
  | slnil => rfl
  | @cons l₁ l₂ a hsub ih =>
    rw [nodup_cons] at hnd
    have ha : a ∉ l₁ := fun hmem => hnd.1 (hsub.subset hmem)
    rw [filter_cons_of_neg (by simpa using ha), ih hnd.2]
  | @cons_cons l₁ l₂ a hsub ih =>
    rw [nodup_cons] at hnd
    have hcongr : l₂.filter (fun k => k ∈ a :: l₁) = l₂.filter (fun k => k ∈ l₁) := by
      refine filter_congr fun k hk => ?_
      have hne : k ≠ a := by
        rintro rfl
        exact hnd.1 hk
      simp [hne]
    rw [filter_cons_of_pos (by simp), hcongr, ih hnd.2]

lemma cons_sublist_split {s a b : List κ} (ha : p ∉ a) : (p :: s).Sublist (a ++ p :: b) ↔ s.Sublist b := by
  induction a with
  | nil => exact cons_sublist_cons
  | cons k a ih =>
    rw [mem_cons, not_or] at ha
    rw [← ih ha.2]
    exact ⟨fun h => h.of_cons_of_ne ha.1, fun h => h.cons k⟩

lemma concat_sublist_split {s a b : List κ} (hb : p ∉ b) : (s ++ [p]).Sublist (a ++ p :: b) ↔ s.Sublist a := by
  have hrev : (p :: s.reverse).Sublist (b.reverse ++ p :: a.reverse) ↔ s.reverse.Sublist a.reverse :=
    cons_sublist_split (by simpa using hb)
  rw [reverse_sublist] at hrev
  rw [← hrev, ← reverse_sublist]
  simp

end Sublists

/-! ## The iteration -/

section Iteration

variable {κ β : Type*} [DecidableEq κ]

def afterPos (l : List (κ × Option β)) : Option κ → List (κ × Option β)
  | none => l
  | some k => (l.dropWhile fun e => e.1 ≠ k).tail

def advance (l : List (κ × Option β)) (pos : Option κ) : Option (κ × β) :=
  (afterPos l pos).findSome? fun e => e.2.map (e.1, ·)

/-- An iteration: the key returned last, whether it is complete, and what it returned so far. -/
structure Iteration (κ β : Type*) where
  pos : Option κ
  complete : Bool
  out : List (κ × β)

def Iteration.start : Iteration κ β := ⟨none, false, []⟩

def Iteration.next (s : Iteration κ β) (l : List (κ × Option β)) : Iteration κ β :=
  if s.complete then s
  else
    match advance l s.pos with
    | some e => ⟨some e.1, false, s.out ++ [e]⟩
    | none => ⟨none, true, s.out⟩

variable {k p : κ} {l : List (κ × Option β)} {e : κ × Option β} {pos : Option κ} {v : β}

lemma afterPos_eq {a b : List (κ × Option β)} {o : Option β} (ha : k ∉ a.map Prod.fst) :
    afterPos (a ++ (k, o) :: b) (some k) = b := by
  have hdrop : (a ++ (k, o) :: b).dropWhile (fun e => e.1 ≠ k) = (k, o) :: b := by
    induction a with
    | nil => simp
    | cons e a ih =>
      simp only [map_cons, mem_cons, not_or] at ha
      rw [cons_append, dropWhile_cons_of_pos (by simpa using fun h => ha.1 h.symm), ih ha.2]
  rw [afterPos, hdrop, tail_cons]

lemma afterPos_append {p m q : List (κ × Option β)} (hp : k ∉ p.map Prod.fst) (hm : k ∈ m.map Prod.fst) :
    afterPos (p ++ (m ++ q)) (some k) = afterPos m (some k) ++ q := by
  induction p with
  | nil =>
    induction m with
    | nil => simp at hm
    | cons e m ih =>
      by_cases hk : e.1 = k
      · simp [afterPos, hk]
      · have hm' : k ∈ m.map Prod.fst := (mem_cons.mp hm).resolve_left (Ne.symm hk)
        simpa [afterPos, hk] using ih hm'
  | cons e p ih =>
    simp only [map_cons, mem_cons, not_or] at hp
    simpa [afterPos, Ne.symm hp.1] using ih hp.2

lemma mem_afterPos_iff (hnd : (l.map Prod.fst).Nodup) (hp : p ∈ l.map Prod.fst) (he : e ∈ l) :
    e ∈ afterPos l (some p) ↔ [p, e.1].Sublist (l.map Prod.fst) := by
  obtain ⟨⟨p, o⟩, hmem, rfl⟩ := mem_map.mp hp
  obtain ⟨a, b, rfl⟩ := append_of_mem hmem
  rw [map_append, map_cons] at hnd ⊢
  obtain ⟨-, hndb, hdisj⟩ := nodup_append.mp hnd
  have ha : p ∉ a.map Prod.fst := fun h => hdisj p h p mem_cons_self rfl
  rw [afterPos_eq ha, cons_sublist_split ha, singleton_sublist]
  constructor
  · intro heb
    exact mem_map_of_mem heb
  · intro heb
    rcases mem_append.mp he with hea | hea
    · exact absurd rfl (hdisj e.1 (mem_map_of_mem hea) e.1 (mem_cons_of_mem _ heb))
    · rcases mem_cons.mp hea with rfl | hea
      · exact absurd heb (nodup_cons.mp hndb).1
      · exact hea

lemma mem_of_mem_afterPos (h : e ∈ afterPos l pos) : e ∈ l := by
  cases pos with
  | none => exact h
  | some p => exact (dropWhile_sublist _).subset (mem_of_mem_tail h)

lemma advance_eq_some (h : advance l pos = some (k, v)) :
    ∃ a b, afterPos l pos = a ++ (k, some v) :: b ∧ ∀ e ∈ a, e.2 = none := by
  obtain ⟨a, ⟨k', o⟩, b, hlist, hval, hnone⟩ := findSome?_eq_some_iff.mp h
  obtain ⟨v', rfl, heq⟩ := Option.map_eq_some_iff.mp hval
  obtain ⟨rfl, rfl⟩ := heq
  exact ⟨a, b, hlist, fun e he => by simpa using hnone e he⟩

lemma advance_eq_none (h : advance l pos = none) (he : e ∈ afterPos l pos) : e.2 = none := by
  simpa using findSome?_eq_none_iff.mp h e he

/-! ## What holds throughout -/

/-- An edit of the list: keys are added that were not seen before, or keys are taken away. -/
structure Edit (seen : κ → Prop) (l l' : List (κ × Option β)) : Prop where
  nodup : (l'.map Prod.fst).Nodup
  unseen : ∀ k ∈ l'.map Prod.fst, seen k → k ∈ l.map Prod.fst
  order : (l.map Prod.fst).Sublist (l'.map Prod.fst) ∨ (l'.map Prod.fst).Sublist (l.map Prod.fst)

section Edits

omit [DecidableEq κ]

variable {seen : κ → Prop} {l l' : List (κ × Option β)}

lemma Edit.of_insert {p q : List κ} {k : κ} (hnd : (l.map Prod.fst).Nodup)
    (hseen : ∀ j ∈ l.map Prod.fst, seen j) (hk : ¬seen k) (hl : l.map Prod.fst = p ++ q)
    (hl' : l'.map Prod.fst = p ++ k :: q) : Edit seen l l' := by
  refine ⟨?_, ?_, Or.inl ?_⟩
  · rw [hl', perm_middle.nodup_iff, nodup_cons, ← hl]
    exact ⟨fun hmem => hk (hseen k hmem), hnd⟩
  · intro j hj hjseen
    rw [hl', perm_middle.mem_iff, mem_cons, ← hl] at hj
    rcases hj with rfl | hj
    · exact absurd hjseen hk
    · exact hj
  · rw [hl, hl']
    exact (List.Sublist.refl p).append (sublist_cons_self k q)

lemma Edit.of_sublist (hnd : (l.map Prod.fst).Nodup)
    (hsub : (l'.map Prod.fst).Sublist (l.map Prod.fst)) : Edit seen l l' :=
  ⟨hnd.sublist hsub, fun _ hk _ => hsub.subset hk, .inr hsub⟩

lemma Edit.reverse (h : Edit seen l l') : Edit seen l.reverse l'.reverse := by
  refine ⟨?_, ?_, ?_⟩
  · rw [map_reverse, nodup_reverse]
    exact h.nodup
  · intro k hk
    rw [map_reverse, mem_reverse] at hk ⊢
    exact h.unseen k hk
  · rw [map_reverse, map_reverse, reverse_sublist, reverse_sublist]
    exact h.order

end Edits

structure Iteration.Inv (s : Iteration κ β) (l : List (κ × Option β)) (seen : κ → Prop) : Prop where
  nodup : (l.map Prod.fst).Nodup
  seen_list : ∀ k ∈ l.map Prod.fst, seen k
  seen_out : ∀ k ∈ s.out.map Prod.fst, seen k
  nodup_out : (s.out.map Prod.fst).Nodup
  order : ((s.out.map Prod.fst).filter (fun k => k ∈ l.map Prod.fst)).Sublist (l.map Prod.fst)
  last : s.complete = false → s.pos = (s.out.map Prod.fst).getLast?
  pinned : ∀ k, s.pos = some k → k ∈ l.map Prod.fst

def Iteration.Pending (s : Iteration κ β) (l : List (κ × Option β)) (k : κ) (v : β) : Prop :=
  (k, v) ∈ s.out ∨ s.complete = false ∧ (k, some v) ∈ afterPos l s.pos

lemma Iteration.Inv.init {seen : κ → Prop} (hnd : (l.map Prod.fst).Nodup)
    (hseen : ∀ k ∈ l.map Prod.fst, seen k) :
    Iteration.Inv Iteration.start l seen :=
  ⟨hnd, hseen, by simp [start], by simp [start], by simp [start], fun _ => rfl, by simp [start]⟩

variable {s : Iteration κ β} {l l' : List (κ × Option β)} {seen seen' : κ → Prop}

lemma sublist_of_shrink {t a b : List κ} (hb : b.Nodup) (hab : a.Sublist b) (ht : t.Sublist b)
    (hmem : ∀ k ∈ t, k ∈ a) : t.Sublist a := by
  have hflt := ht.filter (fun k => decide (k ∈ a))
  rwa [filter_mem_of_sublist hab hb, filter_eq_self.mpr (by simpa using hmem)] at hflt

lemma Iteration.Inv.edit (h : s.Inv l seen) (hedit : Edit seen l l')
    (hpos : ∀ k, s.pos = some k → k ∈ l'.map Prod.fst) (hseen : ∀ k, seen k → seen' k)
    (hseen' : ∀ k ∈ l'.map Prod.fst, seen' k) : s.Inv l' seen' := by
  refine ⟨hedit.nodup, hseen', fun k hk => hseen k (h.seen_out k hk), h.nodup_out, ?_, h.last, hpos⟩
  rcases hedit.order with hgrow | hshr
  · have hsame : (s.out.map Prod.fst).filter (fun k => k ∈ l'.map Prod.fst) =
        (s.out.map Prod.fst).filter (fun k => k ∈ l.map Prod.fst) := by
      refine filter_congr fun k hk => ?_
      rw [decide_eq_decide]
      exact ⟨fun hk' => hedit.unseen k hk' (h.seen_out k hk), fun hk' => hgrow.subset hk'⟩
    rw [hsame]
    exact h.order.trans hgrow
  · refine sublist_of_shrink h.nodup hshr ?_ fun k hk => by simpa using (mem_filter.mp hk).2
    refine List.Sublist.trans ?_ h.order
    refine monotone_filter_right _ fun k hk => ?_
    simp only [decide_eq_true_eq] at hk ⊢
    exact hshr.subset hk

lemma Iteration.Pending.edit (hp : s.Pending l k v) (h : s.Inv l seen) (hedit : Edit seen l l')
    (hpos : ∀ k, s.pos = some k → k ∈ l'.map Prod.fst) (hstay : (k, some v) ∈ l') : s.Pending l' k v := by
  refine hp.imp id fun ⟨hall, haft⟩ => ⟨hall, ?_⟩
  cases hs : s.pos with
  | none => exact hstay
  | some p =>
    rw [hs] at haft
    have hmem := mem_of_mem_afterPos haft
    have hpair := (mem_afterPos_iff h.nodup (h.pinned p hs) hmem).mp haft
    refine (mem_afterPos_iff hedit.nodup (hpos p hs) hstay).mpr ?_
    rcases hedit.order with hgrow | hshr
    · exact hpair.trans hgrow
    refine sublist_of_shrink h.nodup hshr hpair fun j hj => ?_
    rcases mem_cons.mp hj with rfl | hj
    · exact hpos j hs
    · rw [mem_singleton.mp hj]
      exact mem_map_of_mem hstay

lemma Iteration.Inv.order_next (h : s.Inv l seen) (hall : s.complete = false)
    (hnext : advance l s.pos = some (k, v)) :
    ((s.out.map Prod.fst).filter (fun k => k ∈ l.map Prod.fst) ++ [k]).Sublist (l.map Prod.fst) := by
  obtain ⟨a, b, haft, -⟩ := advance_eq_some hnext
  have hke : (k, some v) ∈ afterPos l s.pos := by
    rw [haft]
    simp
  have hkl := mem_of_mem_afterPos hke
  have hlast := h.last hall
  cases hs : s.pos with
  | none =>
    rw [hs] at hlast
    rw [getLast?_eq_none_iff.mp hlast.symm]
    simpa using ⟨_, hkl⟩
  | some p =>
    rw [hs] at hlast hke
    have hpl := h.pinned p hs
    have hpair := (mem_afterPos_iff h.nodup hpl hkl).mp hke
    obtain ⟨t, ht⟩ := getLast?_eq_some_iff.mp hlast.symm
    have hord := h.order
    have hnd := h.nodup
    rw [ht, filter_append] at hord ⊢
    simp only [filter_cons, hpl, decide_true, if_true, filter_nil] at hord ⊢
    obtain ⟨c, d, hcd⟩ := append_of_mem hpl
    rw [hcd] at hord hpair hnd ⊢
    obtain ⟨-, hndd, hdisj⟩ := nodup_append.mp hnd
    have hc : p ∉ c := fun hpc => hdisj p hpc p mem_cons_self rfl
    rw [cons_sublist_split hc] at hpair
    rw [concat_sublist_split (nodup_cons.mp hndd).1] at hord
    rw [append_assoc]
    exact hord.append (hpair.cons_cons p)

lemma Iteration.Inv.next (h : s.Inv l seen) : (s.next l).Inv l seen := by
  cases hall : s.complete with
  | true =>
    have hsame : s.next l = s := by simp [Iteration.next, hall]
    rwa [hsame]
  | false =>
    cases hnext : advance l s.pos with
    | none =>
      have heq : s.next l = ⟨none, true, s.out⟩ := by simp [Iteration.next, hall, hnext]
      rw [heq]
      exact { h with last := by simp, pinned := by simp }
    | some e =>
      obtain ⟨k, v⟩ := e
      have heq : s.next l = ⟨some k, false, s.out ++ [(k, v)]⟩ := by simp [Iteration.next, hall, hnext]
      have hord := h.order_next hall hnext
      have hkl : k ∈ l.map Prod.fst := hord.subset (by simp)
      have hfr : k ∉ s.out.map Prod.fst := by
        intro hk
        have hnd := h.nodup.sublist hord
        rw [nodup_append] at hnd
        exact hnd.2.2 k (mem_filter.mpr ⟨hk, by simpa using hkl⟩) k (by simp) rfl
      rw [heq]
      refine ⟨h.nodup, h.seen_list, ?_, ?_, ?_, ?_, ?_⟩
      · intro j hj
        simp only [map_append, mem_append, map_cons, map_nil, mem_singleton] at hj
        rcases hj with hj | rfl
        · exact h.seen_out j hj
        · exact h.seen_list j hkl
      · rw [map_append, nodup_append]
        refine ⟨h.nodup_out, by simp, ?_⟩
        rintro a ha b hb rfl
        simp only [map_cons, map_nil, mem_singleton] at hb
        exact hfr (hb ▸ ha)
      · simpa [hkl] using hord
      · simp
      · rintro j hj
        simp only [Option.some.injEq] at hj
        exact hj ▸ hkl

lemma Iteration.Pending.next (hp : s.Pending l k v) (h : s.Inv l seen) : (s.next l).Pending l k v := by
  rcases hp with hout | ⟨hall, haft⟩
  · left
    unfold Iteration.next
    split_ifs
    · exact hout
    · split
      · exact mem_append_left _ hout
      · exact hout
  cases hnext : advance l s.pos with
  | none => simpa using advance_eq_none hnext haft
  | some e =>
    obtain ⟨j, w⟩ := e
    have heq : s.next l = ⟨some j, false, s.out ++ [(j, w)]⟩ := by simp [Iteration.next, hall, hnext]
    obtain ⟨a, b, hlist, hnone⟩ := advance_eq_some hnext
    have hjafter : (j, some w) ∈ afterPos l s.pos := by
      rw [hlist]
      simp
    have hjl := mem_of_mem_afterPos hjafter
    rw [heq]
    rw [hlist] at haft
    rcases mem_append.mp haft with hka | hka
    · simpa using hnone _ hka
    rcases mem_cons.mp hka with heq | hkb
    · left
      simp only [Prod.mk.injEq, Option.some.injEq] at heq
      simp [heq.1, heq.2]
    right
    refine ⟨rfl, ?_⟩
    have hsub : (afterPos l s.pos).Sublist l := by
      cases s.pos with
      | none => exact List.Sublist.refl _
      | some p => exact (tail_sublist _).trans (dropWhile_sublist _)
    rw [hlist] at hsub
    have hkl : (k, some v) ∈ l := hsub.subset (by simp [hkb])
    refine (mem_afterPos_iff h.nodup (mem_map_of_mem hjl) hkl).mpr ?_
    have hpair : [(j, some w), (k, some v)].Sublist l :=
      List.Sublist.trans (List.Sublist.trans ((singleton_sublist.mpr hkb).cons_cons _)
        (sublist_append_right a _)) hsub
    exact hpair.map Prod.fst

end Iteration

end Telephony.Lib
