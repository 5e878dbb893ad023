import Mathlib.Data.List.GetD
import Telephony.Formats.Capabilities

/-!
# Both views of a set of formats are the same

What a set of formats is for: a list of formats in the order of preference, with one format for each
codec at most (`Entry`). Each object is referred to twice, once in each view.
-/

namespace Telephony.Formats

open Lib List Function
open Option (bind_eq_bind bind_some)

variable {F : Type} {api : FormatApi F}

/-! ## What a set holds -/

structure Entry (F : Type) where
  id : ℕ
  format : F
  framing : ℕ

def Entry.codec (api : FormatApi F) (e : Entry F) : ℕ := api.codecId e.format

def Shows (objects : Objects F) (e : Entry F) : Prop := ∃ refs, objects e.id = some ⟨e.format, e.framing, refs⟩

def ofCodec (api : FormatApi F) (es : List (Entry F)) (k : ℕ) : List (Entry F) := es.filter fun e => e.codec api = k

structure Cap.Holds (api : FormatApi F) (cap : Cap F) (es : List (Entry F)) : Prop where
  order : cap.preferenceOrder = es.map Entry.id
  lists : ∀ k, cap.formats.getD k [] = (ofCodec api es k).map Entry.id
  objects : ∀ e ∈ es, cap.objects e.id = some ⟨e.format, e.framing, 2⟩
  gone : ∀ i, i ∉ es.map Entry.id → cap.objects i = none
  ids : (es.map Entry.id).Nodup
  codecs : (es.map (Entry.codec api)).Nodup
  fresh : ∀ e ∈ es, e.id < cap.next

variable {cap : Cap F} {es : List (Entry F)} {objects : Objects F}

lemma Cap.Holds.shows (h : cap.Holds api es) : ∀ e ∈ es, Shows cap.objects e := fun e he => ⟨2, h.objects e he⟩

lemma init_holds : (Cap.init F).Holds api [] where
  order := rfl
  lists := fun _ => rfl
  objects := nofun
  gone := fun _ _ => rfl
  ids := nodup_nil
  codecs := nodup_nil
  fresh := nofun

variable {e : Entry F} {k : ℕ} {α β : Type} {front back : List α} {formats : List (List ℕ)} {f : F} {w : World F}
  {act : F → ℕ → Cap F → Option (Cap F)}

lemma Cap.Holds.codec_lt (h : cap.Holds api es) (he : e ∈ es) : e.codec api < cap.formats.length := by
  by_contra hle
  have hlist := h.lists (e.codec api)
  rw [getD_eq_default _ _ (Nat.le_of_not_lt hle)] at hlist
  have hmem : e ∈ ofCodec api es (e.codec api) := mem_filter.mpr ⟨he, by simp⟩
  rw [map_eq_nil_iff.mp hlist.symm] at hmem
  exact not_mem_nil hmem

lemma ofCodec_append (es es' : List (Entry F)) (k : ℕ) :
    ofCodec api (es ++ es') k = ofCodec api es k ++ ofCodec api es' k := filter_append _ _

lemma ofCodec_cons (e : Entry F) (es : List (Entry F)) (k : ℕ) :
    ofCodec api (e :: es) k = if e.codec api = k then e :: ofCodec api es k else ofCodec api es k := by
  split_ifs with hk
  · exact filter_cons_of_pos (decide_eq_true hk)
  · exact filter_cons_of_neg fun heq => hk (of_decide_eq_true heq)

lemma ofCodec_eq_nil (h : ∀ e ∈ es, e.codec api ≠ k) : ofCodec api es k = [] :=
  filter_eq_nil_iff.mpr fun e he => by simpa using h e he

lemma ne_of_nodup_map {g : α → β} {e : α} (h : ((front ++ e :: back).map g).Nodup) :
    ∀ e' ∈ front ++ back, g e' ≠ g e := by
  rw [map_append, map_cons, nodup_middle, nodup_cons, ← map_append] at h
  exact fun e' he' heq => h.1 (heq ▸ mem_map_of_mem he')

lemma forall_mem_middle {p : α → Prop} {e : α} :
    (∀ e' ∈ front ++ e :: back, p e') ↔ (∀ e' ∈ front, p e') ∧ p e ∧ ∀ e' ∈ back, p e' := by
  rw [forall_mem_append, forall_mem_cons]

lemma Cap.Holds.ofCodec_eq (h : cap.Holds api es) (he : e ∈ es) : ofCodec api es (e.codec api) = [e] := by
  obtain ⟨front, back, rfl⟩ := append_of_mem he
  have hoth := ofCodec_eq_nil (ne_of_nodup_map h.codecs)
  rw [ofCodec_append, append_eq_nil_iff] at hoth
  rw [ofCodec_append, ofCodec_cons, if_pos rfl, hoth.1, hoth.2, nil_append]

lemma Cap.Holds.ofCodec_cases (h : cap.Holds api es) (k : ℕ) :
    (∃ e ∈ es, e.codec api = k ∧ ofCodec api es k = [e]) ∨ (∀ e ∈ es, e.codec api ≠ k) ∧ ofCodec api es k = [] := by
  by_cases hk : ∃ e ∈ es, e.codec api = k
  · obtain ⟨e, he, rfl⟩ := hk
    exact .inl ⟨e, he, rfl, h.ofCodec_eq he⟩
  · push Not at hk
    exact .inr ⟨hk, ofCodec_eq_nil hk⟩

/-! ## Adding -/

lemma formatInFormatCap_cases (h : ∀ e ∈ es, Shows objects e) (f : F) :
    ((∃ e ∈ es, e.codec api = api.codecId f) ∧ formatInFormatCap api objects f (es.map Entry.id) = some true) ∨
      ((∀ e ∈ es, e.codec api ≠ api.codecId f) ∧ formatInFormatCap api objects f (es.map Entry.id) = some false) := by
  induction es with
  | nil => exact .inr ⟨nofun, rfl⟩
  | cons e es ih =>
    obtain ⟨refs, hob⟩ := h e mem_cons_self
    simp only [map_cons, formatInFormatCap, hob, bind_eq_bind, bind_some]
    split_ifs with hcod
    · exact .inl ⟨⟨e, mem_cons_self, hcod.symm⟩, rfl⟩
    rcases ih fun e' he' => h e' (mem_cons_of_mem _ he') with ⟨⟨e', he', heq⟩, hfnd⟩ | ⟨hnone, hfnd⟩
    · exact .inl ⟨⟨e', mem_cons_of_mem _ he', heq⟩, hfnd⟩
    refine .inr ⟨fun e' he' => ?_, hfnd⟩
    rcases mem_cons.mp he' with rfl | he'
    · exact Ne.symm hcod
    · exact hnone e' he'

lemma vectorReplace_length (h : formats.length ≤ k) : (vectorReplace formats k).length = k + 1 := by
  unfold vectorReplace
  rw [length_set, length_append, length_replicate]
  omega

lemma vectorReplace_getD (h : formats.length ≤ k) (j : ℕ) :
    (vectorReplace formats k).getD j [] = formats.getD j [] := by
  have hgrw : ∀ j, (formats ++ replicate (k + 1 - formats.length) []).getD j [] = formats.getD j [] := by
    intro j
    rcases Nat.lt_or_ge j formats.length with hlt | hge
    · exact getD_append _ _ _ _ hlt
    rw [getD_append_right _ _ _ _ hge, getD_eq_default formats _ hge, getD_eq_getElem?_getD,
      getElem?_replicate]
    split_ifs <;> rfl
  unfold vectorReplace
  by_cases hj : j = k
  · subst hj
    rw [getD_eq_default formats _ h, getD_eq_getElem?_getD, getElem?_set_self']
    cases (formats ++ replicate (j + 1 - formats.length) [])[j]? <;> rfl
  · rw [getD_eq_getElem?_getD, getElem?_set_ne (Ne.symm hj)]
    exact hgrw j

lemma modify_getD (hk : k < formats.length) (id j : ℕ) :
    (formats.modify k (id :: ·)).getD j [] = if j = k then id :: formats.getD j [] else formats.getD j [] := by
  rw [getD_eq_getElem?_getD, getElem?_modify]
  split_ifs with hj hj' hj'
  · subst hj
    rw [getElem?_eq_getElem hk, getD_eq_getElem _ _ hk]
    rfl
  · exact absurd hj.symm hj'
  · exact absurd hj'.symm hj
  · simp

def enough (formats : List (List ℕ)) (k : ℕ) : List (List ℕ) :=
  if formats.length ≤ k then vectorReplace formats k else formats

lemma lt_enough_length (formats : List (List ℕ)) (k : ℕ) : k < (enough formats k).length := by
  unfold enough
  split_ifs with hsht
  · rw [vectorReplace_length hsht]
    exact Nat.lt_succ_self _
  · exact Nat.lt_of_not_le hsht

lemma enough_getD (formats : List (List ℕ)) (k j : ℕ) : (enough formats k).getD j [] = formats.getD j [] := by
  unfold enough
  split_ifs with hsht
  · exact vectorReplace_getD hsht j
  · rfl

def Cap.added (api : FormatApi F) (cap : Cap F) (f : F) (framing : ℕ) : Cap F where
  formats := (enough cap.formats (api.codecId f)).modify (api.codecId f) (cap.next :: ·)
  preferenceOrder := cap.preferenceOrder ++ [cap.next]
  framing := min cap.framing (if framing ≠ 0 then framing else api.defaultMs f)
  objects := update cap.objects cap.next (some ⟨f, framing, 2⟩)
  next := cap.next + 1

lemma framedInit_eq (cap : Cap F) (f : F) (framing : ℕ) :
    framedInit api cap.next
      { cap with objects := update cap.objects cap.next (some ⟨f, 0, 1⟩), next := cap.next + 1 } f framing =
        some (cap.added api f framing) := by
  simp only [framedInit, Objects.ref, update_self, update_idem]
  rfl

lemma Cap.Holds.added (h : cap.Holds api es) (hnew : ∀ e ∈ es, e.codec api ≠ api.codecId f) (framing : ℕ) :
    (cap.added api f framing).Holds api (es ++ [⟨cap.next, f, framing⟩]) := by
  have hnext : cap.next ∉ es.map Entry.id := by
    intro hmem
    obtain ⟨e, he, heq⟩ := mem_map.mp hmem
    exact Nat.ne_of_lt (h.fresh e he) heq
  have hcod : api.codecId f ∉ es.map (Entry.codec api) := by
    intro hmem
    obtain ⟨e, he, heq⟩ := mem_map.mp hmem
    exact hnew e he heq
  constructor
  · rw [map_append, ← h.order]
    rfl
  · intro j
    change ((enough cap.formats (api.codecId f)).modify (api.codecId f) (cap.next :: ·)).getD j [] = _
    rw [modify_getD (lt_enough_length _ _), enough_getD, h.lists, ofCodec_append, ofCodec_cons]
    by_cases hj : j = api.codecId f
    · subst hj
      have hself : (⟨cap.next, f, framing⟩ : Entry F).codec api = api.codecId f := rfl
      rw [if_pos rfl, if_pos hself, ofCodec_eq_nil hnew]
      rfl
    · rw [if_neg hj, if_neg (fun heq => hj heq.symm), map_append]
      exact (append_nil _).symm
  · refine forall_mem_append.mpr ⟨fun e he => ?_, forall_mem_singleton.mpr (update_self _ _ _)⟩
    exact (update_of_ne (Nat.ne_of_lt (h.fresh e he)) _ _).trans (h.objects e he)
  · intro i hi
    rw [map_append, mem_append, not_or] at hi
    have hne : i ≠ cap.next := fun heq => hi.2 (mem_singleton.mpr heq)
    exact (update_of_ne hne _ _).trans (h.gone i hi.1)
  · rw [map_append]
    exact concat_eq_append ▸ h.ids.concat hnext
  · rw [map_append]
    exact concat_eq_append ▸ h.codecs.concat hcod
  · exact forall_mem_append.mpr
      ⟨fun e he => Nat.lt_succ_of_lt (h.fresh e he), forall_mem_singleton.mpr (Nat.lt_succ_self _)⟩

lemma append_holds (h : cap.Holds api es) (f : F) (framing : ℕ) :
    ((∃ e ∈ es, e.codec api = api.codecId f) ∧ append api f framing cap = some cap) ∨
      ((∀ e ∈ es, e.codec api ≠ api.codecId f) ∧ append api f framing cap = some (cap.added api f framing) ∧
        (cap.added api f framing).Holds api (es ++ [⟨cap.next, f, framing⟩])) := by
  unfold append
  rcases formatInFormatCap_cases h.shows f with ⟨hfnd, heq⟩ | ⟨hnew, heq⟩
  · rw [h.order, heq]
    exact .inl ⟨hfnd, rfl⟩
  · rw [h.order, heq, ← h.order]
    exact .inr ⟨hnew, framedInit_eq cap f framing, h.added hnew framing⟩

/-! ## Replacing -/

def Cap.replaced (cap : Cap F) (id : ℕ) (f : F) (framing : ℕ) : Cap F :=
  { cap with objects := update cap.objects id (some ⟨f, framing, 2⟩) }

lemma Cap.Holds.replaced {front back : List (Entry F)} (h : cap.Holds api (front ++ e :: back))
    (hcod : e.codec api = api.codecId f) (framing : ℕ) :
    (cap.replaced e.id f framing).Holds api (front ++ ⟨e.id, f, framing⟩ :: back) := by
  have hids : (front ++ ⟨e.id, f, framing⟩ :: back).map Entry.id = (front ++ e :: back).map Entry.id := by simp
  have hcods : (front ++ ⟨e.id, f, framing⟩ :: back).map (Entry.codec api) =
      (front ++ e :: back).map (Entry.codec api) := by
    simp only [map_append, map_cons, hcod]
    rfl
  have hoth := ne_of_nodup_map h.ids
  constructor
  · rw [hids]
    exact h.order
  · intro k
    refine (h.lists k).trans ?_
    have hnew : (⟨e.id, f, framing⟩ : Entry F).codec api = e.codec api := hcod.symm
    rw [ofCodec_append, ofCodec_append, ofCodec_cons, ofCodec_cons, hnew, map_append, map_append]
    split_ifs <;> rfl
  · obtain ⟨hfrt, -, hback⟩ := forall_mem_middle.mp h.objects
    refine forall_mem_middle.mpr ⟨fun e' he' => ?_, update_self _ _ _, fun e' he' => ?_⟩
    · exact (update_of_ne (hoth e' (mem_append_left _ he')) _ _).trans (hfrt e' he')
    · exact (update_of_ne (hoth e' (mem_append_right _ he')) _ _).trans (hback e' he')
  · intro i hi
    rw [hids] at hi
    have hne : i ≠ e.id := fun heq => hi (by simp [heq])
    exact (update_of_ne hne _ _).trans (h.gone i hi)
  · rw [hids]
    exact h.ids
  · rw [hcods]
    exact h.codecs
  · have hfresh := forall_mem_middle.mp h.fresh
    exact forall_mem_middle.mpr hfresh

variable (api) in
lemma replaceLoop_cases (h : ∀ e ∈ es, Shows objects e) (f : F) (framing : ℕ) :
    (∃ front e back refs, es = front ++ e :: back ∧ e.codec api = api.codecId f ∧
      objects e.id = some ⟨e.format, e.framing, refs⟩ ∧
      replaceLoop api f framing objects (es.map Entry.id) =
        some (update objects e.id (some ⟨f, framing, refs⟩))) ∨
      replaceLoop api f framing objects (es.map Entry.id) = some objects := by
  induction es with
  | nil => exact .inr rfl
  | cons e es ih =>
    obtain ⟨refs, hob⟩ := h e mem_cons_self
    simp only [map_cons, replaceLoop, hob, bind_eq_bind, bind_some]
    split_ifs with hcod
    · exact .inl ⟨[], e, es, refs, rfl, hcod.symm, hob, rfl⟩
    · rcases ih fun e' he' => h e' (mem_cons_of_mem _ he') with
        ⟨front, e', back, refs', rfl, heq, hob', hloop⟩ | hloop
      · exact .inl ⟨e :: front, e', back, refs', rfl, heq, hob', hloop⟩
      · exact .inr hloop

lemma formatCapReplace_holds (h : cap.Holds api es) (f : F) (framing : ℕ) :
    ∃ cap' es', formatCapReplace api f framing cap = some cap' ∧ cap'.Holds api es' ∧
      cap'.preferenceOrder = cap.preferenceOrder := by
  have hcs := replaceLoop_cases api h.shows f framing
  rw [← h.order] at hcs
  unfold formatCapReplace
  rcases hcs with ⟨front, e, back, refs, rfl, hcod, hob, hloop⟩ | hloop
  · have hrefs := h.objects e (by simp)
    rw [hob] at hrefs
    cases hrefs
    rw [hloop]
    exact ⟨cap.replaced e.id f framing, _, rfl, h.replaced hcod framing, rfl⟩
  · rw [hloop]
    exact ⟨cap, es, rfl, h, rfl⟩

/-! ## Removing -/

lemma set_getD (formats : List (List ℕ)) (k : ℕ) : formats.set k (formats.getD k []) = formats := by
  rcases Nat.lt_or_ge k formats.length with hlt | hge
  · rw [getD_eq_getElem _ _ hlt, set_getElem_self]
  · exact set_eq_of_length_le hge

lemma getD_set_nil (formats : List (List ℕ)) (k j : ℕ) :
    (formats.set k []).getD j [] = if j = k then [] else formats.getD j [] := by
  rw [getD_eq_getElem?_getD, getElem?_set]
  split_ifs with hk hlt hj hj
  · rfl
  · exact absurd hk.symm hj
  · rfl
  · exact absurd hk.symm hj
  · exact absurd ‹j = k›.symm hk
  · exact (getD_eq_getElem?_getD ..).symm

def Cap.dropped (api : FormatApi F) (cap : Cap F) (e : Entry F) (rest : List (Entry F)) : Cap F :=
  { cap with
    formats := cap.formats.set (e.codec api) []
    preferenceOrder := rest.map Entry.id
    objects := update cap.objects e.id none }

lemma Cap.Holds.dropped {front back : List (Entry F)} (h : cap.Holds api (front ++ e :: back)) :
    (cap.dropped api e (front ++ back)).Holds api (front ++ back) := by
  have hoth := ne_of_nodup_map h.ids
  have hsub : (front ++ back).Sublist (front ++ e :: back) :=
    (List.Sublist.refl front).append (sublist_cons_self e back)
  constructor
  · rfl
  · intro k
    refine (getD_set_nil _ _ _).trans ?_
    split_ifs with hk
    · rw [hk, ofCodec_eq_nil (ne_of_nodup_map h.codecs)]
      rfl
    · rw [h.lists, ofCodec_append, ofCodec_append, ofCodec_cons, if_neg (Ne.symm hk)]
  · intro e' he'
    exact (update_of_ne (hoth e' he') _ _).trans (h.objects e' (hsub.subset he'))
  · intro i hi
    by_cases heq : i = e.id
    · exact heq ▸ update_self _ _ _
    refine (update_of_ne heq _ _).trans (h.gone i fun hmem => ?_)
    rw [map_append, map_cons, mem_append, mem_cons] at hmem
    rw [map_append, mem_append] at hi
    rcases hmem with hmem | hmem | hmem
    · exact hi (.inl hmem)
    · exact heq hmem
    · exact hi (.inr hmem)
  · exact h.ids.sublist (hsub.map _)
  · exact h.codecs.sublist (hsub.map _)
  · exact fun e' he' => h.fresh e' (hsub.subset he')

lemma filter_middle {p : α → Prop} [DecidablePred p] {e : α} (h : ∀ e' ∈ front ++ back, p e') (he : ¬p e) :
    (front ++ e :: back).filter (fun e' => p e') = front ++ back := by
  have hfal : ¬(decide (p e) = true) := fun heq => he (of_decide_eq_true heq)
  rw [filter_append, filter_cons_of_neg (p := fun e' => decide (p e')) hfal, ← filter_append]
  exact filter_eq_self.mpr fun e' he' => decide_eq_true (h e' he')

lemma unref_more {id framing : ℕ} (h : objects id = some ⟨f, framing, 2⟩) :
    objects.unref id = some (update objects id (some ⟨f, framing, 1⟩)) := by
  unfold Objects.unref
  rw [h]
  rfl

lemma unref_last (f : F) (id framing : ℕ) :
    Objects.unref (update objects id (some ⟨f, framing, 1⟩)) id = some (update objects id none) := by
  unfold Objects.unref
  simp

lemma shows_update (h : ∀ e' ∈ es, Shows objects e') (refs : ℕ) (hids : ∀ e' ∈ es, e'.id = e.id → e' = e) :
    ∀ e' ∈ es, Shows (update objects e.id (some ⟨e.format, e.framing, refs⟩)) e' := by
  intro e' he'
  by_cases heq : e'.id = e.id
  · obtain rfl := hids e' he' heq
    exact ⟨refs, update_self _ _ _⟩
  · obtain ⟨refs', hob⟩ := h e' he'
    exact ⟨refs', (update_of_ne heq _ _).trans hob⟩

section Removing

variable [DecidableEq F] {f : F}

lemma removeCmp_none (h : ∀ e ∈ es, Shows objects e) (hnone : ∀ e ∈ es, e.format ≠ f) :
    removeCmp objects f (es.map Entry.id) = some (none, es.map Entry.id) := by
  induction es with
  | nil => rfl
  | cons e es ih =>
    obtain ⟨refs, hob⟩ := h e mem_cons_self
    simp only [map_cons, removeCmp, hob, bind_eq_bind, bind_some]
    rw [if_neg (hnone e mem_cons_self), ih (fun e' he' => h e' (mem_cons_of_mem _ he'))
      fun e' he' => hnone e' (mem_cons_of_mem _ he')]
    rfl

lemma removeCmp_found (front back : List (Entry F)) {e : Entry F}
    (h : ∀ e' ∈ front ++ e :: back, Shows objects e') (hfrt : ∀ e' ∈ front, e'.format ≠ f) (he : e.format = f) :
    removeCmp objects f ((front ++ e :: back).map Entry.id) = some (some e.id, (front ++ back).map Entry.id) := by
  induction front with
  | nil =>
    obtain ⟨refs, hob⟩ := h e mem_cons_self
    simp only [nil_append, map_cons, removeCmp, hob, bind_eq_bind, bind_some]
    rw [if_pos he]
    rfl
  | cons e' front ih =>
    obtain ⟨refs, hob⟩ := h e' mem_cons_self
    simp only [cons_append, map_cons, removeCmp, hob, bind_eq_bind, bind_some]
    rw [if_neg (hfrt e' mem_cons_self), ih (fun e'' he'' => h e'' (mem_cons_of_mem _ he''))
      fun e'' he'' => hfrt e'' (mem_cons_of_mem _ he'')]
    rfl

lemma removePreference_none (hord : cap.preferenceOrder = es.map Entry.id)
    (h : ∀ e ∈ es, Shows cap.objects e) (hnone : ∀ e ∈ es, e.format ≠ f) :
    removePreference f cap = some (-1, cap) := by
  have hcmp := removeCmp_none h hnone
  rw [← hord] at hcmp
  unfold removePreference
  rw [hcmp]
  rfl

lemma removePreference_found {front back : List (Entry F)} {e : Entry F} {objects : Objects F}
    (hord : cap.preferenceOrder = (front ++ e :: back).map Entry.id)
    (h : ∀ e' ∈ front ++ e :: back, Shows cap.objects e') (hfrt : ∀ e' ∈ front, e'.format ≠ f)
    (he : e.format = f) (hunref : cap.objects.unref e.id = some objects) :
    removePreference f cap =
      some (0, { cap with preferenceOrder := (front ++ back).map Entry.id, objects := objects }) := by
  unfold removePreference
  rw [hord, removeCmp_found front back h hfrt he]
  simp only [cleanup, hunref, bind_eq_bind, bind_some]
  rfl

lemma Cap.Holds.format_cases (h : cap.Holds api es) (f : F) :
    (∃ front e back, es = front ++ e :: back ∧ e.format = f ∧ (∀ e' ∈ front ++ back, e'.format ≠ f) ∧
      (es.filter fun e' => e'.format ≠ f) = front ++ back) ∨
      (∀ e ∈ es, e.format ≠ f) ∧ (es.filter fun e => e.format ≠ f) = es := by
  by_cases hf : ∃ e ∈ es, e.format = f
  · obtain ⟨e, he, rfl⟩ := hf
    obtain ⟨front, back, rfl⟩ := append_of_mem he
    have hoth : ∀ e' ∈ front ++ back, e'.format ≠ e.format := fun e' he' heq =>
      ne_of_nodup_map h.codecs e' he' (congrArg api.codecId heq)
    exact .inl ⟨front, e, back, rfl, rfl, hoth, filter_middle hoth (not_not_intro rfl)⟩
  · push Not at hf
    exact .inr ⟨hf, filter_eq_self.mpr fun e he => decide_eq_true (hf e he)⟩

lemma remove_holds (h : cap.Holds api es) (f : F) :
    ∃ res cap', remove api f cap = some (res, cap') ∧ cap'.Holds api (es.filter fun e => e.format ≠ f) := by
  unfold remove
  rcases h.format_cases f with ⟨front, e, back, rfl, rfl, hoth, hflt⟩ | ⟨hnone, hflt⟩
  · have he : e ∈ front ++ e :: back := by simp
    have hlist := h.lists (e.codec api)
    rw [h.ofCodec_eq he] at hlist
    have hcmp : removeCmp cap.objects e.format [e.id] = some (some e.id, []) :=
      removeCmp_found [] [] (fun e' he' => mem_singleton.mp he' ▸ h.shows e he)
        (fun _ he' => absurd he' not_mem_nil) rfl
    have hshows := shows_update h.shows 1 fun e' he' heq => inj_on_of_nodup_map h.ids he' he heq
    rw [hflt]
    refine ⟨0, cap.dropped api e (front ++ back), ?_, h.dropped⟩
    -- first the list of the codec, then the vector
    change (if cap.formats.length ≤ e.codec api then _ else removeCmp _ _ (cap.formats.getD (e.codec api) []) >>= _) = _
    rw [if_neg (Nat.not_le.mpr (h.codec_lt he)), hlist]
    simp only [map_cons, map_nil, hcmp, cleanup, unref_more (h.objects e he), bind_eq_bind, bind_some]
    exact removePreference_found h.order hshows (fun e' he' => hoth e' (mem_append_left _ he')) rfl
      (unref_last e.format e.id e.framing)
  · rw [hflt]
    refine ⟨-1, cap, ?_, h⟩
    dsimp only
    split_ifs with hsht
    · rfl
    have hsub : ∀ e ∈ ofCodec api es (api.codecId f), e ∈ es := fun e he => (mem_filter.mp he).1
    have hcmp := removeCmp_none (fun e he => h.shows e (hsub e he)) fun e he => hnone e (hsub e he)
    rw [← h.lists] at hcmp
    simp only [hcmp, set_getD, bind_eq_bind, bind_some]
    exact removePreference_none h.order h.shows hnone

abbrev Entry.OfType (api : FormatApi F) (type : MediaType) (e : Entry F) : Prop :=
  type = .unknown ∨ api.mediaType e.format = type

lemma removeTypeLoop_holds (h : cap.Holds api es) (type : MediaType) (k : ℕ) :
    ∃ kept cap', removeTypeLoop api type (cap.formats.getD k []) cap = some (kept, cap') ∧
      cap'.formats.length = cap.formats.length ∧
      { cap' with formats := cap'.formats.set k kept }.Holds api
        (es.filter fun e => ¬(e.codec api = k ∧ e.OfType api type)) := by
  have hlist := h.lists k
  by_cases hk : ∃ e ∈ es, e.codec api = k ∧ e.OfType api type
  · obtain ⟨e, he, rfl, htype⟩ := hk
    rw [h.ofCodec_eq he] at hlist
    obtain ⟨front, back, rfl⟩ := append_of_mem he
    have hoth := ne_of_nodup_map h.codecs
    have hflt := filter_middle (p := fun e' => ¬(e'.codec api = e.codec api ∧ e'.OfType api type))
      (fun e' he' hboth => hoth e' he' hboth.1) (not_not_intro ⟨rfl, htype⟩)
    have hpreference := removePreference_found h.order h.shows
      (fun e' he' heq => hoth e' (mem_append_left _ he') (congrArg api.codecId heq)) rfl
      (unref_more (h.objects e he))
    refine ⟨[], { cap with
      preferenceOrder := (front ++ back).map Entry.id
      objects := update cap.objects e.id none }, ?_, rfl, hflt ▸ h.dropped⟩
    rw [hlist]
    simp only [map_cons, map_nil, removeTypeLoop, h.objects e he, hpreference, unref_last,
      bind_eq_bind, bind_some]
    rw [if_neg fun hkeep => htype.elim hkeep.1 hkeep.2]
  · push Not at hk
    have hflt : es.filter (fun e => ¬(e.codec api = k ∧ e.OfType api type)) = es :=
      filter_eq_self.mpr fun e he => decide_eq_true fun hboth => hboth.2.elim (hk e he hboth.1).1 (hk e he hboth.1).2
    refine ⟨cap.formats.getD k [], cap, ?_, rfl, ?_⟩
    · rcases h.ofCodec_cases k with ⟨e, he, hcod, hof⟩ | ⟨-, hof⟩
      · rw [hlist, hof]
        simp only [map_cons, removeTypeLoop, h.objects e he, bind_eq_bind, bind_some]
        rw [if_pos (hk e he hcod)]
        rfl
      · rw [hlist, hof]
        rfl
    · rwa [hflt, set_getD]

lemma removeByTypeLoop_holds (type : MediaType) (n : ℕ) : ∀ {cap : Cap F} {es : List (Entry F)},
    cap.Holds api es → n ≤ cap.formats.length → ∃ cap', removeByTypeLoop api type n cap = some cap' ∧
      cap'.Holds api (es.filter fun e => ¬(cap.formats.length - n ≤ e.codec api ∧ e.OfType api type)) := by
  induction n with
  | zero =>
    intro cap es h _
    have hall : es.filter (fun e => ¬(cap.formats.length ≤ e.codec api ∧ e.OfType api type)) = es :=
      filter_eq_self.mpr fun e he => decide_eq_true fun hboth => Nat.not_le.mpr (h.codec_lt he) hboth.1
    exact ⟨cap, rfl, by rwa [Nat.sub_zero, hall]⟩
  | succ n ih =>
    intro cap es h hn
    obtain ⟨kept, cap', hrnd, hlen, hh⟩ := removeTypeLoop_holds h type (cap.formats.length - (n + 1))
    obtain ⟨cap'', hloop, hrest⟩ := ih hh (by rw [length_set]; omega)
    refine ⟨cap'', ?_, ?_⟩
    · simp only [removeByTypeLoop, hrnd]
      exact hloop
    · rw [filter_filter] at hrest
      convert hrest using 2
      funext e
      have hfrom : cap.formats.length - (n + 1) ≤ e.codec api ↔
          cap.formats.length - n ≤ e.codec api ∨ e.codec api = cap.formats.length - (n + 1) := by omega
      rw [length_set, hlen, ← Bool.decide_and, decide_eq_decide, hfrom, or_and_right, not_or]

lemma removeByType_holds (h : cap.Holds api es) (type : MediaType) :
    ∃ cap', removeByType api type cap = some cap' ∧ cap'.Holds api (es.filter fun e => ¬e.OfType api type) := by
  obtain ⟨cap', hloop, hh⟩ := removeByTypeLoop_holds type cap.formats.length h le_rfl
  refine ⟨cap', hloop, ?_⟩
  simpa using hh

end Removing

/-! ## Sequences of operations -/

def Cap.Valid (api : FormatApi F) (cap : Cap F) : Prop := ∃ es, cap.Holds api es

/-- An operation with one format: it keeps the order of a set that has an entry of this codec. -/
def Gentle (api : FormatApi F) (act : F → ℕ → Cap F → Option (Cap F)) : Prop :=
  ∀ {cap : Cap F} {es : List (Entry F)} (f : F) (framing : ℕ), cap.Holds api es →
    ∃ cap', act f framing cap = some cap' ∧ cap'.Valid api ∧
      ((∃ e ∈ es, e.codec api = api.codecId f) → cap'.preferenceOrder = cap.preferenceOrder)

lemma append_gentle : Gentle api (append api) := by
  intro cap es f framing h
  rcases append_holds h f framing with ⟨-, heq⟩ | ⟨hnew, heq, hadded⟩
  · exact ⟨cap, heq, ⟨es, h⟩, fun _ => rfl⟩
  · exact ⟨_, heq, ⟨_, hadded⟩, fun ⟨e, he, hcod⟩ => absurd hcod (hnew e he)⟩

lemma formatCapReplace_gentle : Gentle api (formatCapReplace api) := by
  intro cap es f framing h
  obtain ⟨cap', es', heq, hh, hord⟩ := formatCapReplace_holds h f framing
  exact ⟨cap', heq, ⟨es', hh⟩, fun _ => hord⟩

lemma update_valid (hw : ∀ i, (w i).Valid api) {cap : Cap F} (hcap : cap.Valid api) (j : ℕ) :
    ∀ i, (update w j cap i).Valid api := by
  intro i
  by_cases hi : i = j
  · rwa [hi, update_self]
  · rw [update_of_ne hi]
    exact hw i

lemma fromCapRound_valid (hact : Gentle api act) (dst src : ℕ) (type : MediaType) (hw : ∀ i, (w i).Valid api)
    (n : ℕ) :
    fromCapRound api act dst src type (w, n) = some (.inr w) ∨
      ∃ w', fromCapRound api act dst src type (w, n) = some (.inl (w', n + 1)) ∧ (∀ i, (w' i).Valid api) ∧
        (w' src).preferenceOrder = (w src).preferenceOrder ∧ n < (w src).preferenceOrder.length := by
  unfold fromCapRound
  rcases hid : (w src).preferenceOrder[n]? with _ | id
  · exact .inl rfl
  have hlt : n < (w src).preferenceOrder.length := (List.getElem?_eq_some_iff.mp hid).1
  obtain ⟨es, hsrc⟩ := hw src
  have hmem := mem_of_getElem? hid
  rw [hsrc.order] at hmem
  obtain ⟨e, he, rfl⟩ := mem_map.mp hmem
  simp only [hsrc.objects e he, bind_eq_bind, bind_some]
  right
  split_ifs with htype
  · obtain ⟨esdst, hdst⟩ := hw dst
    obtain ⟨cap, heq, hcap, hord⟩ := hact e.format e.framing hdst
    refine ⟨update w dst cap, by rw [heq]; rfl, update_valid hw hcap dst, ?_, hlt⟩
    by_cases hsame : src = dst
    · subst hsame
      have hes : es.map Entry.id = esdst.map Entry.id := hsrc.order.symm.trans hdst.order
      obtain ⟨e', he', hid'⟩ := mem_map.mp (hes ▸ mem_map_of_mem he)
      have hob := (hid' ▸ hdst.objects e' he').symm.trans (hsrc.objects e he)
      rw [update_self]
      refine hord ⟨e', he', ?_⟩
      cases e'
      cases hob
      rfl
    · rw [update_of_ne hsame]
  · exact ⟨w, rfl, hw, rfl, hlt⟩

/-- All sets are valid, and the preferences that are gone through are those from before the loop. -/
def KeepsOrder (api : FormatApi F) (src : ℕ) (order : List ℕ) (s : World F × ℕ) : Prop :=
  (∀ i, (s.1 i).Valid api) ∧ (s.1 src).preferenceOrder = order

lemma fromCap_valid (hact : Gentle api act) (dst src : ℕ) (type : MediaType) (hw : ∀ i, (w i).Valid api) :
    ∃ w', fromCap api act dst src type w = some w' ∧ ∀ i, (w' i).Valid api := by
  have hrnd : ∀ s, KeepsOrder api src (w src).preferenceOrder s →
      (∃ s', fromCapRound api act dst src type s = some (.inl s') ∧ KeepsOrder api src (w src).preferenceOrder s' ∧
        (w src).preferenceOrder.length - s'.2 < (w src).preferenceOrder.length - s.2) ∨
        ∃ w', fromCapRound api act dst src type s = some (.inr w') ∧ ∀ i, (w' i).Valid api := by
    rintro ⟨w', n⟩ ⟨hw', hsame⟩
    rcases fromCapRound_valid hact dst src type hw' n with hdone | ⟨w'', hnext, hval, hord, hlt⟩
    · exact .inr ⟨w', hdone, hw'⟩
    · refine .inl ⟨(w'', n + 1), hnext, ⟨hval, hord.trans hsame⟩, ?_⟩
      rw [hsame] at hlt
      exact Nat.sub_lt_sub_left hlt (Nat.lt_succ_self n)
  obtain ⟨w', hval, hres⟩ := iterate_total hrnd (s := (w, 0)) ⟨hw, rfl⟩
  exact ⟨w', hres _ (Nat.lt_succ_self _), hval⟩

lemma onCap_valid (act : Cap F → Option (Cap F)) (hw : ∀ i, (w i).Valid api) (i : ℕ)
    (hact : ∃ cap, act (w i) = some cap ∧ cap.Valid api) :
    ∃ w', onCap i act w = some w' ∧ ∀ j, (w' j).Valid api := by
  obtain ⟨cap, heq, hcap⟩ := hact
  refine ⟨update w i cap, ?_, update_valid hw hcap i⟩
  unfold onCap
  rw [heq]
  rfl

lemma step_valid [DecidableEq F] (hw : ∀ i, (w i).Valid api) (op : Op F) :
    ∃ w', step api w op = some w' ∧ ∀ i, (w' i).Valid api := by
  cases op with
  | append i f framing =>
    obtain ⟨es, h⟩ := hw i
    obtain ⟨cap, heq, hcap, -⟩ := append_gentle f framing h
    exact onCap_valid (append api f framing) hw i ⟨cap, heq, hcap⟩
  | appendFromCap dst src type => exact fromCap_valid append_gentle dst src type hw
  | replaceFromCap dst src type => exact fromCap_valid formatCapReplace_gentle dst src type hw
  | remove i f =>
    obtain ⟨es, h⟩ := hw i
    obtain ⟨res, cap, heq, hcap⟩ := remove_holds h f
    exact onCap_valid (fun cap => (remove api f cap).map Prod.snd) hw i ⟨cap, by rw [heq]; rfl, _, hcap⟩
  | removeByType i type =>
    obtain ⟨es, h⟩ := hw i
    obtain ⟨cap, heq, hcap⟩ := removeByType_holds h type
    exact onCap_valid (removeByType api type) hw i ⟨cap, heq, _, hcap⟩

lemma run_valid [DecidableEq F] (api : FormatApi F) (ops : List (Op F)) :
    ∃ w, run api ops = some w ∧ ∀ i, (w i).Valid api :=
  foldlM_total (fun op _ _ hw => step_valid hw op) fun _ => ⟨[], init_holds⟩

end Telephony.Formats
