import Telephony.Formats.InStep

/-!
# Negotiation between two sets of formats

`ast_format_cap_iscompatible` goes through the preferences of one set and looks each of them up in
the lists of the other; `ast_format_cap_get_compatible` collects the joint formats. They agree
because both views of a set are the same.
-/

namespace Telephony.Formats

open List Function

variable {F : Type} {api : FormatApi F}

/-! ## Both views -/

def Objects.codec (api : FormatApi F) (objects : Objects F) (id : ℕ) : Option ℕ :=
  (objects id).map fun framed => api.codecId framed.format

def Cap.formatsInOrder (cap : Cap F) : List F :=
  cap.preferenceOrder.filterMap fun id => (cap.objects id).map Framed.format

structure Cap.InStep (api : FormatApi F) (cap : Cap F) : Prop where
  live : ∀ id ∈ cap.preferenceOrder, (cap.objects id).isSome
  same : ∀ k, cap.formats.getD k [] = cap.preferenceOrder.filter fun id => cap.objects.codec api id = some k
  once : (cap.preferenceOrder.map (cap.objects.codec api)).Nodup

variable {cap cap1 cap2 : Cap F} {es es1 es2 : List (Entry F)}

lemma Cap.Holds.codec_eq (h : cap.Holds api es) {e : Entry F} (he : e ∈ es) :
    cap.objects.codec api e.id = some (e.codec api) := by
  unfold Objects.codec
  rw [h.objects e he]
  rfl

lemma Cap.Holds.formatsInOrder_eq (h : cap.Holds api es) : cap.formatsInOrder = es.map Entry.format := by
  unfold Cap.formatsInOrder
  rw [h.order, filterMap_map, ← filterMap_eq_map]
  refine filterMap_congr fun e he => ?_
  rw [comp_apply, h.objects e he]
  rfl

lemma Cap.Holds.inStep (h : cap.Holds api es) : cap.InStep api where
  live := by
    intro id hid
    rw [h.order] at hid
    obtain ⟨e, he, rfl⟩ := mem_map.mp hid
    rw [h.objects e he]
    rfl
  same := by
    intro k
    rw [h.lists, h.order, filter_map]
    refine congrArg _ (filter_congr fun e he => ?_)
    rw [comp_apply, h.codec_eq he, decide_eq_decide, Option.some_inj]
  once := by
    have hcods : es.map (cap.objects.codec api ∘ Entry.id) = es.map (some ∘ Entry.codec api) :=
      map_congr_left fun e he => h.codec_eq he
    rw [h.order, map_map, hcods, ← map_map]
    exact h.codecs.map fun _ _ => Option.some.inj

/-! ## One format against a set -/

structure Negotiable (api : FormatApi F) : Prop where
  joint_iff : ∀ f g, (api.joint f g).isSome ↔ api.cmp f g ≠ .notEqual
  apart : ∀ f g, api.codecId f ≠ api.codecId g → api.cmp f g = .notEqual

lemma Negotiable.joint_none (hn : Negotiable api) {f g : F} (h : api.cmp f g = .notEqual) : api.joint f g = none := by
  rw [← Option.not_isSome_iff_eq_none, hn.joint_iff]
  exact not_not_intro h

lemma Negotiable.filterMap_nil (hn : Negotiable api) {f : F} (h : ∀ e ∈ es, e.codec api ≠ api.codecId f) :
    (es.map Entry.format).filterMap (api.joint f) = [] := by
  rw [filterMap_eq_nil_iff]
  intro g hg
  obtain ⟨e, he, rfl⟩ := mem_map.mp hg
  exact hn.joint_none (hn.apart f e.format (Ne.symm (h e he)))

lemma Cap.Holds.joint_cases (h : cap.Holds api es) (hn : Negotiable api) (f : F) :
    ∃ found res, (es.map Entry.format).filterMap (api.joint f) = found.toList ∧
      getCompatibleFormat api cap f = some found ∧ isCompatibleFormat api cap f = some res ∧
      (res ≠ .notEqual ↔ found.isSome) := by
  have hlist := h.lists (api.codecId f)
  unfold getCompatibleFormat isCompatibleFormat
  rcases h.ofCodec_cases (api.codecId f) with ⟨e, he, hcod, hof⟩ | ⟨hnone, hof⟩
  · have hlong : ¬cap.formats.length ≤ api.codecId f := Nat.not_le.mpr (hcod ▸ h.codec_lt he)
    rw [hof, map_cons] at hlist
    refine ⟨api.joint f e.format, api.cmp f e.format, ?_, ?_, ?_, (hn.joint_iff f e.format).symm⟩
    · obtain ⟨front, back, rfl⟩ := append_of_mem he
      have hoth := hn.filterMap_nil (f := f) (hcod ▸ ne_of_nodup_map h.codecs)
      rw [map_append, filterMap_append, append_eq_nil_iff] at hoth
      rw [map_append, map_cons, filterMap_append, filterMap_cons, hoth.1, hoth.2]
      cases api.joint f e.format with
      | none => rfl
      | some g => rfl
    · rw [if_neg hlong, hlist]
      simp only [compatibleFormatLoop, h.objects e he, Option.bind_eq_bind, Option.bind_some]
      cases hcmp : api.cmp f e.format with
      | equal => rfl
      | notEqual => exact congrArg some (hn.joint_none hcmp).symm
      | subset => rfl
    · rw [if_neg hlong, hlist]
      simp only [isCompatibleFormatLoop, h.objects e he, Option.bind_eq_bind, Option.bind_some]
      cases api.cmp f e.format with
      | equal => rfl
      | notEqual => rfl
      | subset => rfl
  · rw [hof] at hlist
    rw [hlist]
    refine ⟨none, .notEqual, hn.filterMap_nil hnone, ?_, ?_, by simp⟩
    · exact ite_self _
    · exact ite_self _

/-! ## All formats -/

def addFormat (api : FormatApi F) (fs : List F) (f : F) : List F :=
  if ∃ g ∈ fs, api.codecId g = api.codecId f then fs else fs ++ [f]

def firstPerCodec (api : FormatApi F) (fs : List F) : List F := fs.foldl (addFormat api) []

def jointFormats (api : FormatApi F) (fs gs : List F) : List F := fs.flatMap fun f => gs.filterMap (api.joint f)

lemma jointFormats_cons (f : F) (fs gs : List F) :
    jointFormats api (f :: fs) gs = gs.filterMap (api.joint f) ++ jointFormats api fs gs := flatMap_cons

lemma append_formats (h : cap.Holds api es) (f : F) (framing : ℕ) :
    ∃ cap' es', append api f framing cap = some cap' ∧ cap'.Holds api es' ∧
      es'.map Entry.format = addFormat api (es.map Entry.format) f := by
  rcases append_holds h f framing with ⟨⟨e, he, hcod⟩, heq⟩ | ⟨hnew, heq, hadded⟩
  · exact ⟨cap, es, heq, h, (if_pos ⟨e.format, mem_map_of_mem he, hcod⟩).symm⟩
  refine ⟨_, _, heq, hadded, ?_⟩
  have hnone : ¬∃ g ∈ es.map Entry.format, api.codecId g = api.codecId f := by
    rintro ⟨g, hg, hcod⟩
    obtain ⟨e, he, rfl⟩ := mem_map.mp hg
    exact hnew e he hcod
  rw [map_append]
  exact (if_neg hnone).symm

section

variable (hn : Negotiable api) (h1 : ∀ e ∈ es1, Shows cap1.objects e) (h2 : cap2.Holds api es2)
include hn h1 h2

lemma getCompatibleLoop_formats : ∀ {result : Cap F} {es : List (Entry F)}, result.Holds api es →
    ∃ cap es', getCompatibleLoop api cap1 cap2 (es1.map Entry.id) result = some cap ∧ cap.Holds api es' ∧
      es'.map Entry.format =
        (jointFormats api (es1.map Entry.format) (es2.map Entry.format)).foldl (addFormat api) (es.map Entry.format) := by
  induction es1 with
  | nil => exact fun hr => ⟨_, _, rfl, hr, rfl⟩
  | cons e es1 ih =>
    intro result es hr
    obtain ⟨refs, hob⟩ := h1 e mem_cons_self
    obtain ⟨found, res, hjoint, hget, -⟩ := h2.joint_cases hn e.format
    rw [map_cons, map_cons, jointFormats_cons, hjoint, foldl_append]
    simp only [getCompatibleLoop, hob, hget, Option.bind_eq_bind, Option.bind_some]
    have htail : ∀ e' ∈ es1, Shows cap1.objects e' := fun e' he' => h1 e' (mem_cons_of_mem _ he')
    cases found with
    | none => exact ih htail hr
    | some g =>
      obtain ⟨cap, es', happ, hh, hadded⟩ := append_formats hr g e.framing
      simp only [happ]
      have hone : (some g).toList.foldl (addFormat api) (es.map Entry.format) = es'.map Entry.format := hadded.symm
      rw [hone]
      exact ih htail hh

lemma isCompatibleLoop_iff : ∃ b, isCompatibleLoop api cap1 cap2 (es1.map Entry.id) = some b ∧
      (b = true ↔ jointFormats api (es1.map Entry.format) (es2.map Entry.format) ≠ []) := by
  induction es1 with
  | nil => exact ⟨false, rfl, by simp [jointFormats]⟩
  | cons e es1 ih =>
    obtain ⟨refs, hob⟩ := h1 e mem_cons_self
    obtain ⟨found, res, hjoint, -, his, hiff⟩ := h2.joint_cases hn e.format
    rw [map_cons, map_cons, jointFormats_cons, hjoint]
    simp only [isCompatibleLoop, hob, his, Option.bind_eq_bind, Option.bind_some]
    cases found with
    | none =>
      rw [if_neg fun hne => Bool.false_ne_true (hiff.mp hne)]
      exact ih fun e' he' => h1 e' (mem_cons_of_mem _ he')
    | some g =>
      rw [if_pos (hiff.mpr rfl)]
      exact ⟨true, rfl, by simp⟩

end

/-! ## What is collected -/

lemma foldl_addFormat_ne_nil (fs : List F) : ∀ {acc : List F}, acc ≠ [] → fs.foldl (addFormat api) acc ≠ [] := by
  induction fs with
  | nil => exact fun h => h
  | cons f fs ih =>
    intro acc h
    refine ih ?_
    unfold addFormat
    split_ifs
    · exact h
    · exact append_ne_nil_of_left_ne_nil h _

lemma firstPerCodec_eq_nil_iff (fs : List F) : firstPerCodec api fs = [] ↔ fs = [] := by
  cases fs with
  | nil => exact iff_of_true rfl rfl
  | cons f fs =>
    refine iff_of_false (foldl_addFormat_ne_nil fs ?_) (cons_ne_nil f fs)
    exact cons_ne_nil f []

lemma foldl_addFormat_eq (fs : List F) : ∀ {acc : List F}, ((acc ++ fs).map api.codecId).Nodup →
    fs.foldl (addFormat api) acc = acc ++ fs := by
  induction fs with
  | nil => exact fun _ => (append_nil _).symm
  | cons f fs ih =>
    intro acc h
    have hnew : ¬∃ g ∈ acc, api.codecId g = api.codecId f := fun ⟨g, hg, hcod⟩ =>
      ne_of_nodup_map h g (mem_append_left _ hg) hcod
    have hadd : addFormat api acc f = acc ++ [f] := if_neg hnew
    rw [append_cons] at h
    rw [foldl_cons, hadd, ih h, ← append_cons]

def KeepsCodec (api : FormatApi F) : Prop := ∀ f g joint, api.joint f g = some joint → api.codecId joint = api.codecId f

/-- The codecs of the joint formats are among those of the first set, in its order. Induction on its
entries. -/
lemma jointFormats_codecs (hn : Negotiable api) (hk : KeepsCodec api) (h2 : cap2.Holds api es2)
    (es1 : List (Entry F)) :
    ((jointFormats api (es1.map Entry.format) (es2.map Entry.format)).map api.codecId).Sublist
      (es1.map (Entry.codec api)) := by
  induction es1 with
  | nil => exact List.Sublist.slnil
  | cons e es1 ih =>
    obtain ⟨found, res, hjoint, -⟩ := h2.joint_cases hn e.format
    rw [map_cons, map_cons, jointFormats_cons, hjoint]
    cases found with
    | none => exact ih.cons _
    | some g =>
      have hmem : g ∈ (es2.map Entry.format).filterMap (api.joint e.format) := hjoint ▸ mem_singleton_self g
      obtain ⟨g', -, hg'⟩ := mem_filterMap.mp hmem
      have hcod : api.codecId g = e.codec api := hk _ _ _ hg'
      rw [← hcod]
      exact ih.cons_cons _

lemma negotiate (hn : Negotiable api) (h1 : cap1.Holds api es1) (h2 : cap2.Holds api es2) {cap : Cap F}
    (h : cap.Holds api []) :
    ∃ b result, isCompatible api cap1 cap2 = some b ∧ getCompatible api cap1 cap2 cap = some result ∧
      (b = true ↔ result.preferenceOrder ≠ []) ∧
      result.formatsInOrder = firstPerCodec api (jointFormats api cap1.formatsInOrder cap2.formatsInOrder) ∧
      (KeepsCodec api → result.formatsInOrder = jointFormats api cap1.formatsInOrder cap2.formatsInOrder) := by
  obtain ⟨b, his, hiff⟩ := isCompatibleLoop_iff hn h1.shows h2
  obtain ⟨result, es, hget, hh, hfmt⟩ := getCompatibleLoop_formats hn h1.shows h2 h
  change es.map Entry.format = firstPerCodec api _ at hfmt
  rw [← h1.order] at his hget
  have hemp : result.preferenceOrder = [] ↔ es.map Entry.format = [] := by
    rw [hh.order, map_eq_nil_iff, map_eq_nil_iff]
  refine ⟨b, result, his, hget, ?_, ?_, fun hk => ?_⟩
  · rw [hiff, ne_eq, ne_eq, hemp, hfmt, firstPerCodec_eq_nil_iff]
  · rw [hh.formatsInOrder_eq, hfmt, h1.formatsInOrder_eq, h2.formatsInOrder_eq]
  · have hcods := h1.codecs.sublist (jointFormats_codecs hn hk h2 es1)
    rw [hh.formatsInOrder_eq, hfmt, h1.formatsInOrder_eq, h2.formatsInOrder_eq]
    exact foldl_addFormat_eq _ hcods

/-- **After any operations** on any number of sets, both views of each set have the same entries, at
most one for each codec. Two sets are said to be compatible exactly when what is collected is not
empty, and these are the joint formats in the order of preference of the first set, one for each
codec. -/
theorem capabilities_in_step [DecidableEq F] (api : FormatApi F) (ops : List (Op F)) :
    ∃ w, run api ops = some w ∧ (∀ i, (w i).InStep api) ∧
      (Negotiable api → ∀ i j k, (w k).preferenceOrder = [] →
        ∃ b result, isCompatible api (w i) (w j) = some b ∧ getCompatible api (w i) (w j) (w k) = some result ∧
          (b = true ↔ result.preferenceOrder ≠ []) ∧
          result.formatsInOrder = firstPerCodec api (jointFormats api (w i).formatsInOrder (w j).formatsInOrder) ∧
          (KeepsCodec api → result.formatsInOrder = jointFormats api (w i).formatsInOrder (w j).formatsInOrder)) := by
  obtain ⟨w, hrun, hw⟩ := run_valid api ops
  refine ⟨w, hrun, fun i => ?_, fun hn i j k hemp => ?_⟩
  · obtain ⟨es, h⟩ := hw i
    exact h.inStep
  · obtain ⟨es1, h1⟩ := hw i
    obtain ⟨es2, h2⟩ := hw j
    obtain ⟨es, h⟩ := hw k
    obtain rfl : es = [] := map_eq_nil_iff.mp (h.order.symm.trans hemp)
    exact negotiate hn h1 h2 h

def pairs : FormatApi ℕ where
  codecId f := f / 2
  mediaType f := if f < 6 then .audio else .video
  defaultMs _ := 20
  cmp f g := if f = g then .equal else if f / 2 = g / 2 then .subset else .notEqual
  joint f g := if f / 2 = g / 2 then some f else none

lemma pairs_negotiable : Negotiable pairs where
  joint_iff := by
    intro f g
    simp only [pairs]
    split_ifs with hcod hsame hsame
    · simp
    · simp
    · exact absurd (congrArg (· / 2) hsame) hcod
    · simp
  apart := by
    intro f g hcod
    simp only [pairs] at hcod ⊢
    rw [if_neg fun hsame => hcod (congrArg (· / 2) hsame), if_neg hcod]

/-- The first set gets four formats and loses one, the second one gets two in another order. -/
def exchange : List (Op ℕ) :=
  [.append 0 2 20, .append 0 9 0, .append 0 4 0, .append 0 7 30, .remove 0 9, .append 1 5 0, .append 1 2 0,
    .appendFromCap 1 0 .video, .removeByType 1 .video]

theorem capabilities_in_step_exchange : Negotiable pairs ∧ ∃ w, run pairs exchange = some w ∧
    ∃ result, isCompatible pairs (w 0) (w 1) = some true ∧ getCompatible pairs (w 0) (w 1) (w 2) = some result ∧
      result.formatsInOrder = [2, 4] := by
  refine ⟨pairs_negotiable, ?_⟩
  obtain ⟨w, hrun, -, hnegotiated⟩ := capabilities_in_step pairs exchange
  have hsets : (run pairs exchange).map (fun w => (w 0).formatsInOrder) = some [2, 4, 7] ∧
      (run pairs exchange).map (fun w => (w 1).formatsInOrder) = some [5, 2] ∧
      (run pairs exchange).map (fun w => (w 2).preferenceOrder) = some [] := by decide
  rw [hrun] at hsets
  obtain ⟨h0, h1, h2⟩ := hsets
  simp only [Option.map_some, Option.some_inj] at h0 h1 h2
  obtain ⟨b, result, his, hget, hiff, hfmt, -⟩ :=
    hnegotiated pairs_negotiable 0 1 2 h2
  rw [h0, h1] at hfmt
  have hres : result.formatsInOrder = [2, 4] := hfmt.trans (by decide)
  have hne : result.preferenceOrder ≠ [] := by
    intro hemp
    unfold Cap.formatsInOrder at hres
    rw [hemp] at hres
    exact cons_ne_nil _ _ hres.symm
  exact ⟨w, hrun, result, hiff.mpr hne ▸ his, hget, hres⟩

end Telephony.Formats
