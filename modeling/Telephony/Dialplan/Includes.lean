import Telephony.Lib.Dfs
import Mathlib.Data.List.Pairwise

/-!
# The search through included contexts

`pbx_find_extension` looks for an extension in a context and then in the contexts that it includes.
The contexts that were searched without success are kept on a stack, which is never popped. Names on
the stack are compared without regard to case, but contexts are found by their exact names: of two
contexts whose names differ in case only, one is not searched.

The contexts have no switches, and the extensions of a context are tried one after the other (the
default algorithm). `fuel` bounds the depth of the recursion.
-/

namespace Telephony.Dialplan

open Lib List Option

abbrev Name := List Char

/-- Source: `AST_PBX_MAX_STACK` -/
def maxStack : ℕ := 512

/-- Source: `strcasecmp` -/
def sameName (a b : Name) : Bool := a.map Char.toLower = b.map Char.toLower

/-- Source: `struct ast_include`, `include_valid` -/
structure Include where
  rname : Name
  valid : Bool
  deriving DecidableEq, Repr

/-- An extension of a context: what the dialled number gives, whether the Caller*ID matches, and the
priorities.
Source: `extension_match_core`, `matchcid`, `peer_table` -/
structure Entry where
  matched : ℕ
  cid : Bool
  priorities : List ℤ
  deriving DecidableEq, Repr

/-- The contexts, by their exact names, and their extensions.
Source: `contexts_table`, `ast_hashtab_compare_contexts` -/
structure Contexts where
  includes : Name → Option (List Include)
  extens : Name → List Entry

/-- Source: `struct pbx_find_info`; `searched` are the contexts in the order in which they were
searched -/
structure FindInfo where
  incstack : List Name
  searched : List Name
  deriving DecidableEq, Repr

/-- Source: `pbx_find_extension` (`scan the list trying to match extension and CID`) -/
def Contexts.findIn (dp : Contexts) (priority : ℤ) (context : Name) : Option Entry :=
  (dp.extens context).find? fun e => e.matched ≠ 0 && e.cid && priority ∈ e.priorities

/-- Source: `pbx_find_extension` (`Now try any includes we have in this context`) -/
def tryIncludes (find : Name → FindInfo → Option (Option Entry × FindInfo)) :
    List Include → FindInfo → Option (Option Entry × FindInfo)
  | [], q => some (none, q)
  | i :: includes, q =>
    if i.valid then
      (find i.rname q).bind fun r => if r.1.isSome then some r else tryIncludes find includes r.2
    else tryIncludes find includes q

def pbxFindExtension (dp : Contexts) (priority : ℤ) :
    ℕ → Name → FindInfo → Option (Option Entry × FindInfo)
  | 0, _, _ => none
  | fuel + 1, context, q =>
    if maxStack ≤ q.incstack.length then some (none, q)
    else if q.incstack.any (sameName · context) then some (none, q)
    else
      match dp.includes context with
      | none => some (none, q)
      | some includes =>
        match dp.findIn priority context with
        | some e => some (some e, { q with searched := q.searched ++ [context] })
        | none =>
          tryIncludes (pbxFindExtension dp priority fuel) includes ⟨q.incstack ++ [context], q.searched ++ [context]⟩

/-! ## What the search is to do -/

def targets (includes : List Include) : List Name := (includes.filter Include.valid).map Include.rname

def Contexts.next (dp : Contexts) (context : Name) : Option (List Name) := (dp.includes context).map targets

def Searched (dp : Contexts) (priority : ℤ) (start : Name) : Prop :=
  ∃ order, Preorder dp.next [] [start] order ∧ order.Nodup ∧ (∀ n, n ∈ order ↔ Reaches dp.next [start] n) ∧
    ∃ r, (∀ fuel, order.length < fuel → pbxFindExtension dp priority fuel start ⟨[], []⟩ = some r) ∧
      r.2.searched <+: order ∧ (r.1 = none → r.2.searched = order) ∧ r.2.incstack.length ≤ maxStack ∧
      (r.1.isSome ↔ ∃ n, Reaches dp.next [start] n ∧ (dp.findIn priority n).isSome)

def Distinct (R : Finset Name) : Prop := ∀ a ∈ R, ∀ b ∈ R, sameName a b → a = b

def outcome (dp : Contexts) (priority : ℤ) : List Name → FindInfo → Option Entry × FindInfo
  | [], q => (none, q)
  | n :: order, q =>
    match dp.findIn priority n with
    | some e => (some e, { q with searched := q.searched ++ [n] })
    | none => outcome dp priority order ⟨q.incstack ++ [n], q.searched ++ [n]⟩

section Search

variable {dp : Contexts} {priority : ℤ} {order : List Name}

lemma outcome_append (first second : List Name) (q : FindInfo) :
    outcome dp priority (first ++ second) q =
      if (outcome dp priority first q).1.isSome then outcome dp priority first q
      else outcome dp priority second (outcome dp priority first q).2 := by
  induction first generalizing q with
  | nil => simp [outcome]
  | cons n first ih =>
    rw [cons_append, outcome, outcome]
    rcases dp.findIn priority n with _ | e
    · exact ih _
    · rfl

lemma outcome_spec (order : List Name) (q : FindInfo) :
    let r := outcome dp priority order q
    (r.1.isSome ↔ ∃ n ∈ order, (dp.findIn priority n).isSome) ∧
      (r.1 = none → r.2 = ⟨q.incstack ++ order, q.searched ++ order⟩) ∧
      (∃ rest, q.searched ++ order = r.2.searched ++ rest) ∧
      r.2.incstack.length ≤ q.incstack.length + order.length := by
  induction order generalizing q with
  | nil => simp [outcome]
  | cons n order ih =>
    rw [outcome]
    rcases hfind : dp.findIn priority n with _ | e
    · dsimp only
      obtain ⟨hsome, hnone, hpre, hlen⟩ := ih ⟨q.incstack ++ [n], q.searched ++ [n]⟩
      simp only [append_assoc, length_append, length_singleton] at hnone hpre hlen
      refine ⟨?_, hnone, hpre, by rw [length_cons]; omega⟩
      rw [hsome, exists_mem_cons_iff, hfind]
      simp
    · refine ⟨iff_of_true rfl ⟨n, mem_cons_self, by rw [hfind]; rfl⟩, by simp, ⟨order, by simp⟩, by simp⟩

def tryList (find : Name → FindInfo → Option (Option Entry × FindInfo)) :
    List Name → FindInfo → Option (Option Entry × FindInfo)
  | [], q => some (none, q)
  | n :: names, q => (find n q).bind fun r => if r.1.isSome then some r else tryList find names r.2

lemma tryIncludes_eq (find : Name → FindInfo → Option (Option Entry × FindInfo)) (includes : List Include)
    (q : FindInfo) : tryIncludes find includes q = tryList find (targets includes) q := by
  induction includes generalizing q with
  | nil => rfl
  | cons i includes ih =>
    rw [tryIncludes, targets, filter_cons]
    split_ifs
    · simp only [ih]
      rfl
    · exact ih q

/-- **The search follows the depth-first preorder** when no two names differ in case only. Induction
on the preorder. -/
lemma tryList_eq {R : Finset Name} (hdst : Distinct R)
    (hcl : ∀ m ∈ R, ∀ succ, dp.next m = some succ → ∀ n ∈ succ, (dp.next n).isSome → n ∈ R)
    {seen todo order : List Name} (h : Preorder dp.next seen todo order) (hseen : ∀ n ∈ seen, n ∈ R)
    (htodo : ∀ n ∈ todo, (dp.next n).isSome → n ∈ R) (hroom : seen.length + order.length < maxStack) {fuel : ℕ}
    (hfuel : order.length < fuel) {q : FindInfo} (hq : q.incstack = seen) :
    tryList (pbxFindExtension dp priority fuel) todo q = some (outcome dp priority order q) := by
  induction h generalizing fuel q with
  | nil => rfl
  | @skip n seen todo order hskip _ ih =>
    obtain _ | fuel := fuel
    · omega
    have hfind : pbxFindExtension dp priority (fuel + 1) n q = some (none, q) := by
      rw [pbxFindExtension, if_neg (by rw [hq]; omega)]
      split_ifs with hany
      · rfl
      · rcases hskip with hmem | hnone
        · exact absurd (any_eq_true.mpr ⟨n, hq ▸ hmem, decide_eq_true rfl⟩) hany
        · rw [map_eq_none_iff.mp hnone]
    rw [tryList, hfind]
    exact ih hseen (fun m hm => htodo m (mem_cons_of_mem _ hm)) hroom hfuel hq
  | @visit n seen todo succ inner order hnew hnext hinn _ ihin ih =>
    obtain _ | fuel := fuel
    · omega
    simp only [length_cons, length_append] at hroom hfuel
    have hn := htodo n mem_cons_self (by rw [hnext]; rfl)
    have hany : ¬ q.incstack.any (sameName · n) = true := by
      intro hany
      obtain ⟨m, hm, hsame⟩ := any_eq_true.mp hany
      rw [hq] at hm
      exact hnew (hdst m (hseen m hm) n hn hsame ▸ hm)
    obtain ⟨includes, hincl, rfl⟩ := map_eq_some_iff.mp hnext
    rw [tryList, pbxFindExtension, if_neg (by rw [hq]; omega), if_neg hany, hincl, outcome]
    rcases dp.findIn priority n with _ | e
    · have hseen' : ∀ m ∈ seen ++ [n], m ∈ R := by
        intro m hm
        rcases mem_append.mp hm with hm | hm
        · exact hseen m hm
        · exact mem_singleton.mp hm ▸ hn
      dsimp only
      rw [tryIncludes_eq, ihin hseen' (hcl n hn _ hnext) (by simp; omega) (by omega) (by rw [hq]), bind_some,
        outcome_append]
      split_ifs with hsome
      · rfl
      have hstack := (@outcome_spec dp priority inner ⟨q.incstack ++ [n], q.searched ++ [n]⟩).2.1
        (not_isSome_iff_eq_none.mp hsome)
      refine ih (fun m hm => ?_) (fun m hm => htodo m (mem_cons_of_mem _ hm)) (by simp; omega) (by omega) ?_
      · rcases mem_append.mp hm with hm | hm
        · exact hseen m hm
        · rcases mem_cons.mp hm with rfl | hm
          · exact hn
          · exact (hinn.reaches m hm).of_closed (hcl n hn _ hnext) hcl
      · rw [hstack, hq]
        simp
    · rfl

lemma searched_of_distinct {start : Name} {R : Finset Name} (hR : ∀ n, n ∈ R ↔ Reaches dp.next [start] n)
    (hcard : R.card < maxStack) (hdst : Distinct R) : Searched dp priority start := by
  have hcl : ∀ m ∈ R, ∀ succ, dp.next m = some succ → ∀ n ∈ succ, (dp.next n).isSome → n ∈ R :=
    fun m hm succ hnext n hn hnode => (hR n).mpr (((hR m).mp hm).step hnext hn hnode)
  have hsta : ∀ n ∈ [start], (dp.next n).isSome → n ∈ R := fun n hn hnode => (hR n).mpr (.start hn hnode)
  obtain ⟨order, hord⟩ := exists_preorder R hcl (Nat.le_refl (R.filter (· ∉ [])).card) hsta
  obtain ⟨hnd, -⟩ := hord.nodup
  have hlen : order.length ≤ R.card := by
    rw [← toFinset_card_of_nodup hnd]
    exact Finset.card_le_card fun n hn => (hR n).mpr (hord.reaches n (mem_toFinset.mp hn))
  obtain ⟨hfnd, hall, ⟨rest, hrest⟩, hstack⟩ := @outcome_spec dp priority order ⟨[], []⟩
  refine ⟨order, hord, hnd, hord.mem_iff, outcome dp priority order ⟨[], []⟩, fun fuel hfuel => ?_,
    ⟨rest, hrest.symm⟩, fun hnone => by rw [hall hnone]; rfl, ?_, ?_⟩
  · have hrun := @tryList_eq dp priority R hdst hcl [] _ order hord (by simp) hsta (by simp; omega) fuel
      hfuel ⟨[], []⟩ rfl
    obtain ⟨r, hr, hout⟩ := bind_eq_some_iff.mp hrun
    rw [hr, ← hout]
    split_ifs with hsome
    · rfl
    · rw [tryList, ← not_isSome_iff_eq_none.mp hsome]
  · simp only [length_nil] at hstack
    omega
  · rw [hfnd]
    exact exists_congr fun n => and_congr_left fun _ => hord.mem_iff n

/-- The stack has the contexts that were searched, and no two names on it differ in case only. -/
def FindInfo.Sound (q : FindInfo) : Prop :=
  q.searched = q.incstack ∧ q.incstack.Pairwise fun a b => ¬ sameName a b

lemma tryList_sound {find : Name → FindInfo → Option (Option Entry × FindInfo)}
    (hfind : ∀ n q r, q.Sound → find n q = some r → r.2.Sound) (names : List Name) {q : FindInfo} (hq : q.Sound)
    {r : Option Entry × FindInfo} (h : tryList find names q = some r) : r.2.Sound := by
  induction names generalizing q with
  | nil =>
    cases h
    exact hq
  | cons n names ih =>
    obtain ⟨r', hr', h⟩ := bind_eq_some_iff.mp h
    have hr := hfind n q r' hq hr'
    split_ifs at h
    · cases h
      exact hr
    · exact ih hr h

lemma pbxFindExtension_sound (hnone : ∀ n, dp.findIn priority n = none) (fuel : ℕ) (n : Name) (q : FindInfo)
    (r : Option Entry × FindInfo) (hq : q.Sound) (h : pbxFindExtension dp priority fuel n q = some r) :
    r.2.Sound := by
  induction fuel generalizing n q r with
  | zero => cases h
  | succ fuel ih =>
    rw [pbxFindExtension] at h
    split_ifs at h with hfull hany
    · cases h
      exact hq
    · cases h
      exact hq
    rcases hincl : dp.includes n with _ | includes
    · rw [hincl] at h
      cases h
      exact hq
    rw [hincl, hnone] at h
    dsimp only at h
    rw [tryIncludes_eq] at h
    refine tryList_sound ih _ ⟨by rw [hq.1], pairwise_append.mpr ⟨hq.2, by simp, ?_⟩⟩ h
    intro a ha b hb hsame
    rw [mem_singleton.mp hb] at hsame
    exact hany (any_eq_true.mpr ⟨a, ha, hsame⟩)

end Search

/-- **The search through included contexts**, when fewer contexts than the stack has room for can be
reached, is right whatever extensions there are just if no two of them have names that differ in
case only. -/
theorem pbxFindExtension_searches_iff (includes : Name → Option (List Include)) (start : Name) (R : Finset Name)
    (hR : ∀ n, n ∈ R ↔ Reaches (fun m => (includes m).map targets) [start] n) (hcard : R.card < maxStack) :
    (∀ extens priority, Searched ⟨includes, extens⟩ priority start) ↔ Distinct R := by
  constructor
  · intro h a ha b hb hsame
    obtain ⟨order, -, -, hmem, r, hr, -, hall, -, hfnd⟩ := h (fun _ => []) 0
    have hnothing : ∀ n, (⟨includes, fun _ => []⟩ : Contexts).findIn 0 n = none := fun n => rfl
    have hr1 : r.1 = none := by
      rw [← not_isSome_iff_eq_none, hfnd]
      rintro ⟨n, -, hn⟩
      cases hn
    have hsnd := pbxFindExtension_sound hnothing _ _ _ _ ⟨rfl, List.Pairwise.nil⟩ (hr _ (Nat.lt_succ_self _))
    rw [FindInfo.Sound, ← hsnd.1, hall hr1] at hsnd
    by_contra hne
    have hsymm : Std.Symm fun x y : Name => ¬ sameName x y = true :=
      ⟨fun x y hxy hyx => hxy (decide_eq_true (of_decide_eq_true hyx).symm)⟩
    exact hsnd.2.forall ((hmem a).mpr ((hR a).mp ha)) ((hmem b).mpr ((hR b).mp hb)) hne hsame
  · exact fun hdst extens priority => @searched_of_distinct ⟨includes, extens⟩ priority start R hR hcard hdst

def including (a b n : Name) : Option (List Include) :=
  if n = ['s'] then some [⟨a, true⟩, ⟨b, true⟩] else if n = a ∨ n = b then some [] else none

/-- With the names `b` and `c`, the search from `s` for an extension of `c` is right. -/
theorem pbxFindExtension_searches_iff_bc :
    Searched ⟨including ['b'] ['c'], fun n => if n = ['c'] then [⟨1, true, [1]⟩] else []⟩ 1 ['s'] := by
  have hsta : Reaches (fun m => (including ['b'] ['c'] m).map targets) [['s']] ['s'] :=
    .start mem_cons_self rfl
  refine (pbxFindExtension_searches_iff (including ['b'] ['c']) ['s'] {['s'], ['b'], ['c']} (fun n => ?_)
    (by decide)).mpr (by unfold Distinct; decide) _ 1
  simp only [Finset.mem_insert, Finset.mem_singleton]
  constructor
  · rintro (rfl | rfl | rfl)
    · exact hsta
    · exact hsta.step rfl mem_cons_self rfl
    · exact hsta.step rfl (mem_cons_of_mem _ mem_cons_self) rfl
  · refine fun hn => hn.of_closed (P := fun k => k = ['s'] ∨ k = ['b'] ∨ k = ['c']) (by simp) ?_
    rintro m (rfl | rfl | rfl) succ hsucc k hk -
    · cases hsucc
      exact .inr (by simpa [targets] using hk)
    · cases hsucc
      cases hk
    · cases hsucc
      cases hk

/-- With the names `b` and `B`, the extension in `B` is not found. -/
theorem pbxFindExtension_misses :
    Reaches (fun m => (including ['b'] ['B'] m).map targets) [['s']] ['B'] ∧
      (⟨including ['b'] ['B'], fun n => if n = ['B'] then [⟨1, true, [1]⟩] else []⟩ : Contexts).findIn 1 ['B'] =
        some ⟨1, true, [1]⟩ ∧
      pbxFindExtension ⟨including ['b'] ['B'], fun n => if n = ['B'] then [⟨1, true, [1]⟩] else []⟩ 1 3 ['s']
        ⟨[], []⟩ = some (none, ⟨[['s'], ['b']], [['s'], ['b']]⟩) := by
  refine ⟨?_, by decide, by decide⟩
  exact (Reaches.start mem_cons_self rfl).step rfl (mem_cons_of_mem ['b'] mem_cons_self) rfl

end Telephony.Dialplan
