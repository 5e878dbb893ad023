import Telephony.Dialplan.Patterns
import Telephony.Lib.Comparator
import Telephony.Lib.Runs
import Mathlib.Data.List.TakeWhile

/-!
# The order of the extensions of a context

`ext_cmp` puts extensions before patterns, and more specific patterns first. It compares by the
first difference: each extension has a sequence of keys (`rank`), and the order is that of the
sequences.
-/

namespace Telephony.Dialplan

open Lib Int
open List hiding iterate

abbrev underscore : UInt8 := 95

/-- A range that ends has 256 characters at most, and other ranges do not end in any number of
rounds. -/
def rounds : ℕ := 257

/-! ## The comparison -/

def signed (c : UInt8) : ℤ := if c.toNat < 128 then c.toNat else (c.toNat : ℤ) - 256

/-- By the first components, and by the second ones the other way round.
Source: `cmp = left_pos - right_pos`, `memcmp(right_bitwise, left_bitwise,
ARRAY_LEN(left_bitwise))` -/
def keyCmp (a b : ℤ × ℤ) : ℤ := if a.1 - b.1 = 0 then (b.2 - a.2).sign else a.1 - b.1

def patternStep (s : List UInt8 × List UInt8) : Option ((List UInt8 × List UInt8) ⊕ ℤ) := do
  let left ← extCmpPatternPos rounds s.1
  let right ← extCmpPatternPos rounds s.2
  let cmp := keyCmp (left.key, left.bits) (right.key, right.bits)
  match left.rest, right.rest with
  | some l, some r => if cmp = 0 then some (.inl (l, r)) else some (.inr cmp)
  | _, _ => some (.inr cmp)

def extCmpPattern (left right : List UInt8) : Option ℤ := iterate patternStep (left.length + 1) (left, right)

def extenStep (s : List UInt8 × List UInt8) : Option ((List UInt8 × List UInt8) ⊕ ℤ) :=
  let left := s.1.dropWhile (· = dash)
  let right := s.2.dropWhile (· = dash)
  let cmp := signed (left.headD 0) - signed (right.headD 0)
  if cmp ≠ 0 ∨ left.headD 0 = 0 then some (.inr cmp) else some (.inl (left.tail, right.tail))

def extCmpExten (left right : List UInt8) : Option ℤ := iterate extenStep (left.length + 1) (left, right)

def extCmp (left right : List UInt8) : Option ℤ :=
  if left.head? ≠ some underscore then
    if right.head? = some underscore then some (-1) else extCmpExten left right
  else if right.head? ≠ some underscore then some 1
  else extCmpPattern left.tail right.tail

/-! ## The list of a context -/

/-- Source: `struct ast_exten` (`exten`, `matchcid` and `cidmatch`, `priority`) -/
structure Exten where
  exten : List UInt8
  cidmatch : Option (List UInt8)
  priority : ℤ
  deriving DecidableEq, Repr

/-- Source: `ast_add_extension2_lockopt` (`scan the extension list`) -/
def extenCmp (e tmp : Exten) : Option ℤ := do
  let res ← extCmp e.exten tmp.exten
  if res = 0 then
    match e.cidmatch, tmp.cidmatch with
    | none, none => some 0
    | none, some _ => some 1
    | some _, none => some (-1)
    | some cid, some cid' => extCmp cid cid'
  else some res

/-- The priorities of an extension in ascending order; `none` if the priority is there.
Source: `add_priority` -/
def addPriority (tmp : Exten) (replace : Bool) : List Exten → Option (List Exten)
  | [] => some [tmp]
  | e :: peers =>
    if e.priority < tmp.priority then (addPriority tmp replace peers).map (e :: ·)
    else if e.priority = tmp.priority then if replace then some (tmp :: peers) else none
    else some (tmp :: e :: peers)

/-- Source: `ast_add_extension2_lockopt` -/
def addExtension (tmp : Exten) (replace : Bool) : List (Exten × List Exten) → Option (List (Exten × List Exten))
  | [] => some [(tmp, [])]
  | (e, peers) :: root => do
    let res ← extenCmp e tmp
    if res < 0 then (addExtension tmp replace root).map ((e, peers) :: ·)
    else if res = 0 then
      match addPriority tmp replace (e :: peers) with
      | some (head :: peers') => some ((head, peers') :: root)
      | _ => some ((e, peers) :: root)
    else some ((tmp, []) :: (e, peers) :: root)

def addRun (adds : List (Exten × Bool)) : Option (List (Exten × List Exten)) :=
  adds.foldlM (fun root add => addExtension add.1 add.2 root) []

/-! ## Ranks -/

inductive PatToken where
  | char (c : UInt8)
  | set (inside : List UInt8)
  | unclosed
  deriving DecidableEq, Repr

def patTokens : List UInt8 → List PatToken
  | [] => []
  | c :: p =>
    if c = dash then patTokens p
    else if c = openBracket then
      match _hend : splitSet p with
      | none => .unclosed :: patTokens p
      | some (inside, after) => .set inside :: patTokens after
    else .char c :: patTokens p
  termination_by p => p.length
  decreasing_by
    · exact Nat.lt_succ_self _
    · exact Nat.lt_succ_self _
    · exact Nat.lt_succ_of_lt (length_splitSet ‹_›)
    · exact Nat.lt_succ_self _

/-- The key of a position and its characters; a set without characters has none. -/
def PatToken.keys : PatToken → List (ℤ × ℤ)
  | .char c => [((charPosition c []).key, (charPosition c []).bits)]
  | .set inside =>
    let s := setOf inside
    if s.count = 0 then [] else [((s.count ||| s.cmin.toNat : ℕ), s.bits)]
  | .unclosed => [(0x40000, 0)]

def keys (p : List UInt8) : List (ℤ × ℤ) := (patTokens p).flatMap PatToken.keys ++ [(0x30000, 0)]

def PatToken.Ends : PatToken → Prop
  | .set inside => ∀ x ∈ setItems inside, x.2 ≠ 255
  | _ => True

def PatternEnds (p : List UInt8) : Prop := ∀ t ∈ patTokens p, t.Ends

def extenKeys : List UInt8 → List (ℤ × ℤ)
  | [] => [(0, 0)]
  | c :: s => if c = dash then extenKeys s else if c = 0 then [(0, 0)] else (signed c, 0) :: extenKeys s

def rank (s : List UInt8) : List (ℤ × ℤ) :=
  if s.head? = some underscore then (1, 0) :: keys s.tail else (0, 0) :: extenKeys s

def Returns (s : List UInt8) : Prop := s.head? = some underscore → PatternEnds s.tail

lemma keyCmp_comparator : Comparator keyCmp := by
  have hfst : Comparator fun a b : ℤ × ℤ => a.1 - b.1 := ⟨fun a b => by omega, fun a b c => by omega⟩
  have hsnd : Comparator fun a b : ℤ × ℤ => (b.2 - a.2).sign := by
    refine ⟨fun a b => ?_, fun a b c => ?_⟩
    · rw [sign_nonpos_iff, sign_nonneg_iff]
      omega
    · simp only [sign_nonpos_iff]
      omega
  exact hfst.thenBy hsnd

lemma keyCmp_eq_zero_iff {a b : ℤ × ℤ} : keyCmp a b = 0 ↔ a = b := by
  unfold keyCmp
  rw [Prod.ext_iff]
  split_ifs with h
  · rw [sign_eq_zero_iff_zero]
    omega
  · omega

/-! ## One position -/

section Position

variable {c : UInt8} {p q inside after b : List UInt8} {pos : Position}

lemma patTokens_dash : patTokens (dash :: p) = patTokens p := by
  rw [patTokens, if_pos rfl]

lemma patTokens_char (hdash : c ≠ dash) (hopen : c ≠ openBracket) : patTokens (c :: p) = .char c :: patTokens p := by
  rw [patTokens, if_neg hdash, if_neg hopen]

lemma patTokens_unclosed (h : splitSet p = none) : patTokens (openBracket :: p) = .unclosed :: patTokens p := by
  rw [patTokens, if_neg (by decide), if_pos rfl]
  split
  · rfl
  · rename_i hsome
    cases h.symm.trans hsome

lemma patTokens_set (h : splitSet p = some (inside, after)) :
    patTokens (openBracket :: p) = .set inside :: patTokens after := by
  rw [patTokens, if_neg (by decide), if_pos rfl]
  split
  · rename_i hnone
    cases h.symm.trans hnone
  · rename_i hsome
    cases h.symm.trans hsome
    rfl

/-- What is found at the first position of `p`: the end, or a key and a pattern behind it. -/
def AtPosition (p : List UInt8) (pos : Position) : Prop :=
  (pos = ⟨0x30000, 0, none⟩ ∧ keys p = [(0x30000, 0)] ∧ PatternEnds p) ∨
    ∃ q, pos.rest = some q ∧ keys p = ((pos.key : ℤ), (pos.bits : ℤ)) :: keys q ∧
      ¬ (pos.key = 0x30000 ∧ pos.bits = 0) ∧ q.length < p.length ∧ (PatternEnds p ↔ PatternEnds q)

lemma AtPosition.exists_skip (hkeys : keys p = keys q) (hlen : q.length < p.length)
    (hends : PatternEnds p ↔ PatternEnds q) {found : Option Position}
    (h : ∃ pos, found = some pos ∧ AtPosition q pos) : ∃ pos, found = some pos ∧ AtPosition p pos := by
  obtain ⟨pos, hpos, ⟨hend, hk, hq⟩ | ⟨r, hrest, hk, hkey, hlt, hq⟩⟩ := h
  · exact ⟨pos, hpos, .inl ⟨hend, hkeys.trans hk, hends.mpr hq⟩⟩
  · exact ⟨pos, hpos, .inr ⟨r, hrest, hkeys.trans hk, hkey, hlt.trans hlen, hends.trans hq⟩⟩

lemma AtPosition.token {t : PatToken} (hrest : pos.rest = some q) (htok : patTokens p = t :: patTokens q)
    (hkeys : t.keys = [((pos.key : ℤ), (pos.bits : ℤ))]) (hkey : ¬ (pos.key = 0x30000 ∧ pos.bits = 0))
    (hlen : q.length < p.length) (hends : t.Ends) : AtPosition p pos := by
  refine .inr ⟨q, hrest, ?_, hkey, hlen, ?_⟩
  · rw [keys, htok, flatMap_cons, hkeys]
    rfl
  · simp [PatternEnds, htok, hends]

lemma charPosition_eq (c : UInt8) (p : List UInt8) :
    charPosition c p = { charPosition c [] with rest := some p } := by
  unfold charPosition
  split_ifs <;> rfl

lemma charPosition_not_end (c : UInt8) (p : List UInt8) :
    ¬ ((charPosition c p).key = 0x30000 ∧ (charPosition c p).bits = 0) := by
  unfold charPosition
  split_ifs <;> simp

lemma setOf_not_end (h : (setOf inside).count ≠ 0) : (setOf inside).bits ≠ 0 := by
  intro hbits
  refine h ((setOf_count_eq_zero inside).mpr fun x hx => ?_)
  by_contra hle
  have hhas := (setOf_has inside x.1).mpr ⟨x, hx, UInt8.le_refl _, UInt8.not_lt.mp hle⟩
  simp [CharSet.Has, hbits] at hhas

/-- **A position of a pattern** is found, or the pattern does not end. Induction along what has no
key. -/
lemma position_cases (p : List UInt8) :
    (extCmpPatternPos rounds p = none ∧ ¬ PatternEnds p) ∨
      ∃ pos, extCmpPatternPos rounds p = some pos ∧ AtPosition p pos := by
  fun_induction patTokens p with
  | case1 =>
    refine .inr ⟨_, by rw [extCmpPatternPos], .inl ⟨rfl, ?_, ?_⟩⟩
    · simp [keys, patTokens]
    · simp [PatternEnds, patTokens]
  | case2 p ih =>
    have hends : PatternEnds (dash :: p) ↔ PatternEnds p := by rw [PatternEnds, patTokens_dash]; rfl
    rw [extCmpPatternPos_dash, hends]
    refine ih.imp_right (AtPosition.exists_skip ?_ (Nat.lt_succ_self _) hends)
    rw [keys, patTokens_dash]
    rfl
  | case3 p hnone _ ih =>
    exact .inr ⟨_, extCmpPatternPos_unclosed hnone,
      AtPosition.token rfl (patTokens_unclosed hnone) rfl (by simp) (Nat.lt_succ_self _) trivial⟩
  | case4 p inside after hsome _ ih =>
    have htok := patTokens_set hsome
    have hlen := Nat.lt_succ_of_lt (length_splitSet hsome)
    rw [extCmpPatternPos_set hsome]
    by_cases hends : PatToken.Ends (.set inside)
    · rw [addItems_eq (by decide) hends, ← setOf, Option.bind_some]
      split_ifs with hzero
      · have hiff : PatternEnds (openBracket :: p) ↔ PatternEnds after := by simp [PatternEnds, htok, hends]
        rw [hiff]
        refine ih.imp_right (AtPosition.exists_skip ?_ hlen hiff)
        simp [keys, htok, PatToken.keys, hzero]
      · refine .inr ⟨_, rfl, AtPosition.token rfl htok (by simp [PatToken.keys, hzero]) ?_ hlen hends⟩
        exact fun h => setOf_not_end hzero h.2
    · refine .inl ⟨by rw [addItems_endless hends]; rfl, fun h => hends (h _ ?_)⟩
      rw [htok]
      exact mem_cons_self
  | case5 c p hdash hopen ih =>
    refine .inr ⟨_, extCmpPatternPos_char hdash hopen, AtPosition.token ?_ (patTokens_char hdash hopen) ?_
      (charPosition_not_end c p) (Nat.lt_succ_self _) trivial⟩
    · rw [charPosition_eq]
    · rw [charPosition_eq, PatToken.keys]

lemma iterate_patternStep (hp : PatternEnds p) (hb : PatternEnds b) {fuel : ℕ} (hfuel : p.length < fuel) :
    iterate patternStep fuel (p, b) = some (lexCompare keyCmp (keys p) (keys b)) := by
  induction fuel generalizing p b with
  | zero => omega
  | succ fuel ih =>
    obtain ⟨l, hl, hleft⟩ := (position_cases p).resolve_left fun h => h.2 hp
    obtain ⟨r, hr, hrt⟩ := (position_cases b).resolve_left fun h => h.2 hb
    rw [iterate, patternStep]
    simp only [hl, hr, Option.bind_eq_bind, Option.bind_some]
    rcases hleft with ⟨rfl, hk, -⟩ | ⟨q, hrest, hk, hne, hlen, hq⟩
    · rcases hrt with ⟨rfl, hk', -⟩ | ⟨q', hrest', hk', hne', -, -⟩
      · rw [hk, hk']
        rfl
      · have hcmp : ¬ keyCmp (0x30000, 0) (r.key, r.bits) = 0 := by
          rw [keyCmp_eq_zero_iff, Prod.mk.injEq]
          omega
        rw [hk, hk', lexCompare, if_neg hcmp]
        rfl
    rw [hrest, hk]
    rcases hrt with ⟨rfl, hk', -⟩ | ⟨q', hrest', hk', hne', hlen', hq'⟩
    · have hcmp : ¬ keyCmp (l.key, l.bits) (0x30000, 0) = 0 := by
        rw [keyCmp_eq_zero_iff, Prod.mk.injEq]
        omega
      rw [hk', lexCompare, if_neg hcmp]
      rfl
    · rw [hrest', hk', lexCompare]
      split_ifs with hcmp
      · exact ih (hq.mp hp) (hq'.mp hb) (by omega)
      · rfl

lemma iterate_patternStep_self (hp : ¬ PatternEnds p) (fuel : ℕ) : iterate patternStep fuel (p, p) = none := by
  induction fuel generalizing p with
  | zero => rfl
  | succ fuel ih =>
    rw [iterate, patternStep]
    rcases position_cases p with ⟨hnone, -⟩ | ⟨pos, hpos, ⟨-, -, hends⟩ | ⟨q, hrest, -, -, -, hq⟩⟩
    · simp [hnone]
    · exact absurd hends hp
    · have hcmp : keyCmp ((pos.key : ℤ), (pos.bits : ℤ)) (pos.key, pos.bits) = 0 := keyCmp_eq_zero_iff.mpr rfl
      simp only [hpos, Option.bind_eq_bind, Option.bind_some, hrest, hcmp]
      exact ih fun h => hp (hq.mpr h)

end Position

/-! ## The order -/

section Rank

variable {a b : List UInt8}

lemma signed_inj {c d : UInt8} (h : signed c = signed d) : c = d := by
  have hc := c.toNat_lt
  have hd := d.toNat_lt
  unfold signed at h
  refine UInt8.toNat_inj.mp ?_
  split_ifs at h <;> omega

lemma signed_zero : signed 0 = 0 := by decide

lemma extenKeys_eq (s : List UInt8) :
    extenKeys s = (signed ((s.dropWhile (· = dash)).headD 0), 0) ::
      if (s.dropWhile (· = dash)).headD 0 = 0 then [] else extenKeys (s.dropWhile (· = dash)).tail := by
  induction s with
  | nil => rw [dropWhile_nil, headD_nil, if_pos rfl, signed_zero, extenKeys]
  | cons c s ih =>
    rw [extenKeys]
    by_cases hdash : c = dash
    · rw [if_pos hdash, ih, dropWhile_cons_of_pos (by simpa using hdash)]
    rw [dropWhile_cons_of_neg (by simpa using hdash), headD_cons]
    split_ifs with hzero
    · rw [hzero, signed_zero]
    · rfl

lemma iterate_extenStep (a b : List UInt8) {fuel : ℕ} (hfuel : a.length < fuel) :
    iterate extenStep fuel (a, b) = some (lexCompare keyCmp (extenKeys a) (extenKeys b)) := by
  induction fuel generalizing a b with
  | zero => omega
  | succ fuel ih =>
    have hkey : ∀ x y : ℤ, keyCmp (x, 0) (y, 0) = x - y := by
      intro x y
      unfold keyCmp
      split_ifs with h
      · rw [h]
        rfl
      · rfl
    have hlen := length_dropWhile_le (fun c => decide (c = dash)) a
    rw [extenKeys_eq a, extenKeys_eq b, lexCompare, hkey, iterate, extenStep]
    generalize a.dropWhile (fun c => decide (c = dash)) = l at hlen ⊢
    generalize b.dropWhile (fun c => decide (c = dash)) = r
    by_cases hcmp : signed (l.headD 0) - signed (r.headD 0) = 0
    · have hsame : l.headD 0 = r.headD 0 := signed_inj (Int.sub_eq_zero.mp hcmp)
      rw [hcmp, ← hsame]
      by_cases hzero : l.headD 0 = 0
      · simp only [hzero, or_true, if_true, lexCompare]
      simp only [hzero]
      refine ih l.tail r.tail ?_
      rcases l with _ | ⟨c, l⟩
      · exact absurd rfl hzero
      · simp only [length_cons, tail_cons] at hlen ⊢
        omega
    · rw [if_neg hcmp, if_pos (.inl hcmp)]

lemma extCmp_eq (ha : Returns a) (hb : Returns b) : extCmp a b = some (lexCompare keyCmp (rank a) (rank b)) := by
  unfold extCmp rank
  by_cases hpa : a.head? = some underscore
  · by_cases hpb : b.head? = some underscore
    · simp only [hpa, hpb]
      exact iterate_patternStep (ha hpa) (hb hpb) (Nat.lt_succ_self _)
    · simp [hpa, hpb, lexCompare, keyCmp]
  by_cases hpb : b.head? = some underscore
  · simp [hpa, hpb, lexCompare, keyCmp]
  · simp only [hpa, hpb, ne_eq]
    exact iterate_extenStep a b (Nat.lt_succ_self _)

lemma extCmp_self (ha : ¬ Returns a) : extCmp a a = none := by
  obtain ⟨hpattern, hends⟩ := Classical.not_imp.mp ha
  simp only [extCmp, hpattern]
  exact iterate_patternStep_self hends _

end Rank

/-! ## Sorted lists -/

/-- The comparison and its reverse have opposite signs, and "not greater" is transitive, on a set of
strings on which the comparison returns. -/
def IsPreorderOn (S : Set (List UInt8)) : Prop :=
  (∀ a ∈ S, ∀ b ∈ S, ∃ x y, extCmp a b = some x ∧ extCmp b a = some y ∧ x.sign = -y.sign) ∧
    ∀ a ∈ S, ∀ b ∈ S, ∀ c ∈ S, ∀ x y z, extCmp a b = some x → extCmp b c = some y → extCmp a c = some z →
      x ≤ 0 → y ≤ 0 → z ≤ 0

def StrictlySorted (root : List (Exten × List Exten)) : Prop :=
  root.Pairwise fun e e' => ∃ res < 0, extenCmp e.1 e'.1 = some res

def Exten.In (S : Set (List UInt8)) (e : Exten) : Prop := e.exten ∈ S ∧ ∀ cid ∈ e.cidmatch, cid ∈ S

def cidRank (cidmatch : Option (List UInt8)) : List (ℤ × ℤ) := cidmatch.elim [(1, 0)] fun cid => (0, 0) :: rank cid

def rankCmp (e e' : Exten) : ℤ :=
  if lexCompare keyCmp (rank e.exten) (rank e'.exten) = 0 then
    lexCompare keyCmp (cidRank e.cidmatch) (cidRank e'.cidmatch)
  else lexCompare keyCmp (rank e.exten) (rank e'.exten)

lemma rankCmp_comparator : Comparator rankCmp :=
  (keyCmp_comparator.lex.comap fun e : Exten => rank e.exten).thenBy
    (keyCmp_comparator.lex.comap fun e : Exten => cidRank e.cidmatch)

section Insert

variable {e tmp : Exten} {replace : Bool} {root : List (Exten × List Exten)} {peers l peers' : List Exten}

lemma extenCmp_eq (he : e.In {s | Returns s}) (htmp : tmp.In {s | Returns s}) :
    extenCmp e tmp = some (rankCmp e tmp) := by
  rw [extenCmp, extCmp_eq he.1 htmp.1, Option.bind_eq_bind, Option.bind_some, rankCmp]
  split_ifs
  · rcases hcid : e.cidmatch with _ | cid
    · rcases tmp.cidmatch with _ | cid' <;> rfl
    · rcases hcid' : tmp.cidmatch with _ | cid'
      · rfl
      · exact extCmp_eq (he.2 cid hcid) (htmp.2 cid' hcid')
  · rfl

lemma addPriority_head {e : Exten}
    (h : addPriority tmp replace (e :: peers) = some l) : ∃ head peers', l = head :: peers' ∧ (head = e ∨ head = tmp) := by
  rw [addPriority] at h
  split_ifs at h
  · obtain ⟨l', -, rfl⟩ := Option.map_eq_some_iff.mp h
    exact ⟨e, l', rfl, .inl rfl⟩
  · cases h
    exact ⟨tmp, peers, rfl, .inr rfl⟩
  · cases h
    exact ⟨tmp, e :: peers, rfl, .inr rfl⟩

def Filed (root : List (Exten × List Exten)) : Prop :=
  (∀ x ∈ root, x.1.In {s | Returns s}) ∧ root.Pairwise fun x y => rankCmp x.1 y.1 < 0

lemma Filed.exchange (h : Filed ((e, peers) :: root)) (htmp : tmp.In {s | Returns s})
    (hsame : rankCmp tmp e ≤ 0) : Filed ((tmp, peers') :: root) := by
  obtain ⟨hrets, hsrt⟩ := h
  obtain ⟨haft, hrest⟩ := pairwise_cons.mp hsrt
  refine ⟨forall_mem_cons.mpr ⟨htmp, (forall_mem_cons.mp hrets).2⟩, pairwise_cons.mpr ⟨?_, hrest⟩⟩
  exact fun x hx => rankCmp_comparator.lt_of_le_of_lt hsame (haft x hx)

/-- **Filing an extension** keeps the list sorted, and its heads are the old ones and the new
extension. Induction on the list. -/
lemma addExtension_filed (h : Filed root) (htmp : tmp.In {s | Returns s}) :
    ∃ root', addExtension tmp replace root = some root' ∧ Filed root' ∧
      ∀ x ∈ root', x.1 = tmp ∨ ∃ y ∈ root, x.1 = y.1 := by
  induction root with
  | nil => exact ⟨_, rfl, ⟨by simpa using htmp, by simp⟩, by simp⟩
  | cons x root ih =>
    obtain ⟨e, peers⟩ := x
    have he := h.1 _ mem_cons_self
    obtain ⟨haft, hrest⟩ := pairwise_cons.mp h.2
    rw [addExtension, extenCmp_eq he htmp, Option.bind_eq_bind, Option.bind_some]
    split_ifs with hlt hzero
    · obtain ⟨root', hroot', hfiled, hheads⟩ := ih ⟨fun y hy => h.1 y (mem_cons_of_mem _ hy), hrest⟩
      refine ⟨_, by rw [hroot']; rfl, ⟨forall_mem_cons.mpr ⟨he, hfiled.1⟩, pairwise_cons.mpr ⟨?_, hfiled.2⟩⟩, ?_⟩
      · intro y hy
        rcases hheads y hy with hnew | ⟨z, hz, hold⟩
        · rwa [hnew]
        · rw [hold]
          exact haft z hz
      · rintro y hy
        rcases mem_cons.mp hy with rfl | hy
        · exact .inr ⟨_, mem_cons_self, rfl⟩
        · exact (hheads y hy).imp_right fun ⟨z, hz, hold⟩ => ⟨z, mem_cons_of_mem _ hz, hold⟩
    · have hold : ∀ peers', ∀ y ∈ (e, peers') :: root, y.1 = tmp ∨ ∃ z ∈ (e, peers) :: root, y.1 = z.1 := by
        refine fun peers' => forall_mem_cons.mpr ⟨.inr ⟨_, mem_cons_self, rfl⟩, fun y hy => ?_⟩
        exact .inr ⟨y, mem_cons_of_mem _ hy, rfl⟩
      rcases hadd : addPriority tmp replace (e :: peers) with _ | l
      · exact ⟨_, rfl, h, hold peers⟩
      obtain ⟨head, peers', rfl, rfl | rfl⟩ := addPriority_head hadd
      · exact ⟨_, rfl, h.exchange he (rankCmp_comparator.self head).le, hold peers'⟩
      · refine ⟨_, rfl, h.exchange htmp ((rankCmp_comparator.sign _ _).mpr hzero.ge), ?_⟩
        exact forall_mem_cons.mpr ⟨.inl rfl, fun y hy => .inr ⟨y, mem_cons_of_mem _ hy, rfl⟩⟩
    · have hfst : rankCmp tmp e < 0 :=
        rankCmp_comparator.lt_of_gt (lt_of_le_of_ne (not_lt.mp hlt) (Ne.symm hzero))
      refine ⟨_, rfl, ⟨forall_mem_cons.mpr ⟨htmp, h.1⟩, pairwise_cons.mpr ⟨?_, h.2⟩⟩, ?_⟩
      · refine forall_mem_cons.mpr ⟨hfst, fun y hy => ?_⟩
        exact rankCmp_comparator.lt_of_lt_of_le hfst (haft y hy).le
      · exact forall_mem_cons.mpr ⟨.inl rfl, fun y hy => .inr ⟨y, hy, rfl⟩⟩

end Insert

/-- **The comparison sorts the extensions of a context**: it is a total preorder on a set of
strings, and additions leave a strictly sorted list, just if no character or range in a set of a
pattern ends in 255; otherwise the comparison of the pattern with itself does not return. -/
theorem extCmp_sorts_iff (S : Set (List UInt8)) :
    (IsPreorderOn S ∧ ∀ adds : List (Exten × Bool), (∀ add ∈ adds, add.1.In S) →
        ∃ root, addRun adds = some root ∧ StrictlySorted root) ↔
      ∀ s ∈ S, Returns s := by
  have hlex := keyCmp_comparator.lex
  constructor
  · rintro ⟨⟨hsign, -⟩, -⟩ s hs
    by_contra hrets
    obtain ⟨x, -, hx, -⟩ := hsign s hs s hs
    cases (extCmp_self hrets).symm.trans hx
  · intro h
    refine ⟨⟨fun a ha b hb => ?_, fun a ha b hb c hc x y z hx hy hz => ?_⟩, fun adds hadds => ?_⟩
    · refine ⟨_, _, extCmp_eq (h a ha) (h b hb), extCmp_eq (h b hb) (h a ha), ?_⟩
      rcases lt_trichotomy (lexCompare keyCmp (rank a) (rank b)) 0 with hlt | heq | hgt
      · have hgt : 0 < lexCompare keyCmp (rank b) (rank a) := by
          have := hlex.sign (rank b) (rank a)
          omega
        rw [sign_eq_neg_one_of_neg hlt, sign_eq_one_of_pos hgt]
      · have heq' : lexCompare keyCmp (rank b) (rank a) = 0 := by
          have := hlex.sign (rank b) (rank a)
          have := hlex.sign (rank a) (rank b)
          omega
        rw [heq, heq']
        rfl
      · rw [sign_eq_one_of_pos hgt, sign_eq_neg_one_of_neg (hlex.lt_of_gt hgt)]
        rfl
    · rw [extCmp_eq (h a ha) (h b hb)] at hx
      rw [extCmp_eq (h b hb) (h c hc)] at hy
      rw [extCmp_eq (h a ha) (h c hc)] at hz
      cases hx
      cases hy
      cases hz
      exact hlex.trans _ _ _
    · obtain ⟨root, hroot, hrets, hsrt⟩ : ∃ root, addRun adds = some root ∧ Filed root := by
        refine foldlM_total (fun add hadd root hroot => ?_) ⟨by simp, by simp⟩
        obtain ⟨root', hroot', hfiled, -⟩ := addExtension_filed hroot
          ⟨h _ (hadds add hadd).1, fun cid hcid => h _ ((hadds add hadd).2 cid hcid)⟩
        exact ⟨root', hroot', hfiled⟩
      refine ⟨root, hroot, hsrt.imp_of_mem fun hx hy hlt => ⟨_, hlt, ?_⟩⟩
      exact extenCmp_eq (hrets _ hx) (hrets _ hy)

/-- The pattern `_[\xff]`, which has no range, compared with itself: the comparison does not
return. -/
theorem extCmp_not_returns : extCmp [95, 91, 255, 93] [95, 91, 255, 93] = none := by
  have htok : patTokens [91, 255, 93] = .set [255] :: patTokens [] :=
    patTokens_set (show splitSet [255, 93] = some ([255], []) from rfl)
  refine extCmp_self fun h => ?_
  have hset : PatToken.Ends (.set [255]) := h rfl _ (by rw [tail_cons, htok]; exact mem_cons_self)
  exact hset (255, 255) (by decide) rfl

end Telephony.Dialplan
