import Telephony.Lib.Loop
import Mathlib.Data.List.Destutter

/-!
# Patterns of the dialplan

An extension that starts with an underscore is a pattern. Two functions of `main/pbx.c` take it
apart, one position after the other: `get_pattern_node` for the trie of a context, with escapes in
sets, and `ext_cmp_pattern_pos` for the order of the extensions, without. Both count through a range
with an `unsigned char`, which never exceeds a last character of 255.

A string is the list of its bytes, without the zero that ends it. `fuel` bounds the rounds of each
loop.
-/

namespace Telephony.Dialplan

open Lib List Nat

abbrev dash : UInt8 := 45
abbrev openBracket : UInt8 := 91
abbrev backslash : UInt8 := 92
abbrev closeBracket : UInt8 := 93

/-! ## Ranges -/

section Range

variable {σ : Type} (put : σ → UInt8 → σ)

/-- Source: `for (; c1 <= c2; ++c1)`, `while (++first <= last)` -/
def rangeStep (last : UInt8) (s : UInt8 × σ) : Option ((UInt8 × σ) ⊕ σ) :=
  if s.1 ≤ last then some (.inl (s.1 + 1, put s.2 s.1)) else some (.inr s.2)

def rangeLoop (fuel : ℕ) (first last : UInt8) (s : σ) : Option σ :=
  iterate (rangeStep put last) fuel (first, s)

def charsOf (first last : UInt8) : List UInt8 :=
  (List.range' first.toNat (last.toNat + 1 - first.toNat)).map UInt8.ofNat

variable {put}

variable {first last : UInt8} {fuel n : ℕ} {ι : Type} {step : σ → ι → Option σ} {items : List ι}

lemma iterate_rangeStep (hlast : last ≠ 255) (s : σ) (hn : n = last.toNat + 1 - first.toNat) (hfuel : n < fuel) :
    iterate (rangeStep put last) fuel (first, s) =
      some (((List.range' first.toNat n).map UInt8.ofNat).foldl put s) := by
  have hbd : last.toNat < 255 := by
    have hne : last.toNat ≠ 255 := fun h => hlast (UInt8.toNat_inj.mp h)
    have := last.toNat_lt
    omega
  induction n generalizing first s fuel with
  | zero =>
    obtain _ | fuel := fuel
    · omega
    have hend : ¬ first ≤ last := by
      rw [UInt8.le_iff_toNat_le]
      omega
    have hstep : rangeStep put last (first, s) = some (.inr s) := if_neg hend
    exact iterate_done hstep fuel
  | succ n ih =>
    obtain _ | fuel := fuel
    · omega
    have hgo : first ≤ last := UInt8.le_iff_toNat_le.mpr (by omega)
    have hnext : (first + 1).toNat = first.toNat + 1 := by
      exact mod_eq_of_lt (by change first.toNat + 1 < 256; omega)
    have hstep : rangeStep put last (first, s) = some (.inl (first + 1, put s first)) := if_pos hgo
    rw [iterate_next hstep, ih (put s first) (by omega) (by omega), hnext, range'_succ, map_cons,
      foldl_cons, UInt8.ofNat_toNat]

lemma rangeLoop_eq (hlast : last ≠ 255) (s : σ) (hfuel : 256 < fuel) :
    rangeLoop put fuel first last s = some ((charsOf first last).foldl put s) := by
  have := last.toNat_lt
  exact iterate_rangeStep hlast s rfl (by omega)

lemma rangeLoop_endless (fuel : ℕ) (first : UInt8) (s : σ) : rangeLoop put fuel first 255 s = none := by
  induction fuel generalizing first s with
  | zero => rfl
  | succ fuel ih =>
    have hgo : first ≤ 255 := UInt8.le_iff_toNat_le.mpr (le_of_lt_succ first.toNat_lt)
    have hstep : rangeStep put 255 (first, s) = some (.inl (first + 1, put s first)) := if_pos hgo
    exact (iterate_next hstep fuel).trans (ih _ _)

lemma foldlM_eq_foldl {value : σ → ι → σ} (h : ∀ i ∈ items, ∀ s, step s i = some (value s i)) (s : σ) :
    items.foldlM step s = some (items.foldl value s) := by
  induction items generalizing s with
  | nil => rfl
  | cons i items ih =>
    rw [foldlM_cons, h i (by simp), Option.bind_eq_bind, Option.bind_some, ih fun j hj => h j (mem_cons_of_mem _ hj)]
    rfl

lemma foldlM_endless (h : ∃ i ∈ items, ∀ s, step s i = none) (s : σ) : items.foldlM step s = none := by
  induction items generalizing s with
  | nil => obtain ⟨i, hi, -⟩ := h; cases hi
  | cons i items ih =>
    rw [foldlM_cons]
    rcases hstep : step s i with _ | s'
    · rfl
    obtain ⟨j, hj, hnone⟩ := h
    rcases mem_cons.mp hj with rfl | hj
    · cases (hnone s).symm.trans hstep
    · exact ih ⟨j, hj, hnone⟩ s'

end Range

/-! ## A position for the trie -/

/-- A member of a set: a character that is stored, or a range behind a character. -/
inductive SetToken where
  | char (c : UInt8)
  | range (first last : UInt8)
  deriving DecidableEq, Repr

def SetToken.before (t : SetToken) (rest : List SetToken × List UInt8) : List SetToken × List UInt8 :=
  (t :: rest.1, rest.2)

/-- The members of a set up to its bracket, and what is behind it. A dash is a range only if
something was stored before it.
Source: `get_pattern_node` (`for (;;)`) -/
def lexSet (started : Bool) (prev : UInt8) (src : List UInt8) : List SetToken × List UInt8 :=
  match src with
  | [] => ([], [])
  | c :: src =>
    if c = backslash then
      match src with
      | [] => ([], [])
      | d :: rest =>
        if d = openBracket ∨ d = backslash ∨ d = dash ∨ d = closeBracket then (SetToken.char d).before (lexSet true d rest)
        else lexSet started c (d :: rest)
    else if c = dash then
      match src with
      | [] => (SetToken.char c).before (lexSet true c [])
      | last :: rest =>
        if started = false then (SetToken.char c).before (lexSet true c (last :: rest))
        else if last = backslash then
          match rest with
          | [] => (SetToken.char c).before (lexSet true c [last])
          | last' :: rest' => (SetToken.range prev last').before (lexSet true last' rest')
        else (SetToken.range prev last).before (lexSet true last rest)
    else if c = closeBracket then ([], src)
    else (SetToken.char c).before (lexSet true c src)
  termination_by src.length

/-- A character is stored, or a range is expanded from the character behind its first one on. -/
def SetToken.expand (fuel : ℕ) (buf : List UInt8) : SetToken → Option (List UInt8)
  | .char c => some (buf ++ [c])
  | .range first last => rangeLoop (fun b c => b ++ [c]) fuel (first + 1) last buf

/-- Source: `struct pattern_node` -/
structure PatternNode where
  specif : ℕ
  buf : List UInt8
  deriving DecidableEq, Repr

/-- A set that is too large for the buffer, or has no characters.
Source: `get_pattern_node` (`if (overflow)`, `if (!length)`) -/
def Ignored (buf : List UInt8) : Prop := 255 < buf.length ∨ buf.takeWhile (· ≠ 0) = []

instance (buf : List UInt8) : Decidable (Ignored buf) := inferInstanceAs (Decidable (_ ∨ _))

def PatternNode.ofSet (buf : List UInt8) : PatternNode :=
  let set := ((buf.takeWhile (· ≠ 0)).mergeSort (· ≤ ·)).destutter (· ≠ ·)
  ⟨set.length <<< 8 ||| (set.headD 0).toNat, set⟩

/-- Source: `get_pattern_node` (`make sure n,x,z patterns are canonicalized to N,X,Z`) -/
def canonical (pattern : Bool) (c : UInt8) : UInt8 :=
  if pattern ∧ (c = 110 ∨ c = 120 ∨ c = 122) then c - 32 else c

lemma length_lexSet (started : Bool) (prev : UInt8) (src : List UInt8) :
    (lexSet started prev src).2.length ≤ src.length := by
  fun_induction lexSet started prev src <;> simp_all [SetToken.before] <;> omega

/-- Source: `get_pattern_node` -/
def getPatternNode (fuel : ℕ) (pattern : Bool) : List UInt8 → Option (PatternNode × List UInt8)
  | [] => some (⟨0, []⟩, [])
  | c :: src =>
    if c = openBracket ∧ pattern then do
      let buf ← (lexSet false c src).1.foldlM (SetToken.expand fuel) []
      if Ignored buf then getPatternNode fuel pattern (lexSet false c src).2
      else some (.ofSet buf, (lexSet false c src).2)
    else if c = dash then getPatternNode fuel pattern src
    else if c = backslash then
      match src with
      | [] => some (⟨0, []⟩, [])
      | d :: rest => some (⟨1, [d]⟩, rest)
    else some (⟨1, [canonical pattern c]⟩, src)
  termination_by src => src.length
  decreasing_by
    · exact lt_succ_of_le (length_lexSet false c src)
    · exact lt_succ_self _

/-! ## A position for the order -/

/-- Source: `strchr(*p, ']')` -/
def splitSet : List UInt8 → Option (List UInt8 × List UInt8)
  | [] => none
  | c :: p => if c = closeBracket then some ([], p) else (splitSet p).map fun x => (c :: x.1, x.2)

/-- The ranges of a set; a single character is a range too.
Source: `if (*p + 2 < end && (*p)[1] == '-')` -/
def setItems : List UInt8 → List (UInt8 × UInt8)
  | c :: d :: e :: p => if d = dash then (c, e) :: setItems p else (c, c) :: setItems (d :: e :: p)
  | c :: p => (c, c) :: setItems p
  | [] => []

/-- The characters of a set so far. The 32 bytes of `bitwise` are one number of 256 bits; the
highest one stands for the character 0. -/
structure CharSet where
  bits : ℕ
  count : ℕ
  cmin : UInt8
  deriving DecidableEq, Repr

/-- Source: `ext_cmp_pattern_pos` (`Add the character to the set.`) -/
def CharSet.add (s : CharSet) (c : UInt8) : CharSet :=
  if s.bits.testBit (255 - c.toNat) then s
  else { s with bits := s.bits ||| 1 <<< (255 - c.toNat), count := s.count + 0x100 }

def CharSet.addItem (fuel : ℕ) (s : CharSet) (item : UInt8 × UInt8) : Option CharSet :=
  rangeLoop CharSet.add fuel item.1 item.2 { s with cmin := min s.cmin item.1 }

/-- The key of a position, its characters and the pattern behind it; `none` at the end. -/
structure Position where
  key : ℕ
  bits : ℕ
  rest : Option (List UInt8)
  deriving DecidableEq, Repr

/-- Source: `ext_cmp_pattern_pos` (`switch (c)`) -/
def charPosition (c : UInt8) (p : List UInt8) : Position :=
  if c = 110 ∨ c = 78 then ⟨0x800 ||| 50, 0x3fc0 <<< 192, some p⟩
  else if c = 120 ∨ c = 88 then ⟨0xA00 ||| 48, 0xffc0 <<< 192, some p⟩
  else if c = 122 ∨ c = 90 then ⟨0x900 ||| 49, 0x7fc0 <<< 192, some p⟩
  else if c = 46 then ⟨0x18000, 0, some p⟩
  else if c = 33 then ⟨0x28000, 0, some p⟩
  else ⟨0x100 ||| c.toNat, 1 <<< (255 - c.toNat), some p⟩

lemma length_splitSet {p : List UInt8} {x : List UInt8 × List UInt8} (h : splitSet p = some x) :
    x.2.length < p.length := by
  induction p generalizing x with
  | nil => cases h
  | cons c p ih =>
    rw [splitSet] at h
    split_ifs at h
    · cases h
      exact lt_succ_self _
    · obtain ⟨y, hy, rfl⟩ := Option.map_eq_some_iff.mp h
      have hlt := ih hy
      exact lt_succ_of_lt hlt

/-- Source: `ext_cmp_pattern_pos` -/
def extCmpPatternPos (fuel : ℕ) : List UInt8 → Option Position
  | [] => some ⟨0x30000, 0, none⟩
  | c :: p =>
    if c = dash then extCmpPatternPos fuel p
    else if c = openBracket then
      match _hend : splitSet p with
      | none => some ⟨0x40000, 0, some p⟩
      | some (inside, after) => do
        let s ← (setItems inside).foldlM (CharSet.addItem fuel) ⟨0, 0, 0xFF⟩
        if s.count = 0 then extCmpPatternPos fuel after
        else some ⟨s.count ||| s.cmin.toNat, s.bits, some after⟩
    else some (charPosition c p)
  termination_by p => p.length
  decreasing_by
    · exact lt_succ_self _
    · exact lt_succ_of_lt (length_splitSet ‹_›)

section Equations

variable {fuel : ℕ} {c : UInt8} {p inside after : List UInt8}

lemma extCmpPatternPos_dash : extCmpPatternPos fuel (dash :: p) = extCmpPatternPos fuel p := by
  rw [extCmpPatternPos, if_pos rfl]

lemma extCmpPatternPos_char (hdash : c ≠ dash) (hopen : c ≠ openBracket) :
    extCmpPatternPos fuel (c :: p) = some (charPosition c p) := by
  rw [extCmpPatternPos, if_neg hdash, if_neg hopen]

lemma extCmpPatternPos_unclosed (h : splitSet p = none) :
    extCmpPatternPos fuel (openBracket :: p) = some ⟨0x40000, 0, some p⟩ := by
  rw [extCmpPatternPos, if_neg (by decide), if_pos rfl]
  split
  · rfl
  · rename_i hsome
    cases h.symm.trans hsome

lemma extCmpPatternPos_set (h : splitSet p = some (inside, after)) :
    extCmpPatternPos fuel (openBracket :: p) =
      ((setItems inside).foldlM (CharSet.addItem fuel) ⟨0, 0, 0xFF⟩).bind fun s =>
        if s.count = 0 then extCmpPatternPos fuel after else some ⟨s.count ||| s.cmin.toNat, s.bits, some after⟩ := by
  rw [extCmpPatternPos, if_neg (by decide), if_pos rfl]
  split
  · rename_i hnone
    cases h.symm.trans hnone
  · rename_i hsome
    cases h.symm.trans hsome
    rfl

end Equations

/-! ## When they end -/

def SetToken.Ends : SetToken → Prop
  | .char _ => True
  | .range _ last => last ≠ 255

def SetToken.chars : SetToken → List UInt8
  | .char c => [c]
  | .range first last => charsOf (first + 1) last

/-- No range ends in 255 in the sets that are read: those up to the first one that is not ignored,
before anything else but dashes. -/
def NodeEnds (pattern : Bool) : List UInt8 → Prop
  | [] => True
  | c :: src =>
    if c = openBracket ∧ pattern then
      (∀ t ∈ (lexSet false c src).1, t.Ends) ∧
        (Ignored ((lexSet false c src).1.flatMap SetToken.chars) → NodeEnds pattern (lexSet false c src).2)
    else c = dash → NodeEnds pattern src
  termination_by src => src.length
  decreasing_by
    · exact lt_succ_of_le (length_lexSet false c src)
    · exact lt_succ_self _

/-- No character or range ends in 255 in the sets that are read: those up to the first one with a
character. -/
def PositionEnds : List UInt8 → Prop
  | [] => True
  | c :: p =>
    if c = openBracket then
      match _hend : splitSet p with
      | none => True
      | some (inside, after) =>
        (∀ x ∈ setItems inside, x.2 ≠ 255) ∧ ((∀ x ∈ setItems inside, x.2 < x.1) → PositionEnds after)
    else c = dash → PositionEnds p
  termination_by p => p.length
  decreasing_by
    · exact lt_succ_of_lt (length_splitSet ‹_›)
    · exact lt_succ_self _

section Ends

variable {fuel : ℕ}

variable {toks : List SetToken} {s : CharSet} {items : List (UInt8 × UInt8)}

lemma expand_tokens (hfuel : 256 < fuel) (h : ∀ t ∈ toks, t.Ends) :
    toks.foldlM (SetToken.expand fuel) [] = some (toks.flatMap SetToken.chars) := by
  rw [flatMap_eq_foldl]
  refine foldlM_eq_foldl (fun t ht buf => ?_) []
  cases t with
  | char c => rfl
  | range first last =>
    have hlast : last ≠ 255 := h _ ht
    rw [SetToken.expand, rangeLoop_eq hlast _ hfuel, foldl_append_eq_append, ← flatMap_def, flatMap_singleton']
    rfl

lemma expand_endless (h : ¬ ∀ t ∈ toks, t.Ends) (buf : List UInt8) :
    toks.foldlM (SetToken.expand fuel) buf = none := by
  push Not at h
  obtain ⟨t, ht, hends⟩ := h
  refine foldlM_endless ⟨t, ht, fun s => ?_⟩ buf
  cases t with
  | char c => exact absurd trivial hends
  | range first last =>
    have hlast : last = 255 := not_not.mp hends
    rw [hlast, SetToken.expand, rangeLoop_endless]

lemma getPatternNode_isSome_iff (hfuel : 256 < fuel) (pattern : Bool) (src : List UInt8) :
    (getPatternNode fuel pattern src).isSome ↔ NodeEnds pattern src := by
  fun_induction NodeEnds pattern src with
  | case1 => simp [getPatternNode]
  | case2 c src hset ih =>
    rw [getPatternNode.eq_def]
    dsimp only
    rw [if_pos hset]
    by_cases hends : ∀ t ∈ (lexSet false c src).1, t.Ends
    · rw [expand_tokens hfuel hends, Option.bind_eq_bind, Option.bind_some]
      split_ifs with hignored
      · rw [ih]
        exact ⟨fun h => ⟨hends, fun _ => h⟩, fun h => h.2 hignored⟩
      · exact iff_of_true rfl ⟨hends, fun h => absurd h hignored⟩
    · rw [expand_endless hends]
      exact iff_of_false (by simp) fun h => hends h.1
  | case3 c src hset ih =>
    rw [getPatternNode.eq_def]
    dsimp only
    split_ifs with hdash hescape
    · rw [ih]
      exact ⟨fun h _ => h, fun h => h hdash⟩
    · cases src with
      | nil | cons d rest => exact iff_of_true rfl fun h => absurd h hdash
    · exact iff_of_true rfl fun h => absurd h hdash

def CharSet.Has (s : CharSet) (c : UInt8) : Prop := s.bits.testBit (255 - c.toNat) = true

def CharSet.Exact (s : CharSet) : Prop := s.count = 0 ↔ ∀ c, ¬ s.Has c

def CharSet.addAll (s : CharSet) (item : UInt8 × UInt8) : CharSet :=
  (charsOf item.1 item.2).foldl CharSet.add { s with cmin := min s.cmin item.1 }

lemma mem_charsOf {c first last : UInt8} : c ∈ charsOf first last ↔ first ≤ c ∧ c ≤ last := by
  rw [UInt8.le_iff_toNat_le, UInt8.le_iff_toNat_le]
  constructor
  · intro h
    obtain ⟨k, hk, rfl⟩ := mem_map.mp h
    rw [mem_range'_1] at hk
    have := last.toNat_lt
    rw [UInt8.toNat_ofNat_of_lt' (by change k < 256; omega)]
    omega
  · intro h
    exact mem_map.mpr ⟨c.toNat, mem_range'_1.mpr (by omega), UInt8.ofNat_toNat⟩

lemma CharSet.has_add (s : CharSet) (c d : UInt8) : (s.add c).Has d ↔ s.Has d ∨ d = c := by
  have hd := d.toNat_lt
  have hc := c.toNat_lt
  unfold CharSet.add CharSet.Has
  split_ifs with hin
  · exact ⟨.inl, fun h => h.elim id fun h => h ▸ hin⟩
  · rw [testBit_or, one_shiftLeft, testBit_two_pow, Bool.or_eq_true, decide_eq_true_eq]
    refine or_congr Iff.rfl ⟨fun h => UInt8.toNat_inj.mp (by omega), fun h => by rw [h]⟩

lemma CharSet.Exact.add (h : s.Exact) (c : UInt8) : (s.add c).Exact := by
  unfold CharSet.add
  split_ifs with hin
  · exact h
  · exact iff_of_false (succ_ne_zero _) fun hnone =>
      hnone c (by simpa [CharSet.add, hin] using (s.has_add c c).mpr (.inr rfl))

lemma CharSet.addAll_spec (h : s.Exact) (item : UInt8 × UInt8) :
    (s.addAll item).Exact ∧ ∀ c, (s.addAll item).Has c ↔ s.Has c ∨ item.1 ≤ c ∧ c ≤ item.2 := by
  have hfold : ∀ (l : List UInt8) (s : CharSet), s.Exact → (l.foldl CharSet.add s).Exact ∧
      ∀ c, (l.foldl CharSet.add s).Has c ↔ s.Has c ∨ c ∈ l := by
    intro l
    induction l with
    | nil => exact fun s hs => ⟨hs, fun c => by simp⟩
    | cons d l ih =>
      intro s hs
      obtain ⟨hex, hhas⟩ := ih (s.add d) (hs.add d)
      exact ⟨hex, fun c => by rw [foldl_cons, hhas, s.has_add, mem_cons, or_assoc]⟩
  obtain ⟨hex, hhas⟩ := hfold (charsOf item.1 item.2) { s with cmin := min s.cmin item.1 } h
  exact ⟨hex, fun c => (hhas c).trans (or_congr Iff.rfl mem_charsOf)⟩

/-- **The characters of a set** are those of its ranges. Induction on the ranges. -/
lemma addItems_spec (h : s.Exact) (items : List (UInt8 × UInt8)) :
    (items.foldl CharSet.addAll s).Exact ∧
      ∀ c, (items.foldl CharSet.addAll s).Has c ↔ s.Has c ∨ ∃ x ∈ items, x.1 ≤ c ∧ c ≤ x.2 := by
  induction items generalizing s with
  | nil => exact ⟨h, fun c => by simp⟩
  | cons x items ih =>
    obtain ⟨hx, hhas⟩ := CharSet.addAll_spec h x
    obtain ⟨hex, hall⟩ := ih hx
    exact ⟨hex, fun c => by
      rw [foldl_cons, hall, hhas, or_assoc]
      simp⟩

lemma addItems_eq (hfuel : 256 < fuel) (h : ∀ x ∈ items, x.2 ≠ 255) (s : CharSet) :
    items.foldlM (CharSet.addItem fuel) s = some (items.foldl CharSet.addAll s) :=
  foldlM_eq_foldl (fun x hx _ => rangeLoop_eq (h x hx) _ hfuel) s

lemma addItems_endless (h : ¬ ∀ x ∈ items, x.2 ≠ 255) (s : CharSet) :
    items.foldlM (CharSet.addItem fuel) s = none := by
  push Not at h
  obtain ⟨x, hx, hlast⟩ := h
  exact foldlM_endless ⟨x, hx, fun s => by rw [CharSet.addItem, hlast, rangeLoop_endless]⟩ s

def setOf (inside : List UInt8) : CharSet := (setItems inside).foldl CharSet.addAll ⟨0, 0, 0xFF⟩

lemma setOf_has (inside : List UInt8) (c : UInt8) :
    (setOf inside).Has c ↔ ∃ x ∈ setItems inside, x.1 ≤ c ∧ c ≤ x.2 := by
  have hex : CharSet.Exact ⟨0, 0, 0xFF⟩ := iff_of_true rfl fun c => by simp [CharSet.Has]
  rw [setOf, (addItems_spec hex _).2]
  simp [CharSet.Has]

lemma setOf_count_eq_zero (inside : List UInt8) : (setOf inside).count = 0 ↔ ∀ x ∈ setItems inside, x.2 < x.1 := by
  have hex : CharSet.Exact ⟨0, 0, 0xFF⟩ := iff_of_true rfl fun c => by simp [CharSet.Has]
  refine Iff.trans (b := ∀ c, ¬ (setOf inside).Has c) (addItems_spec hex (setItems inside)).1 ?_
  simp only [setOf_has]
  constructor
  · intro hnone x hx
    by_contra hle
    exact hnone x.1 ⟨x, hx, UInt8.le_refl _, UInt8.not_lt.mp hle⟩
  · rintro hrev c ⟨x, hx, hle, hle'⟩
    exact UInt8.not_lt.mpr (UInt8.le_trans hle hle') (hrev x hx)

lemma extCmpPatternPos_isSome_iff (hfuel : 256 < fuel) (p : List UInt8) :
    (extCmpPatternPos fuel p).isSome ↔ PositionEnds p := by
  fun_induction PositionEnds p with
  | case1 => simp [extCmpPatternPos]
  | case2 p hnone => simp [extCmpPatternPos_unclosed hnone]
  | case3 p inside after hend ih =>
    rw [extCmpPatternPos_set hend]
    by_cases hends : ∀ x ∈ setItems inside, x.2 ≠ 255
    · rw [addItems_eq hfuel hends, Option.bind_some]
      split_ifs with hzero
      · rw [ih]
        exact ⟨fun h => ⟨hends, fun _ => h⟩, fun h => h.2 ((setOf_count_eq_zero inside).mp hzero)⟩
      · exact iff_of_true rfl ⟨hends, fun h => absurd ((setOf_count_eq_zero inside).mpr h) hzero⟩
    · rw [addItems_endless hends]
      exact iff_of_false (by simp) fun h => hends h.1
  | case4 c p hopen ih =>
    by_cases hdash : c = dash
    · rw [hdash, extCmpPatternPos_dash, ih]
      exact ⟨fun h _ => h, fun h => h rfl⟩
    · rw [extCmpPatternPos_char hdash hopen]
      exact iff_of_true rfl fun h => absurd h hdash

end Ends

/-- **Each of the two functions returns**, with enough rounds, just if no range of a set that it
reads ends in 255. -/
theorem patternParsing_ends_iff (pattern : Bool) (src : List UInt8) :
    ((∃ n, ∀ fuel ≥ n, (getPatternNode fuel pattern src).isSome) ↔ NodeEnds pattern src) ∧
      ((∃ n, ∀ fuel ≥ n, (extCmpPatternPos fuel src).isSome) ↔ PositionEnds src) := by
  refine ⟨⟨fun ⟨n, hn⟩ => ?_, fun h => ⟨257, fun fuel hfuel => ?_⟩⟩,
    ⟨fun ⟨n, hn⟩ => ?_, fun h => ⟨257, fun fuel hfuel => ?_⟩⟩⟩
  · exact (@getPatternNode_isSome_iff (n + 257) (by omega) pattern src).mp (hn _ (by omega))
  · exact (getPatternNode_isSome_iff hfuel pattern src).mpr h
  · exact (@extCmpPatternPos_isSome_iff (n + 257) (by omega) src).mp (hn _ (by omega))
  · exact (extCmpPatternPos_isSome_iff hfuel src).mpr h

/-- The set `[a-\xff]`: neither function returns, whatever the number of rounds. -/
theorem patternParsing_endless :
    (¬ ∃ fuel, (getPatternNode fuel true [91, 97, 45, 255, 93]).isSome) ∧
      ¬ ∃ fuel, (extCmpPatternPos fuel [91, 97, 45, 255, 93]).isSome := by
  constructor
  · rintro ⟨fuel, h⟩
    have htok : (lexSet false 91 [97, 45, 255, 93]).1 = [.char 97, .range 97 255] := by
      simp only [lexSet]
      decide
    have hnone := @expand_endless fuel [.char 97, .range 97 255] (by simp [SetToken.Ends]) []
    rw [getPatternNode.eq_def] at h
    simp [htok, hnone] at h
  · rintro ⟨fuel, h⟩
    have hnone := @addItems_endless fuel [(97, 255)] (by simp) ⟨0, 0, 255⟩
    rw [extCmpPatternPos_set (show splitSet [97, 45, 255, 93] = some ([97, 45, 255], []) from rfl),
      show setItems [97, 45, 255] = [(97, 255)] from rfl, hnone] at h
    cases h

end Telephony.Dialplan
