import Telephony.Pbx.Room

/-!
# Two engines for one template

`ast_str_substitute_variables_full2` replaces the brackets of a template into a string that grows,
and `pbx_substitute_variables_helper_full` into a buffer of a given size. They are meant to give the
same, as far as the buffer goes.

`Agreeable` is a condition on the template and the values of its brackets, by recursion on the calls
that may be nested: the values of expressions fit into the room that is left (`fits`), no part of a
value overflows, and the templates inside brackets are agreeable for the room of `ltmp`. By
induction on the depth the engines then agree (`helperFullLocation_agrees`), and where the templates
inside are agreeable nothing else makes them agree (`helperFull_agrees_iff`). What a part of a value
is in both engines is `substring_slice_iff`.
-/

namespace Telephony.Pbx

open Lib List Option

/-! ## The engine with a growing string -/

/-- The text of a bracket, with the length as a `size_t`.
Source: `ast_str_set_substr (&substr1, 0, vars, len)` -/
def Bracket.substr (b : Bracket) : Text := b.source.take (b.len % 2 ^ 64).toNat

section Call

variable (env : Env) (nested : Text → Option Text)

/-- Source: `ast_str_substitute_variables_full2` -/
def strBracket (b : Bracket) : Option Text := do
  let vars ← if b.needsub then nested b.substr else some b.substr
  match b.kind with
  | .var => some (env.valueOf strSubstring vars)
  | .expr => some (env.expr vars).text

/-- The loop. It has no result when a round makes no progress or goes back.
Source: `while (!ast_strlen_zero (whereweare))` -/
def strPieces : Text → List Piece → Option Text
  | buf, [] => some buf
  | buf, p :: ps =>
    if p.pos < 0 ∨ p.idle then none
    else do
      let value ← p.bracket.elim (some []) (strBracket env nested)
      strPieces (buf ++ p.literal.take p.pos.toNat ++ value) ps

end Call

/-- Source: `ast_str_substitute_variables_full2` (`use_both` is 0, `maxlen` is 0) -/
def strSubstitute (env : Env) : ℕ → Text → Option Text
  | 0, _ => none
  | depth + 1, t => strPieces env (strSubstitute env depth) [] (split t)

def helperFull (env : Env) (t : Text) (count : ℕ) : Output :=
  helperFullLocation env .none maxVariableSubRecurseDepth t count

/-! ## Short texts and few nested calls -/

def nestsBelow : ℕ → Text → Bool
  | 0, _ => false
  | depth + 1, t => (split t).all fun p => p.bracket.all fun b => !b.needsub || nestsBelow depth b.substr

def finalvars (nested : Text → Option Text) (b : Bracket) : Text :=
  if b.needsub then (nested b.substr).getD [] else b.substr

def small (env : Env) : ℕ → Text → Bool
  | 0, _ => true
  | depth + 1, t =>
    (split t).all fun p => p.bracket.all fun b =>
      let vars := finalvars (strSubstitute env depth) b
      (0 : ℤ) ≤ b.len && b.len < (varBufSize : ℤ) && vars.length < varBufSize &&
        (!b.needsub || small env depth b.substr) &&
        (b.kind = .expr || (env.valueOf (fun value _ _ => value) vars).length < varBufSize)

/-! ## Items of the engines -/

section StrItems

variable {env : Env} {nested : Text → Option Text} {buf out : Text} {ps : List Piece} {b : Bracket}

def Bracket.Done (nested : Text → Option Text) (b : Bracket) : Prop :=
  b.needsub = true → (nested b.substr).isSome = true

lemma strBracket_eq (h : b.Done nested) : strBracket env nested b = some (match b.kind with
      | .var => env.valueOf strSubstring (finalvars nested b)
      | .expr => (env.expr (finalvars nested b)).text) := by
  unfold strBracket finalvars
  cases hsub : b.needsub with
  | false => cases b.kind <;> rfl
  | true =>
    obtain ⟨vars, hvars⟩ := isSome_iff_exists.mp (h hsub)
    simp only [hvars]
    cases b.kind <;> rfl

lemma strBracket_eq_none (h : ¬ b.Done nested) : strBracket env nested b = none := by
  obtain ⟨hsub, hnone⟩ := Classical.not_imp.mp h
  unfold strBracket
  rw [if_pos hsub, not_isSome_iff_eq_none.mp hnone]
  rfl

lemma bracket_elim_eq {p : Piece} (h : ∀ b, p.bracket = some b → b.Done nested) :
    p.bracket.elim (some []) (strBracket env nested) =
      some (p.item env strSubstring (finalvars nested)).value.whole := by
  unfold Piece.item
  cases hb : p.bracket with
  | none => rfl
  | some b =>
    rw [elim_some, strBracket_eq (h b hb)]
    cases hkind : b.kind with
    | var | expr => simp [hkind, Value.whole]

lemma strPieces_eq_some_iff :
    strPieces env nested buf ps = some out ↔
      (∀ p ∈ ps, 0 ≤ p.pos ∧ p.idle = false ∧ ∀ b, p.bracket = some b → b.Done nested) ∧
      buf ++ whole (ps.map (Piece.item env strSubstring (finalvars nested))) = out := by
  induction ps generalizing buf with
  | nil => simp [strPieces, whole]
  | cons p ps ih =>
    rw [forall_mem_cons, map_cons, whole_cons]
    unfold strPieces
    by_cases hstuck : p.pos < 0 ∨ p.idle = true
    · rw [if_pos hstuck]
      refine iff_of_false (by simp) fun h => ?_
      rcases hstuck with hneg | hidle
      · exact absurd h.1.1.1 (Int.not_le.mpr hneg)
      · exact absurd (hidle.symm.trans h.1.1.2.1) (by simp)
    rw [if_neg hstuck]
    obtain ⟨hpos, hidle⟩ := not_or.mp hstuck
    by_cases hdone : ∀ b, p.bracket = some b → b.Done nested
    · rw [bracket_elim_eq hdone]
      simp only [bind_eq_bind, bind_some]
      rw [ih, append_assoc, append_assoc]
      exact and_congr_left fun _ =>
        (and_iff_right ⟨Int.not_lt.mp hpos, Bool.not_eq_true _ ▸ hidle, hdone⟩).symm
    refine iff_of_false ?_ fun h => hdone h.1.1.2.2
    obtain ⟨b, hb⟩ := not_forall.mp hdone
    obtain ⟨hb, hnot⟩ := Classical.not_imp.mp hb
    rw [hb, elim_some, strBracket_eq_none hnot]
    simp

end StrItems

section Items

variable {env : Env} {nested : Text → Output} {s s' s'' : Output} {p : Piece} {ps : List Piece}

structure Output.Same (s s' : Output) : Prop where
  cells : s.cells = s'.cells
  count : s.count = s'.count

lemma Output.Same.put (h : s.Same s') (t : Text) : (s.put t).Same (s'.put t) := by
  simp only [Output.put, h.cells, h.count]
  exact ⟨rfl, rfl⟩

lemma Output.Same.putExpr (h : s.Same s') (r : ExprResult) : (s.putExpr r).Same (s'.putExpr r) := by
  cases r with
  | none =>
    simp only [Output.putExpr, h.count]
    split_ifs
    · exact ⟨congrArg (· ++ [some '0']) h.cells, rfl⟩
    · exact h
  | number t =>
    simp only [Output.putExpr, h.cells, h.count]
    exact ⟨rfl, rfl⟩
  | string text =>
    cases text with
    | none => exact { h with }
    | some t =>
      simp only [Output.putExpr, h.cells, h.count]
      exact ⟨rfl, rfl⟩

lemma Output.Same.log (h : s.Same s') (writes : List Write) : (s.log writes).Same s' := { h with }

lemma Output.same_put_nil (s : Output) : s.Same (s.put []) := by
  simp only [Output.put]
  exact ⟨by simp, by simp⟩

lemma Output.Same.trans (h : s.Same s') (h' : s'.Same s'') : s.Same s'' :=
  ⟨h.cells.trans h'.cells, h.count.trans h'.count⟩

lemma Output.Same.putLiteral (h : s.Same s') (p : Piece) :
    (s.putLiteral p).Same (s'.put (p.literal.take p.pos.toNat)) := by
  unfold Output.putLiteral
  by_cases hpos : 0 < p.pos
  · rw [if_neg (by omega), if_neg (by omega)]
    exact h.put _
  have hnone : p.literal.take p.pos.toNat = [] := by rw [show p.pos.toNat = 0 by omega, take_zero]
  rw [hnone]
  split_ifs
  · exact h.trans s'.same_put_nil
  · exact (h.log _).trans s'.same_put_nil
  · omega

lemma located_none (env : Env) : env.located .none = env := by
  have hlookup : env.lookup .none = env.retrieve := funext fun name => by simp [Env.lookup, Location.none]
  rw [Env.located, hlookup]

lemma Output.Same.putVariable (h : s.Same s') (b : Bracket) (vars : Text) :
    (s.putVariable env .none b vars).Same (s'.put (env.valueOf bufferPart vars)) := by
  unfold Output.putVariable Env.valueOf
  simp only [located_none]
  cases env.value (parseVariableName 0 vars) with
  | none => exact (h.log _).trans s'.same_put_nil
  | some value => exact Output.Same.put ((h.log _).log _) _

lemma Output.Same.substitutePiece (h : s.Same s') (p : Piece) :
    (substitutePiece env .none nested s p).Same
      (s'.putItem (p.item env bufferPart fun b => (bracketText nested b).1)) := by
  have hput := h.putLiteral p
  unfold Telephony.Pbx.substitutePiece Piece.item
  cases hb : p.bracket with
  | none => exact hput.trans (Output.same_put_nil _)
  | some b =>
    simp only [Output.putItem]
    cases b.kind with
    | var => exact Output.Same.putVariable (hput.log _) b _
    | expr => exact Output.Same.putExpr (hput.log _) _

lemma substitutePieces_items (h : s.Same s') (ps : List Piece) :
    (substitutePieces env .none nested s ps).Same
      (s'.putItems (ps.map (Piece.item env bufferPart fun b => (bracketText nested b).1))) := by
  induction ps generalizing s s' with
  | nil => exact h
  | cons p ps ih =>
    rw [substitutePieces, map_cons, Output.putItems, h.count]
    split_ifs
    · exact h
    · exact ih (h.substitutePiece p)

lemma Output.Same.text (h : s.Same s') : s.text = s'.text := by
  unfold Output.text
  rw [h.cells]

end Items

/-! ## Parts of values -/

lemma substring_eq_strSubstring {value : Text} {offset length : ℤ} (hval : value.length < varBufSize)
    (hlen : -2 ^ 31 ≤ length) (h : ¬ Overflows value offset length) :
    (substring value offset length).1 = strSubstring value offset length := by
  have hsta := startOf_nonneg value.length offset
  unfold varBufSize at hval
  unfold Overflows intMax at h
  unfold substring strSubstring strTruncate
  by_cases hall : offset = 0 ∧ (value.length : ℤ) ≤ length
  · rw [if_pos hall, if_pos hall]
  rw [if_neg hall, if_neg hall]
  by_cases hbeh : (value.length : ℤ) ≤ startOf value.length offset
  · rw [if_pos hbeh, if_pos hbeh]
  rw [if_neg hbeh, if_neg hbeh]
  by_cases hsht : 0 ≤ length ∧ length < value.length - startOf value.length offset
  · rw [if_pos hsht, if_pos hsht, if_neg (by omega)]
  rw [if_neg hsht, if_neg hsht]
  by_cases hneg : length < 0
  · rw [if_pos hneg, if_pos hneg, int32_of_range (i := startOf value.length offset - length) (by omega) (by omega),
      int32_of_range (i := -length) (by omega) (by omega)]
    by_cases hleft : startOf value.length offset - length < value.length
    · rw [if_pos hleft, if_pos (by omega), if_pos (by omega), if_neg (by omega)]
      exact congrArg (fun n => (value.drop (startOf value.length offset).toNat).take n) (by omega)
    · rw [if_neg hleft, if_neg (by omega)]
  · rw [if_neg hneg, if_neg hneg]

/-- The part of a value that is asked for: from the start, the given number of characters, or all
but the given number at the end. -/
def slice (value : Text) (offset length : ℤ) : Text :=
  (value.drop (startOf value.length offset).toNat).take
    (if 0 ≤ length then length else value.length - startOf value.length offset + length).toNat

/-- The first byte and the number of the bytes that are written at once.
Source: `ast_str_substring` -/
def strSubstringWrites (value : Text) (offset length : ℤ) : List (ℤ × ℤ) :=
  let lr := value.length
  if offset = 0 ∧ (lr : ℤ) ≤ length then []
  else
    let start := startOf lr offset
    if (lr : ℤ) ≤ start then [(0, 1)]
    else
      let left : ℤ := lr - start
      (if 0 < start then [(0, left + 1)] else []) ++
        if 0 ≤ length ∧ length < left then [(length, 1)]
        else if length < 0 then
          if int32 (-length) < left then [(if left + length < 0 then max (lr + (left + length)) 0 else left + length, 1)]
          else [(0, 1)]
        else []

lemma strSubstring_eq_slice {value : Text} (offset : ℤ) {length : ℤ} (hval : value.length < varBufSize)
    (hlen : -2 ^ 31 ≤ length) : strSubstring value offset length = slice value offset length := by
  have hsta := startOf_nonneg value.length offset
  have hdrop : (value.drop (startOf value.length offset).toNat).length =
    value.length - (startOf value.length offset).toNat := length_drop
  unfold varBufSize at hval
  unfold strSubstring slice strTruncate
  dsimp only
  by_cases hall : offset = 0 ∧ (value.length : ℤ) ≤ length
  · rw [if_pos hall, if_pos (by omega), hall.1, startOf]
    exact (take_of_length_le (show value.length ≤ length.toNat by omega)).symm
  rw [if_neg hall]
  by_cases hbeh : (value.length : ℤ) ≤ startOf value.length offset
  · rw [if_pos hbeh, drop_of_length_le (by omega), take_nil]
  rw [if_neg hbeh]
  by_cases hneg : length < 0
  · rw [if_neg (by omega), if_pos hneg, if_neg (show ¬ 0 ≤ length by omega)]
    by_cases hwrap : length = -2 ^ 31
    · rw [hwrap, show int32 (-(-2 ^ 31)) = -2 ^ 31 from rfl, if_pos (by omega), if_pos (by omega)]
      congr 1
      omega
    rw [int32_of_range (by omega) (by omega)]
    split_ifs
    · omega
    · rfl
    · rw [show ((value.length : ℤ) - startOf value.length offset + length).toNat = 0 by omega, take_zero]
  · rw [if_pos (show 0 ≤ length by omega)]
    split_ifs
    · rfl
    · exact (take_of_length_le (by omega)).symm

lemma strSubstringWrites_within {value : Text} (offset : ℤ) {length : ℤ} {w : ℤ × ℤ}
    (hw : w ∈ strSubstringWrites value offset length) : 0 ≤ w.1 ∧ w.1 + w.2 ≤ value.length + 1 := by
  have hsta := startOf_nonneg value.length offset
  obtain ⟨first, count⟩ := w
  unfold strSubstringWrites at hw
  dsimp only at hw ⊢
  split_ifs at hw <;> simp at hw <;> omega

theorem substring_slice_iff {value : Text} {offset length : ℤ} (hvalue : value.length < varBufSize)
    (hlength : -2 ^ 31 ≤ length) :
    ((substring value offset length).1 = slice value offset length ∧
        strSubstring value offset length = slice value offset length ∧
        (∀ i ∈ (substring value offset length).2, 0 ≤ i ∧ i ≤ value.length) ∧
        ∀ w ∈ strSubstringWrites value offset length, 0 ≤ w.1 ∧ w.1 + w.2 ≤ value.length + 1) ↔
      ¬ Overflows value offset length := by
  have hzero := substring_zero_iff offset hvalue hlength
  have hle : ∀ i ∈ (substring value offset length).2, i ≤ value.length := by
    intro i hi
    unfold substring at hi
    dsimp only at hi
    split_ifs at hi <;> simp at hi <;> omega
  constructor
  · rintro ⟨-, -, hin, -⟩
    exact hzero.mp fun i hi => ⟨(hin i hi).1, by have := (hin i hi).2; omega⟩
  · intro h
    have hsl := strSubstring_eq_slice offset hvalue hlength
    exact ⟨(substring_eq_strSubstring hvalue hlength h).trans hsl, hsl,
      fun i hi => ⟨(hzero.mpr h i hi).1, hle i hi⟩, fun w => strSubstringWrites_within offset⟩

/-- The last two of three characters. -/
theorem substring_slice_two :
    ['a', 'b', 'c'].length < varBufSize ∧ (substring ['a', 'b', 'c'] (-2) 7).1 = ['b', 'c'] ∧
      strSubstring ['a', 'b', 'c'] (-2) 7 = ['b', 'c'] :=
  have h := (@substring_slice_iff ['a', 'b', 'c'] (-2) 7 (by decide) (by decide)).mpr (by decide)
  ⟨by decide, h.1, h.2.1⟩

/-- With the length `-2147483648` the zero goes far below the workspace. -/
theorem substring_slice_below :
    substring ['a'] 0 (-2147483648) = (['a'], some (-2147483647)) ∧ strSubstring ['a'] 0 (-2147483648) = [] := by
  decide

/-! ## More nested calls -/

section Depth

variable {env : Env} {nested nested' : Text → Option Text}

lemma strPieces_mono (h : ∀ t out, nested t = some out → nested' t = some out) {buf out : Text} {ps : List Piece}
    (hout : strPieces env nested buf ps = some out) : strPieces env nested' buf ps = some out := by
  have hvars : ∀ b : Bracket, b.Done nested → b.Done nested' ∧ finalvars nested b = finalvars nested' b := by
    intro b hdone
    unfold Bracket.Done finalvars
    cases hsub : b.needsub with
    | false => simp
    | true =>
      obtain ⟨vars, hvars⟩ := isSome_iff_exists.mp (hdone hsub)
      rw [hvars, h _ _ hvars]
      simp
  obtain ⟨hps, rfl⟩ := strPieces_eq_some_iff.mp hout
  refine strPieces_eq_some_iff.mpr
    ⟨fun p hp => ⟨(hps p hp).1, (hps p hp).2.1, fun b hb => (hvars b ((hps p hp).2.2 b hb)).1⟩, ?_⟩
  congr 2
  refine map_congr_left fun p hp => ?_
  unfold Piece.item
  cases hb : p.bracket with
  | none => rfl
  | some b => simp [(hvars b ((hps p hp).2.2 b hb)).2]

lemma strSubstitute_mono {depth depth' : ℕ} (hle : depth ≤ depth') {t out : Text}
    (h : strSubstitute env depth t = some out) : strSubstitute env depth' t = some out := by
  induction depth generalizing depth' t out with
  | zero => cases h
  | succ depth ih =>
    obtain ⟨d, rfl⟩ : ∃ d, depth' = d + 1 := ⟨depth' - 1, by omega⟩
    exact strPieces_mono (fun t out => ih (by omega)) h

end Depth

/-! ## Rounds that make progress -/

def Regular (t : Text) : Prop := ∀ p ∈ split t, 0 ≤ p.pos ∧ p.idle = false

instance (t : Text) : Decidable (Regular t) := inferInstanceAs (Decidable (∀ p ∈ split t, _))

lemma nextThing_length (t : Text) :
    (nextThing t).1.length ≤ t.length ∧ (nextThing t).2.2.length ≤ t.length ∧
      (t ≠ [] → (nextThing t).2.1 = none → (nextThing t).1 ≠ []) := by
  fun_induction nextThing t with
  | case6 a d t ha next ih =>
    exact ⟨Nat.succ_le_succ ih.1, Nat.le_succ_of_le ih.2.1, fun _ _ => cons_ne_nil _ _⟩
  | _ => simp_all; try omega

lemma scanBracket_rest (k : BracketKind) (b : ℕ) (t : Text) : (scanBracket k b t).rest.length ≤ t.length := by
  fun_induction scanBracket k b t with
  | case1 t => simp
  | case2 b => simp
  | _ => simp_all [Scan.after]; try omega

lemma round_rest (t : Text) : (round t).2.length ≤ t.length := by
  unfold round
  simp only
  split
  · simp
  · next k _ => exact Nat.le_trans (scanBracket_rest k 1 _) (nextThing_length t).2.1

lemma round_bracket (t : Text) : (round t).1.bracket = none ↔ (nextThing t).2.1 = none := by
  unfold round
  cases hkind : (nextThing t).2.1 with
  | none => simp [hkind]
  | some k => simp only [hkind]; simp

lemma regular_of_length {t : Text} (h : t.length < 2 ^ 31) : Regular t := by
  have hrds : ∀ n t, t.length < 2 ^ 31 → ∀ p ∈ rounds n t, 0 ≤ p.pos ∧ p.idle = false := by
    intro n
    induction n with
    | zero => intro t _ p hp; cases hp
    | succ n ih =>
      intro t ht p hp
      cases t with
      | nil => cases hp
      | cons a t =>
        rcases mem_cons.mp hp with rfl | htail
        · obtain ⟨hlit, -, hnext⟩ := nextThing_length (a :: t)
          have hpos : (round (a :: t)).1.pos = (nextThing (a :: t)).1.length := by
            rw [round_pos]
            exact int32_of_range (by omega) (by omega)
          refine ⟨by omega, Bool.eq_false_iff.mpr fun hidle => ?_⟩
          obtain ⟨hzero, hnone⟩ := (Bool.and_eq_true _ _).mp hidle
          refine hnext (cons_ne_nil a t) ((round_bracket _).mp (isNone_iff_eq_none.mp hnone)) ?_
          have hlen := of_decide_eq_true hzero
          rw [hpos] at hlen
          exact length_eq_zero_iff.mp (Int.natCast_eq_zero.mp hlen)
        · exact ih _ (Nat.lt_of_le_of_lt (round_rest _) ht) p htail
  exact hrds t.length t h

/-! ## What the suppositions give for a bracket -/

section Small

variable {env : Env} {depth : ℕ} {t : Text} {p : Piece} {b : Bracket}

lemma nestsBelow_bracket (h : nestsBelow (depth + 1) t = true) (hp : p ∈ split t) (hb : p.bracket = some b)
    (hsub : b.needsub = true) : nestsBelow depth b.substr = true := by
  have hall := all_eq_true.mp h p hp
  rw [hb, all_some, hsub] at hall
  simpa using hall

structure Bracket.Small (env : Env) (depth : ℕ) (b : Bracket) : Prop where
  len : 0 ≤ b.len ∧ b.len < varBufSize
  vars : (finalvars (strSubstitute env depth) b).length < varBufSize
  nested : b.needsub = true → small env depth b.substr = true
  value : b.kind = .var →
    (env.valueOf (fun value _ _ => value) (finalvars (strSubstitute env depth) b)).length < varBufSize

lemma small_bracket (h : small env (depth + 1) t = true) (hp : p ∈ split t) (hb : p.bracket = some b) :
    b.Small env depth := by
  have hall := all_eq_true.mp h p hp
  rw [hb, all_some] at hall
  simp only [Bool.and_eq_true, Bool.or_eq_true, decide_eq_true_eq] at hall
  obtain ⟨⟨⟨⟨hlo, hhi⟩, hvars⟩, hnst⟩, hval⟩ := hall
  refine ⟨⟨hlo, hhi⟩, hvars, fun hsub => ?_, fun hkind => ?_⟩
  · exact hnst.resolve_left (by simp [hsub])
  · exact hval.resolve_left (by simp [hkind])

lemma Bracket.Small.text_eq (h : b.Small env depth) : b.text = b.substr := by
  obtain ⟨hlo, hhi⟩ := h.len
  unfold Bracket.text Bracket.copySize
  unfold varBufSize at hhi
  congr 1
  omega

lemma Bracket.Small.substr_length (h : b.Small env depth) : b.substr.length < 2 ^ 31 := by
  obtain ⟨hlo, hhi⟩ := h.len
  unfold Bracket.substr
  unfold varBufSize at hhi
  rw [length_take]
  omega

/-- **The engine with a growing string ends.** Induction on the calls that may be nested. -/
lemma strSubstitute_isSome (hnests : nestsBelow depth t = true) (hsml : small env depth t = true)
    (hreg : Regular t) : (strSubstitute env depth t).isSome = true := by
  induction depth generalizing t with
  | zero => cases hnests
  | succ depth ih =>
    refine isSome_iff_exists.mpr ⟨_, strPieces_eq_some_iff.mpr ⟨fun p hp => ?_, rfl⟩⟩
    refine ⟨(hreg p hp).1, (hreg p hp).2, fun b hb hsub => ?_⟩
    have hb' := small_bracket hsml hp hb
    exact ih (nestsBelow_bracket hnests hp hb hsub) (hb'.nested hsub) (regular_of_length hb'.substr_length)

end Small

/-! ## Rounds that are reached -/

section Reached

variable {env : Env} {item item' : Piece → Item} {s : Output} {n : ℕ} {ps : List Piece} {p : Piece}

lemma reached_subset (h : p ∈ reached item n ps) : p ∈ ps := by
  induction ps generalizing n with
  | nil => cases h
  | cons q ps ih =>
    unfold reached at h
    split_ifs at h
    · cases h
    · rcases mem_cons.mp h with rfl | htail
      · exact mem_cons_self
      · exact mem_cons_of_mem _ (ih htail)

/-- Induction on the rounds: as long as the items are the same the same room is left. -/
lemma reached_congr (h : ∀ p, p ∈ reached item n ps → p ∈ reached item' n ps → item p = item' p) :
    reached item n ps = reached item' n ps := by
  induction ps generalizing n with
  | nil => rfl
  | cons q ps ih =>
    unfold reached at h ⊢
    split_ifs at h ⊢
    · rfl
    · have hq : item q = item' q := h q mem_cons_self mem_cons_self
      rw [← hq] at h ⊢
      rw [ih fun p hp hp' => h p (mem_cons_of_mem _ hp) (mem_cons_of_mem _ hp')]

lemma putItem_count (s : Output) (i : Item) : (s.putItem i).count = i.left s.count := by
  obtain ⟨literal, value⟩ := i
  cases value with
  | text t => simp [Output.put_count, Item.left]
  | expr r =>
    simp only [Output.putItem, Output.putExpr_count, Output.put_count, Item.left, length_nil, Nat.sub_zero]

lemma putItems_congr (h : ∀ p ∈ reached item s.count ps, item p = item' p) :
    s.putItems (ps.map item) = s.putItems (ps.map item') := by
  induction ps generalizing s with
  | nil => rfl
  | cons q ps ih =>
    rw [map_cons, map_cons, Output.putItems, Output.putItems]
    unfold reached at h
    split_ifs at h ⊢
    · rfl
    · obtain ⟨hq, hps⟩ := forall_mem_cons.mp h
      rw [← putItem_count] at hps
      rw [ih hps, hq]

end Reached

/-! ## Agreement -/

section Agree

variable (env : Env) (depth : ℕ)

def strItem : Piece → Item := Piece.item env strSubstring (finalvars (strSubstitute env depth))

def bufferItem : Piece → Item := Piece.item env bufferPart (nestedVars env .none depth)

/-- By recursion on the calls that may be nested: what is put fits, no part of a value that is
reached overflows, and the templates inside brackets that are reached are agreeable. -/
def Agreeable (env : Env) : ℕ → Text → ℕ → Prop
  | 0, _, _ => False
  | depth + 1, t, count =>
    Regular t ∧ fits count ((split t).map (strItem env depth)) = true ∧
      ∀ p ∈ reached (strItem env depth) count (split t), ∀ b ∈ p.bracket,
        (b.kind = .var → ¬env.Overflows (finalvars (strSubstitute env depth) b)) ∧
          (b.needsub = true → Agreeable env depth b.substr (varBufSize - 1))

instance decidableAgreeable (env : Env) : (depth : ℕ) → (t : Text) → (count : ℕ) →
    Decidable (Agreeable env depth t count)
  | 0, _, _ => .isFalse id
  | depth + 1, t, count =>
    have : DecidablePred fun t => Agreeable env depth t (varBufSize - 1) := fun t => decidableAgreeable env depth t _
    inferInstanceAs (Decidable (_ ∧ _ ∧ ∀ p ∈ reached _ count (split t), ∀ b ∈ p.bracket, _ ∧ (_ → Agreeable _ _ _ _)))

/-- The templates inside brackets that are reached are agreeable. -/
def NestedAgreeable (t : Text) (count : ℕ) : Prop :=
  ∀ p ∈ reached (strItem env depth) count (split t), ∀ b ∈ p.bracket,
    b.needsub = true → Agreeable env depth b.substr (varBufSize - 1)

instance (t : Text) (count : ℕ) : Decidable (NestedAgreeable env depth t count) :=
  inferInstanceAs (Decidable (∀ p ∈ reached _ count (split t), ∀ b ∈ p.bracket, _ → Agreeable _ _ _ _))

/-- The engines agree on the templates inside brackets that are reached. -/
def NestedSame (t : Text) (count : ℕ) : Prop :=
  ∀ p ∈ reached (strItem env depth) count (split t), ∀ b ∈ p.bracket, b.needsub = true →
    Tame env .none depth b.substr (varBufSize - 1) ∧
      strSubstitute env depth b.substr = some (helperFullLocation env .none depth b.substr (varBufSize - 1)).text

variable {env depth} {t : Text} {count : ℕ} {p : Piece} {b : Bracket}

lemma nestedVars_eq (hsml : b.Small env depth) (hsame : b.needsub = true →
      strSubstitute env depth b.substr = some (helperFullLocation env .none depth b.substr (varBufSize - 1)).text) :
    nestedVars env .none depth b = finalvars (strSubstitute env depth) b := by
  unfold nestedVars bracketText finalvars
  cases hsub : b.needsub with
  | false => exact hsml.text_eq
  | true => simp [hsml.text_eq, hsame hsub]

lemma valueOf_eq {vars : Text} (hval : (env.valueOf (fun value _ _ => value) vars).length < varBufSize)
    (hover : ¬env.Overflows vars) : env.valueOf bufferPart vars = env.valueOf strSubstring vars := by
  unfold Env.valueOf at hval ⊢
  unfold Env.Overflows at hover
  dsimp only at hval hover ⊢
  cases hlookup : env.value (parseVariableName 0 vars) with
  | none => rfl
  | some value =>
    simp only [hlookup] at hval
    have htake : value.take (varBufSize - 1) = value := take_of_length_le (by omega)
    have hpart : ¬Overflows value (parseVariableName 0 vars).offset (parseVariableName 0 vars).length :=
      fun h => hover ⟨value, hlookup, htake.symm ▸ h⟩
    simp only [bufferPart, htake]
    exact substring_eq_strSubstring hval (parseVariableName_length _ _) hpart

section

variable (hsml : small env (depth + 1) t = true) (hsame : NestedSame env depth t count)
include hsml hsame

lemma item_eq_of_reached (hp : p ∈ reached (strItem env depth) count (split t))
    (hover : ∀ b ∈ p.bracket, b.kind = .var → ¬env.Overflows (finalvars (strSubstitute env depth) b)) :
    bufferItem env depth p = strItem env depth p := by
  have hnst := hsame p hp
  unfold bufferItem strItem Piece.item
  cases hb : p.bracket with
  | none => rfl
  | some b =>
    have hb' := small_bracket hsml (reached_subset hp) hb
    simp only [nestedVars_eq hb' fun hsub => (hnst b hb hsub).2]
    cases hkind : b.kind with
    | expr => rfl
    | var => simp only [valueOf_eq (hb'.value hkind) (hover b hb hkind)]

/-- Tame templates are those without a part that overflows in the rounds that are reached. -/
lemma tame_iff (hreg : Regular t) :
    Tame env .none (depth + 1) t count ↔
      ∀ p ∈ reached (strItem env depth) count (split t), ∀ b ∈ p.bracket, b.kind = .var →
        ¬env.Overflows (finalvars (strSubstitute env depth) b) := by
  have hround : ∀ p ∈ reached (strItem env depth) count (split t),
      (p.Tame env (nestedVars env .none depth) (fun t => Tame env .none depth t (varBufSize - 1)) ↔
        ∀ b ∈ p.bracket, b.kind = .var → ¬env.Overflows (finalvars (strSubstitute env depth) b)) := by
    intro p hp
    have hsplit := reached_subset hp
    refine (and_iff_right (hreg p hsplit).1).trans (forall₂_congr fun b hb => ?_)
    have hb' := small_bracket hsml hsplit hb
    rw [nestedVars_eq hb' fun hsub => (hsame p hp b hb hsub).2, hb'.text_eq]
    exact (and_iff_right hb'.len).trans (and_iff_right fun hsub => (hsame p hp b hb hsub).1)
  have hsub : (∀ p, p ∈ reached (strItem env depth) count (split t) →
      p ∈ reached (bufferItem env depth) count (split t) → strItem env depth p = bufferItem env depth p) →
      (Tame env .none (depth + 1) t count ↔
        ∀ p ∈ reached (strItem env depth) count (split t), ∀ b ∈ p.bracket, b.kind = .var →
          ¬env.Overflows (finalvars (strSubstitute env depth) b)) := by
    intro hitems
    unfold Tame
    rw [located_none]
    change (∀ p ∈ reached (bufferItem env depth) count (split t), _) ↔ _
    rw [← reached_congr hitems]
    exact forall₂_congr hround
  constructor
  · intro htame
    refine (hsub fun p hp hp' => ?_).mp htame
    have hpiece := htame p (by rwa [located_none])
    rw [located_none] at hpiece
    exact (item_eq_of_reached hsml hsame hp ((hround p hp).mp hpiece)).symm
  · exact fun hover => (hsub fun p hp _ => (item_eq_of_reached hsml hsame hp (hover p hp)).symm).mpr hover

lemma helperFullLocation_text_iff (hover : ∀ p ∈ reached (strItem env depth) count (split t), ∀ b ∈ p.bracket,
      b.kind = .var → ¬env.Overflows (finalvars (strSubstitute env depth) b)) :
    (helperFullLocation env .none (depth + 1) t count).text =
        (whole ((split t).map (strItem env depth))).take count ↔
      fits count ((split t).map (strItem env depth)) = true := by
  have hstart : (Output.mk [] count [⟨.cp2, 0, 1⟩]).Same ⟨[], count, []⟩ := ⟨rfl, rfl⟩
  have hitems := putItems_congr (s := ⟨[], count, []⟩) fun p hp =>
    (item_eq_of_reached hsml hsame hp (hover p hp)).symm
  have htext : (helperFullLocation env .none (depth + 1) t count).text =
      (Output.putItems ⟨[], count, []⟩ ((split t).map (bufferItem env depth))).text :=
    (substitutePieces_items hstart (split t)).text
  rw [htext, ← hitems]
  exact putItems_text_iff (w := []) ⟨rfl, rfl⟩ _

end

lemma strSubstitute_eq (hnests : nestsBelow (depth + 1) t = true) (hsml : small env (depth + 1) t = true)
    (hreg : Regular t) {depth' : ℕ} (hle : depth + 1 ≤ depth') :
    strSubstitute env depth' t = some (whole ((split t).map (strItem env depth))) := by
  obtain ⟨out, hout⟩ := isSome_iff_exists.mp (strSubstitute_isSome hnests hsml hreg)
  obtain ⟨-, rfl⟩ := strPieces_eq_some_iff.mp hout
  exact strSubstitute_mono hle hout

lemma NestedAgreeable.same (hnests : nestsBelow (depth + 1) t = true) (hsml : small env (depth + 1) t = true)
    (h : NestedAgreeable env depth t count)
    (ih : ∀ t, nestsBelow depth t = true → small env depth t = true → Agreeable env depth t (varBufSize - 1) →
      Tame env .none depth t (varBufSize - 1) ∧ ∃ out, strSubstitute env depth t = some out ∧
        (helperFullLocation env .none depth t (varBufSize - 1)).text = out.take (varBufSize - 1)) :
    NestedSame env depth t count := by
  intro p hp b hb hsub
  have hsplit := reached_subset hp
  have hb' := small_bracket hsml hsplit hb
  obtain ⟨htame, out, hout, htext⟩ := ih _ (nestsBelow_bracket hnests hsplit hb hsub) (hb'.nested hsub) (h p hp b hb hsub)
  -- no nested result reaches the size of `ltmp`
  have hlen : out.length < varBufSize := by
    have hvars := hb'.vars
    rwa [finalvars, if_pos hsub, hout] at hvars
  rw [htext, take_of_length_le (by omega)]
  exact ⟨htame, hout⟩

/-- **The engines agree on agreeable templates.** Induction on the calls that may be nested. -/
lemma helperFullLocation_agrees (hnests : nestsBelow depth t = true) (hsml : small env depth t = true)
    (h : Agreeable env depth t count) :
    Tame env .none depth t count ∧ ∃ out, strSubstitute env depth t = some out ∧
      (helperFullLocation env .none depth t count).text = out.take count := by
  induction depth generalizing t count with
  | zero => cases h
  | succ depth ih =>
    obtain ⟨hreg, hfits, hrounds⟩ := h
    have hnested : NestedAgreeable env depth t count := fun p hp b hb => (hrounds p hp b hb).2
    have hsame := hnested.same hnests hsml fun t hnests' hsml' => ih hnests' hsml'
    have hover := fun p hp b hb => (hrounds p hp b hb).1
    exact ⟨(tame_iff hsml hsame hreg).mpr hover, _, strSubstitute_eq hnests hsml hreg le_rfl,
      (helperFullLocation_text_iff hsml hsame hover).mpr hfits⟩

end Agree

/-- **The two engines agree just if the template is agreeable**, where the templates inside its
brackets are: both end, the engine with a buffer stays in its buffers and gives the first `count`
characters of what the other gives. No text, nested result or value reaches `VAR_BUF_SIZE` here, and
the nesting stays below the limit. -/
theorem helperFull_agrees_iff (env : Env) (t : Text) (count : ℕ) (hcount : (count : ℤ) ≤ intMax)
    (hnests : nestsBelow maxVariableSubRecurseDepth t = true)
    (hsmall : small env maxVariableSubRecurseDepth t = true)
    (hnested : NestedAgreeable env (maxVariableSubRecurseDepth - 1) t count) :
    (∃ out, (∀ depth, maxVariableSubRecurseDepth ≤ depth → strSubstitute env depth t = some out) ∧
      (∀ w ∈ (helperFull env t count).writes, w.Within count) ∧
      (helperFull env t count).text = out.take count) ↔
    Agreeable env maxVariableSubRecurseDepth t count := by
  have hsame : NestedSame env 14 t count :=
    hnested.same hnests hsmall fun t hnests' hsml' => helperFullLocation_agrees hnests' hsml'
  have hin := helperFullLocation_within_iff env .none maxVariableSubRecurseDepth t count hcount
  constructor
  · rintro ⟨out, hout, hwrites, htext⟩
    have hlast := hout _ le_rfl
    obtain ⟨hps, -⟩ := strPieces_eq_some_iff.mp hlast
    have hreg : Regular t := fun p hp => ⟨(hps p hp).1, (hps p hp).2.1⟩
    obtain rfl : whole ((split t).map (strItem env 14)) = out :=
      Option.some.inj ((strSubstitute_eq hnests hsmall hreg le_rfl).symm.trans hlast)
    have hover := (tame_iff hsmall hsame hreg).mp (hin.mp hwrites)
    exact ⟨hreg, (helperFullLocation_text_iff hsmall hsame hover).mp htext,
      fun p hp b hb => ⟨hover p hp b hb, hnested p hp b hb⟩⟩
  · intro h
    obtain ⟨htame, out, hout, htext⟩ := helperFullLocation_agrees hnests hsmall h
    exact ⟨out, fun depth hle => strSubstitute_mono hle hout, hin.mpr htame, htext⟩

/-- A template with a nested bracket and an expression that fits. -/
theorem helperFull_agrees_iff_nested :
    let env : Env := ⟨fun t => if t = ['B'] then some ['A'] else if t = ['A'] then some ['x', 'y', 'z'] else none,
      fun _ => none, fun _ => .number ['4', '2']⟩
    let t : Text := ['a', '$', '{', '$', '{', 'B', '}', ':', '1', '}', '$', '[', 'e', ']', 'b']
    ∃ out, (∀ depth, maxVariableSubRecurseDepth ≤ depth → strSubstitute env depth t = some out) ∧
      (∀ w ∈ (helperFull env t 6).writes, w.Within 6) ∧ (helperFull env t 6).text = out.take 6 :=
  (helperFull_agrees_iff _ _ 6 (by decide) (by decide) (by decide) (by decide)).mpr (by decide)

/-- A string of six characters and a literal `X`, with room for four: the string is cut to three
characters, to leave room for its zero, and then `X` goes into the room that is left. -/
theorem helperFull_disagrees :
    let env : Env := ⟨fun _ => none, fun _ => none, fun _ => .string (some ['a', 'b', 'c', 'd', 'e', 'f'])⟩
    let t : Text := ['$', '[', 'e', ']', 'X']
    nestsBelow maxVariableSubRecurseDepth t = true ∧ small env maxVariableSubRecurseDepth t = true ∧
      strSubstitute env maxVariableSubRecurseDepth t = some ['a', 'b', 'c', 'd', 'e', 'f', 'X'] ∧
      (helperFull env t 4).text = ['a', 'b', 'c', 'X'] := by
  decide

end Telephony.Pbx
