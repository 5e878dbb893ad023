import Telephony.Pbx.Substitute

/-!
# Text that does not fit

What a substitution puts into the buffer, apart from how the values are found: items of literal text
and a value. Text and values of variables are cut where the room ends. The value of an expression
needs room for the zero behind it, and what happens without it depends on its type.
-/

namespace Telephony.Pbx

open Lib List

/-! ## Items -/

/-- Source: `ast_str_expr` -/
def ExprResult.text : ExprResult → Text
  | .none => ['0']
  | .number t => t
  | .string Option.none => []
  | .string (some t) => t

def Value.whole : Value → Text
  | .text t => t
  | .expr r => r.text

def whole (items : List Item) : Text := items.flatMap fun i => i.literal ++ i.value.whole

namespace Output

@[simp] def putItem (s : Output) (i : Item) : Output :=
  match i.value with
  | .text t => (s.put i.literal).put t
  | .expr r => (s.put i.literal).putExpr r

def putItems : Output → List Item → Output
  | s, [] => s
  | s, i :: items => if s.count = 0 then s else (s.putItem i).putItems items

end Output

/-! ## Items that fit -/

def Value.isString : Value → Bool
  | .expr (.string (some _)) => true
  | _ => false

def fills (c : Char) : List Item → Bool
  | [] => false
  | i :: items =>
    match i.literal with
    | a :: _ => a = c && !i.value.isString
    | [] =>
      match i.value with
      | .text (a :: _) => a = c
      | .expr (.number (_ :: _)) => false
      | _ => fills c items

/-- The character that is cut off must come next, if there was room for it. A number is followed by
nothing, and a string must not meet a buffer without any room. -/
def cutFits (room : ℕ) (items : List Item) : ExprResult → Bool
  | .none => room = 0 || fills '0' items
  | .number _ => room = 0
  | .string none => true
  | .string (some t) => room ≠ 0 && fills (t.getD (room - 1) '0') items

def fits (count : ℕ) : List Item → Bool
  | [] => true
  | i :: items =>
    let room := count - i.literal.length
    if count = 0 then true
    else match i.value with
      | .text t => fits (room - t.length) items
      | .expr r => if r.text.length < room then fits (room - r.text.length) items else cutFits room items r

/-! ## What is in the buffer -/

structure Output.Holds (s : Output) (w : Text) (n : ℕ) : Prop where
  cells : s.cells = w.map some
  count : s.count = n

section Holds

variable {s s' : Output} {w : Text} {n room : ℕ}

lemma filterMap_map_some (w : Text) : (w.map some).filterMap id = w := by
  rw [filterMap_map]
  exact filterMap_some

lemma Output.text_of_zero {l : List (Option Char)} (h : s.cells = w.map some ++ none :: l) : s.text = w := by
  have hsome : ∀ c ∈ w.map some, c.isSome = true := by simp
  unfold Output.text
  rw [h, takeWhile_append_of_pos hsome, takeWhile_cons_of_neg (by simp), append_nil, filterMap_map_some]

lemma Output.Holds.text (h : s.Holds w n) : s.text = w := by
  have hsome : ∀ c ∈ w.map some, c.isSome = true := by simp
  unfold Output.text
  rw [h.cells, ← append_nil (w.map some), takeWhile_append_of_pos hsome, takeWhile_nil,
    append_nil, filterMap_map_some]

lemma Output.Holds.put (h : s.Holds w n) (t : Text) : (s.put t).Holds (w ++ t.take n) (n - t.length) := by
  constructor
  · simp [Output.put, h.cells, h.count]
  · simp only [Output.put, h.count, length_take]
    omega

variable {r : ExprResult} {t : Text} {c : Char}

lemma Output.Holds.putExpr (h : s.Holds w n) (hr : r.text.length < n) :
    (s.putExpr r).Holds (w ++ r.text) (n - r.text.length) := by
  have hcnt := h.count
  cases r with
  | none =>
    have hfits : 1 < s.count := by
      rwa [hcnt]
    simp only [Output.putExpr, if_pos hfits]
    exact ⟨by simp [h.cells, ExprResult.text], by simp [hcnt, ExprResult.text]⟩
  | number t =>
    have hfits : t.length < s.count := by
      rwa [hcnt]
    simp only [Output.putExpr, if_pos hfits]
    refine ⟨by simp [h.cells, ExprResult.text], ?_⟩
    simp only [ExprResult.text]
    omega
  | string text =>
    cases text with
    | none => exact ⟨by simp [Output.putExpr, Output.log, h.cells, ExprResult.text], hcnt⟩
    | some t =>
      have hfits : t.length < n := hr
      have htake : t.take (s.count - 1) = t := take_of_length_le (by omega)
      simp only [Output.putExpr, htake, if_neg (show ¬ s.count = 0 by omega)]
      exact ⟨by simp [h.cells, ExprResult.text], by simp [hcnt, ExprResult.text]⟩

lemma Output.Holds.putExpr_full (h : s.Holds w 0) (hr : ∀ t, r ≠ .string (some t)) : (s.putExpr r).Holds w 0 := by
  have hcnt := h.count
  cases r with
  | none =>
    simp only [Output.putExpr, if_neg (show ¬ 1 < s.count by omega)]
    exact h
  | number t =>
    simp only [Output.putExpr]
    refine ⟨by simp [h.cells, hcnt], ?_⟩
    dsimp only
    omega
  | string text =>
    cases text with
    | none => exact ⟨h.cells, hcnt⟩
    | some t => exact absurd rfl (hr t)

lemma Output.putExpr_none (h : s.count ≤ 1) : s.putExpr .none = s := if_neg (by omega)

lemma Output.Holds.putExpr_string (h : s.Holds w n) (hn : n ≠ 0) (ht : n ≤ t.length) :
    (s.putExpr (.string (some t))).Holds (w ++ t.take (n - 1)) 1 := by
  have hcnt := h.count
  simp only [Output.putExpr, if_neg (show ¬ s.count = 0 by omega)]
  refine ⟨by simp [h.cells, hcnt], ?_⟩
  simp only [length_take]
  omega

lemma Output.Holds.putExpr_number (h : s.Holds w n) (hn : n ≠ 0) (ht : n ≤ t.length) :
    (s.putExpr (.number t)).text = w ++ t.take (n - 1) ∧ (s.putExpr (.number t)).count = 0 := by
  have hcnt := h.count
  have hmin : min t.length s.count = n := by omega
  have hone : min n 1 = 1 := by omega
  simp only [Output.putExpr, if_neg (show ¬ t.length < s.count by omega), hmin, hone]
  constructor
  · refine Output.text_of_zero (l := []) ?_
    simp [h.cells]
  · omega

lemma Output.putItems_full (hcnt : s.count = 0) (items : List Item) : s.putItems items = s := by
  cases items with
  | nil => rfl
  | cons i items => exact if_pos hcnt

lemma Output.Holds.putExpr_over (h : s.Holds (w ++ [c]) 0) (t : Text) :
    (s.putExpr (.string (some t))).text = w ∧ (s.putExpr (.string (some t))).count = 0 := by
  have hcnt := h.count
  simp only [Output.putExpr, if_pos hcnt]
  constructor
  · refine Output.text_of_zero (l := []) ?_
    simp [h.cells]
  · omega

lemma append_singleton_ne {w : Text} : w ≠ w ++ [c] := by
  intro h
  have hlen := congrArg List.length h
  simp at hlen

lemma fills_iff (h : s.Holds w 1) (c : Char) (items : List Item) :
    (s.putItems items).text = w ++ [c] ↔ fills c items = true := by
  induction items generalizing s with
  | nil => exact iff_of_false (fun heq => append_singleton_ne (h.text.symm.trans heq)) (by simp [fills])
  | cons i items ih =>
    have hcnt : s.count ≠ 0 := by
      rw [h.count]
      exact Nat.one_ne_zero
    -- the character is there, and nothing follows
    have hdone : ∀ {s' : Output} {a : Char}, s'.Holds (w ++ [a]) 0 →
        ((s'.putItems items).text = w ++ [c] ↔ a = c) := by
      intro s' a h'
      rw [Output.putItems_full h'.count, h'.text]
      simp
    have hlost : ∀ {s' : Output}, s'.text = w ∧ s'.count = 0 → ¬ (s'.putItems items).text = w ++ [c] := by
      rintro s' ⟨htext, hzero⟩
      rw [Output.putItems_full hzero, htext]
      exact append_singleton_ne
    obtain ⟨literal, value⟩ := i
    rw [Output.putItems, if_neg hcnt]
    cases literal with
    | cons a literal =>
      have hput : (s.put (a :: literal)).Holds (w ++ [a]) 0 := by simpa using h.put (a :: literal)
      cases value with
      | text t =>
        have hnone : ((s.put (a :: literal)).put t).Holds (w ++ [a]) 0 := by simpa using hput.put t
        simpa [fills, Value.isString] using hdone hnone
      | expr r =>
        by_cases hr : ∃ t, r = .string (some t)
        · obtain ⟨t, rfl⟩ := hr
          simpa [fills, Value.isString] using hlost (hput.putExpr_over t)
        have hstr : (Value.expr r).isString = false := by
          unfold Value.isString
          split
          · next t heq => exact absurd ⟨t, Value.expr.inj heq⟩ hr
          · rfl
        simpa [fills, hstr] using hdone (hput.putExpr_full fun t ht => hr ⟨t, ht⟩)
    | nil =>
      have hput : (s.put []).Holds w 1 := by simpa using h.put []
      cases value with
      | text t =>
        cases t with
        | nil => exact ih (by simpa using hput.put [])
        | cons a t =>
          have hnext : ((s.put []).put (a :: t)).Holds (w ++ [a]) 0 := by simpa using hput.put (a :: t)
          simpa [fills] using hdone hnext
      | expr r =>
        have hemp : r.text.length < 1 → ((s.put []).putExpr r).Holds w 1 := by
          intro hr
          have htext : r.text = [] := length_eq_zero_iff.mp (by omega)
          simpa [htext] using hput.putExpr hr
        cases r with
        | none => exact ih (by simpa [Output.putExpr_none (Nat.le_of_eq hput.count)] using hput)
        | number t =>
          cases t with
          | nil => exact ih (hemp Nat.one_pos)
          | cons a t =>
            have hcut := hput.putExpr_number Nat.one_ne_zero (t := a :: t) (by simp)
            simpa [fills] using hlost (by simpa using hcut)
        | string text =>
          cases text with
          | none => exact ih (hemp Nat.one_pos)
          | some t =>
            cases t with
            | nil => exact ih (hemp Nat.one_pos)
            | cons a t =>
              exact ih (by simpa using hput.putExpr_string Nat.one_ne_zero (t := a :: t) (by simp))

lemma whole_cons (i : Item) (items : List Item) :
    whole (i :: items) = i.literal ++ (i.value.whole ++ whole items) := by
  simp [whole]

lemma take_whole_cons (i : Item) (items : List Item) (n : ℕ) :
    (whole (i :: items)).take n = i.literal.take n ++ i.value.whole.take (n - i.literal.length) ++
      (whole items).take (n - i.literal.length - i.value.whole.length) := by
  rw [whole_cons, take_append, take_append, append_assoc]

lemma putItems_text_step {items : List Item} {i : Item}
    (h' : s'.Holds (w ++ i.literal.take n ++ i.value.whole.take (n - i.literal.length))
      (n - i.literal.length - i.value.whole.length))
    (ih : ∀ {s : Output} {w : Text} {n : ℕ}, s.Holds w n →
      ((s.putItems items).text = w ++ (whole items).take n ↔ fits n items = true)) :
    (s'.putItems items).text = w ++ (whole (i :: items)).take n ↔
      fits (n - i.literal.length - i.value.whole.length) items = true := by
  rw [← ih h', take_whole_cons]
  simp

lemma cutFits_iff (h : s.Holds w room) (hr : room ≤ r.text.length) (hw : room = 0 → w ≠ []) (items : List Item) :
    ((s.putExpr r).putItems items).text = w ++ r.text.take room ↔ cutFits room items r = true := by
  by_cases hroom : room = 0
  · subst hroom
    by_cases hstr : ∃ t, r = .string (some t)
    · obtain ⟨t, rfl⟩ := hstr
      obtain ⟨v, c, rfl⟩ : ∃ v c, w = v ++ [c] := ⟨_, _, (dropLast_concat_getLast (hw rfl)).symm⟩
      obtain ⟨htext, hcnt⟩ := h.putExpr_over t
      rw [Output.putItems_full hcnt, htext]
      simp [cutFits]
    have hfull := h.putExpr_full fun t ht => hstr ⟨t, ht⟩
    rw [Output.putItems_full hfull.count, hfull.text]
    cases r with
    | none => simp [cutFits]
    | number t => simp [cutFits]
    | string text =>
      cases text with
      | none => simp [cutFits]
      | some t => exact absurd ⟨t, rfl⟩ hstr
  cases r with
  | none =>
    obtain rfl : room = 1 := by
      simp only [ExprResult.text, length_singleton] at hr
      omega
    rw [Output.putExpr_none (Nat.le_of_eq h.count)]
    simpa [cutFits, ExprResult.text] using fills_iff h '0' items
  | number t =>
    simp only [ExprResult.text] at hr ⊢
    obtain ⟨htext, hcnt⟩ := h.putExpr_number hroom hr
    rw [Output.putItems_full hcnt, htext]
    refine iff_of_false (fun heq => ?_) (by simpa [cutFits] using hroom)
    have hlen := congrArg List.length heq
    simp only [length_append, length_take] at hlen
    omega
  | string text =>
    cases text with
    | none => exact absurd hr (by simpa [ExprResult.text] using hroom)
    | some t =>
      simp only [ExprResult.text] at hr ⊢
      have hspl : t.take room = t.take (room - 1) ++ [t.getD (room - 1) '0'] := by
        have hlast : room - 1 < t.length := by omega
        rw [getD_eq_getElem?_getD, getElem?_eq_getElem hlast, Option.getD_some,
          ← take_succ_eq_append_getElem hlast, Nat.sub_add_cancel (by omega)]
      rw [hspl, ← append_assoc, fills_iff (h.putExpr_string hroom hr)]
      simp [cutFits, hroom]

lemma putItems_text_iff (h : s.Holds w n) (items : List Item) :
    (s.putItems items).text = w ++ (whole items).take n ↔ fits n items = true := by
  induction items generalizing s w n with
  | nil => exact iff_of_true (by simpa [whole, Output.putItems] using h.text) rfl
  | cons i items ih =>
    by_cases hzero : n = 0
    · subst hzero
      rw [Output.putItems_full h.count, h.text]
      simp [fits]
    have hcnt : s.count ≠ 0 := by
      rwa [h.count]
    obtain ⟨literal, value⟩ := i
    have hput := h.put literal
    rw [Output.putItems, if_neg hcnt]
    cases value with
    | text t =>
      have hnext := putItems_text_step (i := ⟨literal, .text t⟩) (hput.put t) ih
      simpa [fits, hzero, Value.whole] using hnext
    | expr r =>
      by_cases hfits : r.text.length < n - literal.length
      · have hval : ((s.put literal).putExpr r).Holds
            (w ++ literal.take n ++ r.text.take (n - literal.length))
            (n - literal.length - r.text.length) := by
          rw [take_of_length_le (Nat.le_of_lt hfits)]
          exact hput.putExpr hfits
        have hnext := putItems_text_step (i := ⟨literal, .expr r⟩) hval ih
        simpa [fits, hzero, hfits, Value.whole] using hnext
      have hnone : n - literal.length - r.text.length = 0 := by omega
      have hlit : n - literal.length = 0 → w ++ literal.take n ≠ [] := by
        intro hroom hnil
        have hlen := congrArg List.length hnil
        simp only [length_append, length_take, length_nil] at hlen
        omega
      have hcut := cutFits_iff hput (Nat.le_of_not_lt hfits) hlit items
      rw [take_whole_cons]
      simpa [fits, hzero, hfits, Value.whole, hnone] using hcut

end Holds

end Telephony.Pbx
