import Telephony.Lib.Word
import Telephony.Strings.Encoded

/-!
# Texts in a URI

`ast_uri_verify_encoded` checks whether a text may stand in a URI. The digits behind a percent sign
are read with `sscanf`, which passes over white space and takes a sign or a single digit as well.
`uriVerifyEncoded_iff` gives the texts that are accepted, `uriVerifyEncoded_strict_iff` those for
which that is right.
-/

namespace Telephony.Strings

open Lib List

def isSpace (c : UInt8) : Bool := 9 ≤ c ∧ c ≤ 13 ∨ c = 32

def isAlnum (c : UInt8) : Bool := 48 ≤ c ∧ c ≤ 57 ∨ 65 ≤ c ∧ c ≤ 90 ∨ 97 ≤ c ∧ c ≤ 122

/-- Whether the conversion `%2x` finds a number. A zero with an `x` behind it is read as the number
zero.
Source: `sscanf` -/
def scansHex (t : List UInt8) : Bool :=
  match t.dropWhile isSpace with
  | [] => false
  | c :: t => isHexDigit c || c ∈ [43, 45] && t.head?.any isHexDigit

/-- Source: `ast_uri_verify_encoded` -/
def uriVerifyEncoded : List UInt8 → Bool
  | [] => true
  | c :: s =>
    if c = 37 then
      match s with
      | a :: b :: s => scansHex (a :: b :: s) && uriVerifyEncoded s
      | _ => false
    else (isAlnum c || c ∈ [45, 95, 46, 43]) && uriVerifyEncoded s

/-- Unreserved characters, and percent signs with two characters behind them that `ok` allows. -/
inductive Encoded (ok : List UInt8 → Bool) : List UInt8 → Prop
  | nil : Encoded ok []
  | plain {c s} : (isAlnum c || c ∈ [45, 95, 46, 43]) = true → Encoded ok s → Encoded ok (c :: s)
  | escape {a b s} : ok (a :: b :: s) = true → Encoded ok s → Encoded ok (37 :: a :: b :: s)

/-- Two hexadecimal digits come first. -/
def twoDigits (t : List UInt8) : Bool := t.length ≥ 2 && (t.take 2).all isHexDigit

lemma isSpace_of_isHexDigit : ∀ c, isHexDigit c = true → isSpace c = false := forall_byte (by decide +kernel)

lemma Encoded.scans {s : List UInt8} (h : Encoded twoDigits s) : Encoded scansHex s := by
  induction h with
  | nil => exact .nil
  | plain hc _ ih => exact .plain hc ih
  | @escape a b s hok _ ih =>
    have ha : isHexDigit a = true := by
      simp only [twoDigits, Bool.and_eq_true, take_succ_cons, all_cons] at hok
      exact hok.2.1
    refine .escape ?_ ih
    simp [scansHex, isSpace_of_isHexDigit a ha, ha]

lemma uriVerifyEncoded_iff (s : List UInt8) : uriVerifyEncoded s = true ↔ Encoded scansHex s := by
  constructor
  · intro h
    induction s using uriVerifyEncoded.induct with
    | case1 => exact .nil
    | case2 a b s ih =>
      simp only [uriVerifyEncoded, if_true, Bool.and_eq_true] at h
      exact .escape h.1 (ih h.2)
    | case3 s hs => simp [uriVerifyEncoded] at h
    | case4 c s hc ih =>
      rw [uriVerifyEncoded.eq_def] at h
      simp only [if_neg hc, Bool.and_eq_true] at h
      exact .plain h.1 (ih h.2)
  · intro h
    induction h with
    | nil => rfl
    | @plain c s hc _ ih =>
      have hne : c ≠ 37 := by
        rintro rfl
        exact absurd hc (by decide)
      rw [uriVerifyEncoded.eq_def]
      simp only [if_neg hne, ih, Bool.and_true]
      exact hc
    | escape hok _ ih => simp [uriVerifyEncoded, hok, ih]

/-! ## Where the walk comes to -/

/-- What is left of the text `s` when the walk comes to a character: it passes over one character,
or over a percent sign and two more. -/
inductive Reached (s : List UInt8) : List UInt8 → Prop
  | start : Reached s s
  | plain {c t} : c ≠ 37 → Reached s (c :: t) → Reached s t
  | escape {a b t} : Reached s (37 :: a :: b :: t) → Reached s t

/-- The first character is unreserved, or a percent sign with two characters behind it that `ok`
allows. -/
def Legal (ok : List UInt8 → Bool) : List UInt8 → Prop
  | [] => True
  | c :: t => if c = 37 then 2 ≤ t.length ∧ ok t = true else (isAlnum c || c ∈ [45, 95, 46, 43]) = true

lemma Reached.trans {s t u : List UInt8} (hst : Reached s t) (htu : Reached t u) : Reached s u := by
  induction htu with
  | start => exact hst
  | plain hc _ ih => exact .plain hc ih
  | escape _ ih => exact .escape ih

lemma encoded_of_legal {ok : List UInt8 → Bool} (s : List UInt8) (h : ∀ t, Reached s t → Legal ok t) :
    Encoded ok s := by
  induction s using uriVerifyEncoded.induct with
  | case1 => exact .nil
  | case2 a b s ih =>
    have hlegal := h _ .start
    rw [Legal, if_pos rfl] at hlegal
    exact .escape hlegal.2 (ih fun t ht => h t (.trans (.escape .start) ht))
  | case3 s hs =>
    have hlegal := h _ .start
    rw [Legal, if_pos rfl] at hlegal
    match s, hlegal.1 with
    | a :: b :: s, _ => exact absurd rfl (hs a b s)
  | case4 c s hc ih =>
    have hlegal := h _ .start
    rw [Legal, if_neg hc] at hlegal
    exact .plain hlegal (ih fun t ht => h t (.trans (.plain hc .start) ht))

lemma Encoded.legal {ok : List UInt8 → Bool} {s t : List UInt8} (h : Encoded ok s) (ht : Reached s t) :
    Encoded ok t ∧ Legal ok t := by
  have hlegal : ∀ {u}, Encoded ok u → Legal ok u := by
    intro u hu
    cases hu with
    | nil => trivial
    | @plain c s hc _ =>
      have hne : c ≠ 37 := by
        rintro rfl
        exact absurd hc (by decide)
      rwa [Legal, if_neg hne]
    | escape hok _ => exact ⟨by simp, hok⟩
  have henc : Encoded ok t := by
    induction ht with
    | start => exact h
    | plain hc _ ih =>
      cases ih with
      | plain _ hrest => exact hrest
      | escape => exact absurd rfl hc
    | escape _ ih =>
      cases ih with
      | plain hc _ => exact absurd hc (by decide)
      | escape _ hrest => exact hrest
  exact ⟨henc, hlegal henc⟩

/-- **The verification is right** exactly for the texts in which the walk comes to a character that
may not stand there (a reserved one, or a percent sign with fewer than two characters or nothing
that `%2x` reads behind it), or in which every percent sign it comes to has two hexadecimal digits
behind it. -/
theorem uriVerifyEncoded_strict_iff (s : List UInt8) :
    (uriVerifyEncoded s = true ↔ Encoded twoDigits s) ↔
      (∃ t, Reached s t ∧ ¬Legal scansHex t) ∨ ∀ t, Reached s (37 :: t) → twoDigits t = true := by
  rw [uriVerifyEncoded_iff]
  constructor
  · intro h
    by_cases hscans : Encoded scansHex s
    · refine .inr fun t ht => ?_
      have hlegal := ((h.mp hscans).legal ht).2
      rw [Legal, if_pos rfl] at hlegal
      exact hlegal.2
    by_contra hnone
    rw [not_or, not_exists] at hnone
    exact hscans (encoded_of_legal s fun t ht => by_contra fun hbad => hnone.1 t ⟨ht, hbad⟩)
  · rintro (⟨t, ht, hbad⟩ | hdigits)
    · exact iff_of_false (fun hscans => hbad (hscans.legal ht).2) fun htwo => hbad (htwo.scans.legal ht).2
    · refine ⟨fun hscans => encoded_of_legal s fun t ht => ?_, Encoded.scans⟩
      have hlegal := (hscans.legal ht).2
      cases t with
      | nil => trivial
      | cons c t =>
        rw [Legal] at hlegal ⊢
        split_ifs at hlegal ⊢ with hc
        · exact ⟨hlegal.1, hdigits t (hc ▸ ht)⟩
        · exact hlegal

/-- `%1g` is accepted: the one digit is read as a number, and the letter behind it is passed
over. -/
theorem uriVerifyEncoded_one_digit :
    uriVerifyEncoded [37, 49, 103] = true ∧ ¬ Encoded twoDigits [37, 49, 103] := by
  refine ⟨by decide, fun h => ?_⟩
  cases h with
  | plain hc _ => exact absurd hc (by decide)
  | escape hok _ => exact absurd hok (by decide)

end Telephony.Strings
