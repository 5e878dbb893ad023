import Mathlib.Data.Nat.Init
import Mathlib.Data.List.Basic

/-!
# Encoded characters

`ast_get_encoded_char` decodes the character at the start of a string, and `ast_get_encoded_str`
decodes a string into a buffer. A string is given by the bytes in front of its terminator.
-/

namespace Telephony.Strings

open List

def isHexDigit (c : UInt8) : Bool := (48 ≤ c ∧ c ≤ 57) ∨ (65 ≤ c ∧ c ≤ 70) ∨ (97 ≤ c ∧ c ≤ 102)

def isOctalDigit (c : UInt8) : Bool := 48 ≤ c ∧ c ≤ 55

def hexValue (c : UInt8) : UInt8 := if c ≤ 57 then c - 48 else if c ≤ 70 then c - 65 + 10 else c - 97 + 10

/-- Source: `ast_get_encoded_char` (`case 'x'`) -/
def getHexChar : List UInt8 → Option UInt8 × ℕ
  | c :: rest =>
    if isHexDigit c then
      match rest with
      | d :: _ => if isHexDigit d then (some (hexValue c <<< 4 + hexValue d), 4) else (some (hexValue c), 3)
      | [] => (some (hexValue c), 3)
    else (none, 2)
  | [] => (none, 2)

/-- Source: `ast_get_encoded_char` (`case '0'`) -/
def getOctalChar (rest : List UInt8) : Option UInt8 × ℕ :=
  let digits := rest.takeWhile isOctalDigit
  (some (digits.foldl (fun r c => r <<< 3 + (c - 48)) 0), 2 + digits.length)

/-- The character, if there is one, and the number of bytes it is said to have. A backslash at
the end of the string takes the terminator for its character.
Source: `ast_get_encoded_char` -/
def getEncodedChar : List UInt8 → Option UInt8 × ℕ
  | [] => (none, 0)
  | [92] => (some 0, 2)
  | 92 :: c :: rest =>
    if c = 110 then (some 10, 2)
    else if c = 114 then (some 13, 2)
    else if c = 116 then (some 9, 2)
    else if c = 120 then getHexChar rest
    else if c = 48 then getOctalChar rest
    else (some c, 2)
  | c :: _ => (some c, 1)

/-- The loop with room for so many characters; `none` when it reads behind the terminator.
Source: `ast_get_encoded_str` -/
def decodeInto : ℕ → List UInt8 → Option (List UInt8)
  | 0, _ => some []
  | room + 1, s =>
    match getEncodedChar s with
    | (none, _) => some []
    | (some c, consumed) =>
      if consumed ≤ s.length ∨ room = 0 then (decodeInto room (s.drop consumed)).map (c :: ·) else none

/-- The bytes that are written.
Source: `ast_get_encoded_str` -/
def getEncodedStr (s : List UInt8) (resultSize : ℕ) : Option (List UInt8) :=
  (decodeInto (resultSize - 1) s).map (· ++ [0])

/-! ## The decoding without a bound -/

lemma consumed_pos {s : List UInt8} {c : UInt8} (h : (getEncodedChar s).1 = some c) :
    s ≠ [] ∧ 0 < (getEncodedChar s).2 := by
  unfold getEncodedChar getHexChar getOctalChar at *
  grind

/-- Where the decoding looks for a character: at the start, and behind each character that it
found. -/
def streams (s : List UInt8) : List (List UInt8) :=
  s :: match _h : (getEncodedChar s).1 with
    | none => []
    | some _ => streams (s.drop (getEncodedChar s).2)
termination_by s.length
decreasing_by
  have := consumed_pos _h
  have := length_pos_iff.mpr this.1
  rw [length_drop]
  omega

def decoded (s : List UInt8) : List UInt8 := (streams s).filterMap fun rest => (getEncodedChar rest).1

lemma consumed_le_iff (s : List UInt8) : (getEncodedChar s).2 ≤ s.length ↔ s ≠ [92] := by
  have hdgs := ( takeWhile_prefix (l := s.drop 2) isOctalDigit).length_le
  unfold getEncodedChar getHexChar getOctalChar
  grind

lemma decodeInto_eq (room : ℕ) (s : List UInt8) :
    decodeInto room s = if [92] ∈ (streams s).take (room - 1) then none else some ((decoded s).take room) := by
  induction room generalizing s with
  | zero => simp [decodeInto]
  | succ room ih =>
    have hlone := consumed_le_iff s
    unfold decodeInto decoded
    rw [streams]
    rcases hchar : getEncodedChar s with ⟨_ | c, consumed⟩
    · have hs : s ≠ [92] := by
        rintro rfl
        cases hchar
      cases room <;> simp [hchar, hs.symm]
    cases room with
    | zero => simp [hchar, decodeInto]
    | succ room =>
      rw [hchar] at hlone
      simp only [hlone, ih]
      unfold decoded
      by_cases hs : s = [92]
      · simp [hs]
      · by_cases hrest : [92] ∈ take room (streams (s.drop consumed)) <;> simp [hs, Ne.symm hs, hchar, hrest]

/-- A string is decoded as the text of it asks, inside of the string and of the buffer, just if the
buffer has room for a terminator and no character but the last one there is room for is sought at a
lone backslash. -/
theorem getEncodedStr_iff (s : List UInt8) (size : ℕ) :
    ((getEncodedChar s).2 ≤ s.length ↔ s ≠ [92]) ∧
      ((∃ out, getEncodedStr s size = some out ∧ out.length ≤ size ∧ out = (decoded s).take (size - 1) ++ [0]) ↔
        0 < size ∧ [92] ∉ (streams s).take (size - 2)) := by
  refine ⟨consumed_le_iff s, ?_⟩
  unfold getEncodedStr
  rw [decodeInto_eq, show size - 1 - 1 = size - 2 from rfl]
  split_ifs with hlone
  · simp [hlone]
  · simp [hlone]
    omega

theorem getEncodedStr_behind : (getEncodedChar [92]).2 = 2 ∧ getEncodedStr [97, 92] 4 = none := by decide

end Telephony.Strings
