import Mathlib.Data.List.Basic
import Telephony.Lib.Word

/-!
# Templates of the dialplan

A template is a text in which `${…}` stands for the value of a variable or a function, and `$[…]`
for that of an expression. The parts that its two engines have in common are here.

A text is the list of the characters of a C string, without the zero that ends it. Positions in a
text are kept in variables of type `int`, which has 32 bits and wraps around as the machine does it;
for the language an overflow is undefined.
-/

namespace Telephony.Pbx

open Lib

abbrev Text := List Char

def varBufSize : ℕ := 4096

def intMax : ℤ := 2 ^ 31 - 1

/-! ## Brackets -/

/-- Source: `nextvar`, `nextexp` -/
inductive BracketKind where
  | var | expr
  deriving DecidableEq, Repr

namespace BracketKind

def opening : BracketKind → Char
  | .var => '{'
  | .expr => '['

def closing : BracketKind → Char
  | .var => '}'
  | .expr => ']'

def other : BracketKind → Char
  | .var => '['
  | .expr => '{'

end BracketKind

/-- How many characters the search for the end of a bracket passes, if it came to the end, if
something is to be replaced inside, and the text behind.
Source: `vare`, `brackets`, `needsub` -/
structure Scan where
  span : ℕ
  closed : Bool
  needsub : Bool
  rest : Text
  deriving DecidableEq, Repr

def Scan.after (n : ℕ) (sub : Bool) (s : Scan) : Scan := ⟨n + s.span, s.closed, sub || s.needsub, s.rest⟩

/-- Find the end of a bracket, with the number of brackets that are open.
Source: `while (brackets && *vare)` -/
def scanBracket (k : BracketKind) : ℕ → Text → Scan
  | 0, t => ⟨0, true, false, t⟩
  | _ + 1, [] => ⟨0, false, false, []⟩
  | b + 1, [a] =>
    if a = k.opening then (scanBracket k (b + 2) []).after 1 false
    else if a = k.closing then (scanBracket k b []).after 1 false
    else (scanBracket k (b + 1) []).after 1 false
  | b + 1, a :: d :: t =>
    if a = '$' ∧ d = k.opening then (scanBracket k (b + 2) t).after 2 true
    else if a = k.opening then (scanBracket k (b + 2) (d :: t)).after 1 false
    else if a = k.closing then (scanBracket k b (d :: t)).after 1 false
    else if a = '$' ∧ d = k.other then (scanBracket k (b + 1) t).after 2 true
    else (scanBracket k (b + 1) (d :: t)).after 1 false

/-- A bracket: the template behind its opening, and the length of its text in the variable `len`.
Source: `vars`, `len`, `needsub` -/
structure Bracket where
  kind : BracketKind
  source : Text
  len : ℤ
  needsub : Bool
  deriving DecidableEq, Repr

/-- The size that is given to the copy of the text, of type `size_t`.
Source: `ast_copy_string (var, vars, len + 1)` -/
def Bracket.copySize (b : Bracket) : ℕ := ((b.len + 1) % 2 ^ 64).toNat

/-- Source: `var`, `substr1` -/
def Bracket.text (b : Bracket) : Text := b.source.take (b.copySize - 1)

/-! ## The rounds of the loop over a template -/

/-- Source: `pos`, `nextvar`, `nextexp` -/
structure Piece where
  literal : Text
  pos : ℤ
  bracket : Option Bracket
  deriving DecidableEq, Repr

/-- The text up to the next bracket, the kind of the bracket, and what is behind its opening. A `$`
that opens no bracket ends the text and belongs to it.
Source: `nextthing = strchr (whereweare, '$')`, `switch (nextthing[1])` -/
def nextThing : Text → Text × Option BracketKind × Text
  | [] => ([], none, [])
  | [a] => ([a], none, [])
  | a :: d :: t =>
    if a = '$' then
      if d = '{' then ([], some .var, t)
      else if d = '[' then ([], some .expr, t)
      else ([a], none, d :: t)
    else
      let next := nextThing (d :: t)
      (a :: next.1, next.2)

/-- Source: `ast_str_substitute_variables_full2`, `pbx_substitute_variables_helper_full_location` -/
def round (t : Text) : Piece × Text :=
  let next := nextThing t
  let pos := int32 next.1.length
  match next.2.1 with
  | none => (⟨next.1, pos, none⟩, t.drop pos.toNat)
  | some k =>
    let s := scanBracket k 1 next.2.2
    (⟨next.1, pos, some ⟨k, next.2.2, int32 (s.span - if s.closed then 1 else 0), s.needsub⟩⟩, s.rest)

def rounds : ℕ → Text → List Piece
  | 0, _ => []
  | _ + 1, [] => []
  | n + 1, a :: t => (round (a :: t)).1 :: rounds n (round (a :: t)).2

/-- Source: `while (!ast_strlen_zero (whereweare))` -/
def split (t : Text) : List Piece := rounds t.length t

/-- The round does nothing, so that the loop never ends: the length of the literal text is a
multiple of `2 ^ 32`. -/
def Piece.idle (p : Piece) : Bool := p.pos = 0 && p.bracket.isNone

/-! ## Names of variables -/

/-- The conversion `%30d`: white space, a sign, digits.
Source: `sscanf` -/
def scanInt (t : Text) : Option (ℤ × Text) :=
  let t := t.dropWhile fun c => c.toNat ∈ [9, 10, 11, 12, 13, 32]
  let signed := t.head? = some '-' ∨ t.head? = some '+'
  let t' := if signed then t.tail else t
  let digits := (t'.take (if signed then 29 else 30)).takeWhile Char.isDigit
  let n : ℕ := digits.foldl (fun n c => 10 * n + (c.toNat - 48)) 0
  let value : ℤ := if t.head? = some '-' then max (-(n : ℤ)) (-2 ^ 63) else min (n : ℤ) (2 ^ 63 - 1)
  if digits = [] then none else some (int32 value, t'.drop digits.length)

/-- Source: `sscanf (var, "%30d:%30d", offset, length)` -/
def scanOffsetLength (t : Text) : ℤ × ℤ :=
  match scanInt t with
  | none => (0, intMax)
  | some (offset, t') =>
    if t'.head? = some ':' then
      match scanInt t'.tail with
      | none => (offset, intMax)
      | some (length, _) => (offset, length)
    else (offset, intMax)

/-- The name of a variable or function, the part of the value that is asked for, and where the colon
was that is overwritten. -/
structure VariableName where
  name : Text
  offset : ℤ
  length : ℤ
  isfunc : Bool
  colon : Option ℕ
  deriving DecidableEq, Repr

def VariableName.cons (c : Char) (isfunc : Bool) (v : VariableName) : VariableName :=
  ⟨c :: v.name, v.offset, v.length, isfunc || v.isfunc, v.colon.map (· + 1)⟩

def parseVariableName (parens : ℤ) : Text → VariableName
  | [] => ⟨[], 0, intMax, false, none⟩
  | c :: t =>
    if c = '(' then (parseVariableName (parens + 1) t).cons c true
    else if c = ')' then (parseVariableName (parens - 1) t).cons c false
    else if c = ':' ∧ parens = 0 then
      ⟨[], (scanOffsetLength t).1, (scanOffsetLength t).2, false, some 0⟩
    else (parseVariableName parens t).cons c false

/-! ## Parts of values -/

/-- Source: `substring`, `ast_str_substring` -/
def startOf (lr : ℕ) (offset : ℤ) : ℤ := if offset < 0 then max (lr + offset) 0 else offset

def substring (value : Text) (offset length : ℤ) : Text × Option ℤ :=
  let lr := value.length
  if offset = 0 ∧ (lr : ℤ) ≤ length then (value, none)
  else
    let start := startOf lr offset
    if (lr : ℤ) ≤ start then ([], none)
    else
      let ret := value.drop start.toNat
      if 0 ≤ length ∧ length < lr - start then (ret.take length.toNat, some (start + length))
      else if length < 0 then
        if int32 (start - length) < lr then
          (if 0 ≤ lr + length - start then ret.take (lr + length - start).toNat else ret, some (lr + length))
        else ([], some start)
      else (ret, none)

def strTruncate (value : Text) (len : ℤ) : Text :=
  if len < 0 then value.take (value.length + len).toNat else value.take len.toNat

def strSubstring (value : Text) (offset length : ℤ) : Text :=
  let lr := value.length
  if offset = 0 ∧ (lr : ℤ) ≤ length then value
  else
    let start := startOf lr offset
    if (lr : ℤ) ≤ start then []
    else
      let value := value.drop start.toNat
      let lr : ℤ := lr - start
      if 0 ≤ length ∧ length < lr then strTruncate value length
      else if length < 0 then
        if int32 (-length) < lr then strTruncate value (lr + length) else []
      else value

end Telephony.Pbx
