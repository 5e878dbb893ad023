import Mathlib.Data.List.DropRight
import Telephony.Lib.Runs
import Telephony.Lib.Loop
import Telephony.Lib.Memory
import Telephony.Lib.Word

/-!
# Dynamic strings

`main/strings.c` and `include/asterisk/strings.h` keep a text with a zero behind it in a buffer that
grows on demand. `size_t` and `ssize_t` have 64 bits, `int` has 32. An object is smaller than 2^63
bytes. The bytes of a buffer that were never written are arbitrary.
-/

namespace Telephony.Strings

open Lib

/-! ## Data model -/

/-- Source: `DS_MALLOC`, `DS_ALLOCA`, `DS_STATIC`; all others are thread storage -/
inductive Storage
  | malloc
  | alloca
  | staticVar
  | thread
  deriving DecidableEq, Repr

/-- Source: `struct ast_str`. `str` are the bytes from the start of the buffer on. -/
structure AstStr where
  len : ℕ
  used : ℕ
  ts : Storage
  str : Memory

/-- The answers of the allocator during a call, by the number of bytes, and what is in new memory.
No object has 2^63 bytes. -/
structure Allocator where
  grant : ℕ → Bool
  fresh : Memory
  limit : ∀ n, grant n = true → n < 2 ^ 63

structure Touch where
  start : ℤ
  count : ℕ
  len : ℕ
  deriving DecidableEq, Repr

structure Exec where
  buf : AstStr
  touched : List Touch
  failed : Bool

def Exec.write (e : Exec) (start : ℤ) (bytes : List UInt8) : Exec :=
  { e with
    buf := { e.buf with str := e.buf.str.write (toSize start) bytes }
    touched := e.touched ++ [⟨start, bytes.length, e.buf.len⟩] }

def Exec.setUsed (e : Exec) (used : ℕ) : Exec := { e with buf := { e.buf with used := used } }

def AstStr.enter (s : AstStr) : Exec := ⟨s, [], false⟩

/-! ## Room -/

/-- Source: `sizeof(struct ast_str)` -/
def sizeofAstStr : ℕ := 24

/-- Source: `_ast_str_make_space` (the call of `__ast_realloc`) -/
def AstStr.realloc (s : AstStr) (a : Allocator) (newLen : ℕ) : AstStr :=
  { s with len := newLen, str := fun x => if x < s.len then s.str x else a.fresh x }

/-- Source: `_ast_str_make_space` -/
def Exec.makeSpace (e : Exec) (a : Allocator) (newLen : ℕ) : Bool × Exec :=
  if newLen ≤ e.buf.len then (true, e)
  else if e.buf.ts = .alloca ∨ e.buf.ts = .staticVar then (false, { e with failed := true })
  else if a.grant ((newLen + sizeofAstStr) % 2 ^ 64) then (true, { e with buf := e.buf.realloc a newLen })
  else (false, { e with failed := true })

/-! ## Formatted text -/

/-- What the formatting of a text into `size` bytes returns, and the string with what was written. A
text whose length is no `int` is an error. -/
def Exec.vsnprintf (e : Exec) (offset : ℤ) (size : ℕ) (text : List UInt8) : ℤ × Exec :=
  if 2 ^ 31 ≤ text.length then (-1, e)
  else if size = 0 then (text.length, e)
  else (text.length, e.write offset (text.take (size - 1) ++ [0]))

structure Formatted where
  exec : Exec
  res : ℤ
  added : ℤ

/-- Source: `__ast_str_helper` ("Reallocate the buffer and") -/
def wantedSize (maxLen need : ℤ) : ℤ :=
  if maxLen = 0 then int32 (need + (16 + need.tdiv 4)) else if maxLen < need then int32 maxLen else need

/-- Source: `__ast_str_helper` ("do … while (1)") -/
def helperRound (a : Allocator) (offset maxLen : ℤ) (text : List UInt8) (e : Exec) : Option (Exec ⊕ Formatted) :=
  let printed := e.vsnprintf offset (sizeSub e.buf.len (toSize offset)) text
  if printed.1 < 0 then some (.inr ⟨printed.2, -1, 0⟩)
  else
    let need := int32 (offset + printed.1 + 1)
    if toSize need ≤ printed.2.buf.len ∨ (maxLen ≠ 0 ∧ toSize maxLen ≤ printed.2.buf.len) then
      some (.inr ⟨printed.2, printed.1, printed.1⟩)
    else
      let made := printed.2.makeSpace a (toSize (wantedSize maxLen need))
      if made.1 then some (.inl made.2) else some (.inr ⟨made.2, -1, printed.1⟩)

/-- Source: `__ast_str_helper` ("Update space used", and what follows) -/
def Formatted.close (f : Formatted) (offset : ℤ) : Exec :=
  let total := toSize (int32 (offset + f.added))
  let used := if f.exec.buf.len ≤ total then sizeSub f.exec.buf.len 1 else total
  (f.exec.setUsed used).write used [0]

def strHelper (a : Allocator) (append : Bool) (maxLen : ℤ) (text : List UInt8) (s : AstStr) : Option Exec :=
  let offset := if append = true ∧ s.len ≠ 0 then toInt s.used else 0
  let maxLen := if maxLen < 0 then toSsize s.len else maxLen
  (iterate (helperRound a offset maxLen text) 2 s.enter).map fun f => f.close offset

/-! ## Parts of a text -/

/-- Source: the variables of `__ast_str_helper2`. `ptr` is where the next byte goes. -/
structure Copier where
  exec : Exec
  ptr : ℕ
  maxLen : ℤ

/-- Source: `__ast_str_helper2` ("*ptr++ = …") -/
def Copier.put (k : Copier) (c : UInt8) : Copier :=
  { exec := (k.exec.write k.ptr [c]).setUsed (k.exec.buf.used + 1)
    ptr := k.ptr + 1
    maxLen := k.maxLen - 1 }

def special (c : UInt8) : Bool := c = 92 ∨ c = 44

def Copier.putEscaped (k : Copier) (escapecommas : Bool) (c : UInt8) : Copier :=
  if escapecommas = true ∧ special c = true then (k.put 92).put c else k.put c

/-- Source: `__ast_str_helper2` -/
def Copier.Tight (k : Copier) (dynamic escapecommas : Bool) : Prop :=
  k.exec.buf.len ≤ k.ptr + 3 ∨ dynamic = true ∧ (k.maxLen = 0 ∨ escapecommas = true ∧ k.maxLen - 1 = 0)

instance (k : Copier) (dynamic escapecommas : Bool) : Decidable (k.Tight dynamic escapecommas) :=
  inferInstanceAs (Decidable (_ ∨ _))

/-- The end of the list is the zero behind the source.
Source: `__ast_str_helper2` ("while (*src && maxsrc") -/
def copyLoop (a : Allocator) (dynamic escapecommas : Bool) : List UInt8 → ℕ → Copier → Copier
  | [], _, k => k
  | c :: src, maxsrc, k =>
    if c ≠ 0 ∧ maxsrc ≠ 0 ∧ k.maxLen ≠ 0 ∧ (escapecommas = false ∨ k.maxLen - 1 ≠ 0) then
      let next := k.putEscaped escapecommas c
      if next.Tight dynamic escapecommas then
        let made := next.exec.makeSpace a (next.exec.buf.len * 2 % 2 ^ 64)
        if made.1 then
          copyLoop a dynamic escapecommas src (maxsrc - 1) ⟨made.2, next.ptr, toSsize next.exec.buf.len⟩
        else { next with exec := made.2 }
      else copyLoop a dynamic escapecommas src (maxsrc - 1) next
    else k

def strHelper2 (a : Allocator) (append escapecommas : Bool) (maxLen : ℤ) (src : List UInt8) (maxsrc : ℕ)
    (s : AstStr) : Exec :=
  let start : Copier := ⟨s.enter, if append then s.used else 0, if maxLen < 1 then toSsize s.len else maxLen⟩
  let k := copyLoop a (maxLen = 0) escapecommas src maxsrc start
  k.exec.write (if k.maxLen = 0 then k.ptr - 1 else k.ptr) [0]

/-! ## Other calls -/

def reset (s : AstStr) : Exec :=
  if s.len ≠ 0 then (s.enter.setUsed 0).write 0 [0] else s.enter.setUsed 0

def truncate (len : ℤ) (s : AstStr) : Exec :=
  let used :=
    if len < 0 then if s.used ≤ toSize (-len) then 0 else (s.used + toSize len) % 2 ^ 64
    else toSize len
  (s.enter.setUsed used).write used [0]

/-- Source: `ast_str_trim_blanks` ("while (buf->__AST_STR_USED && …)") -/
def trimLoop : ℕ → Exec → Exec
  | 0, e => e
  | used + 1, e => if e.buf.str used < 33 then trimLoop used ((e.setUsed used).write used [0]) else e

def trimBlanks (s : AstStr) : Exec := trimLoop s.used s.enter

/-! ## Sequences of calls -/

/-- Source: `ast_str_set`, `ast_str_append` (`format`, with the text that the format gives);
`ast_str_set_substr`, `ast_str_append_substr`, `ast_str_set_escapecommas`,
`ast_str_append_escapecommas` (`substr`); `ast_str_reset`; `ast_str_truncate`;
`ast_str_trim_blanks` -/
inductive Op
  | format (append : Bool) (maxLen : ℤ) (text : List UInt8)
  | substr (append escapecommas : Bool) (maxLen : ℤ) (src : List UInt8) (maxsrc : ℕ)
  | reset
  | truncate (len : ℤ)
  | trimBlanks

structure Call where
  op : Op
  alloc : Allocator

def step (s : AstStr) (call : Call) : Option Exec :=
  match call.op with
  | .format append maxLen text => strHelper call.alloc append maxLen text s
  | .substr append escapecommas maxLen src maxsrc => some (strHelper2 call.alloc append escapecommas maxLen src maxsrc s)
  | .reset => some (reset s)
  | .truncate len => some (truncate len s)
  | .trimBlanks => some (trimBlanks s)

def next (s : AstStr) (call : Call) : Option AstStr := (step s call).map Exec.buf

/-! ## Contents -/

def AstStr.contents (s : AstStr) : Option (List UInt8) := s.str.readString s.len 0

def Touch.Inside (w : Touch) : Prop := 0 ≤ w.start ∧ w.start + w.count ≤ w.len

instance (w : Touch) : Decidable w.Inside := inferInstanceAs (Decidable (_ ∧ _))

structure AstStr.Holds (s : AstStr) (text : List UInt8) : Prop where
  spells : s.str.Spells 0 text
  nonzero : 0 ∉ text
  used : s.used = text.length
  room : text.length < s.len
  small : s.len + sizeofAstStr < 2 ^ 63

def kept (append : Bool) (t : List UInt8) : List UInt8 := if append then t else []

def piece (escapecommas : Bool) (c : UInt8) : List UInt8 :=
  if escapecommas = true ∧ special c = true then [92, c] else [c]

def escape (escapecommas : Bool) (src : List UInt8) : List UInt8 := src.flatMap (piece escapecommas)

/-- The part of a source that is meant: up to a zero, and `maxsrc` bytes at most. -/
def portion (src : List UInt8) (maxsrc : ℕ) : List UInt8 := (src.takeWhile (· ≠ 0)).take maxsrc

def Op.intended (t : List UInt8) : Op → List UInt8
  | .format append _ text => kept append t ++ text
  | .substr append escapecommas _ src maxsrc => kept append t ++ escape escapecommas (portion src maxsrc)
  | .reset => []
  | .truncate len => if len < 0 then t.take (t.length - len.natAbs) else t.take len.toNat
  | .trimBlanks => t.rdropWhile (· < 33)

/-- The limit for the buffer that a call is given: 0 for none, negative for the size that it has.
The calls without a limit do not grow the buffer. -/
def Op.maxLen : Op → ℤ
  | .format _ maxLen _ => maxLen
  | .substr _ _ maxLen _ _ => maxLen
  | _ => -1

/-- Source: `_ast_str_create`, `ast_str_alloca` -/
def AstStr.create (len : ℕ) (ts : Storage) (fresh : Memory) : AstStr := ⟨len, 0, ts, fresh.write 0 [0]⟩

lemma AstStr.create_holds {len : ℕ} (ts : Storage) (fresh : Memory) (hpos : 0 < len)
    (hsml : len + sizeofAstStr < 2 ^ 63) : (AstStr.create len ts fresh).Holds [] where
  spells := Memory.spells_write
  nonzero := List.not_mem_nil
  used := rfl
  room := hpos
  small := hsml

lemma AstStr.Holds.contents {s : AstStr} {text : List UInt8} (h : s.Holds text) : s.contents = some text :=
  Memory.readString_of_spells h.nonzero h.spells h.room

end Telephony.Strings
