import Telephony.Pbx.Template

/-!
# Substitution into a buffer

`pbx_substitute_variables_helper_full_location` replaces the brackets of a template, into a buffer
of the caller. The text of a bracket is copied to the buffer `var`; if it is a template itself, the
function calls itself and the result goes to the buffer `ltmp`; the value of a variable goes to the
buffer `workspace`.

A call notes its writes (`Output.writes`). `Tame` is a condition on the template and the
environment, by recursion on the calls that may be nested: it asks of the rounds that are reached
before the room is used up (`reached`) that the text of a bracket fits and that no part of a value
has a length that overflows. The writes stay in the buffers just if the template is tame
(`helperFullLocation_within_iff`).
-/

namespace Telephony.Pbx

open Lib List

/-! ## Writes -/

/-- The buffers of a call: that of the caller and three of its own.
Source: `cp2`, `var`, `ltmp`, `workspace` -/
inductive Buffer where
  | cp2 | var | ltmp | workspace
  deriving DecidableEq, Repr

structure Write where
  buffer : Buffer
  first : ℤ
  size : ℕ
  deriving DecidableEq, Repr

def Write.Within (count : ℕ) (w : Write) : Prop :=
  0 ≤ w.first ∧ w.first + w.size ≤ match w.buffer with
    | .cp2 => count + 1
    | _ => varBufSize

instance (count : ℕ) (w : Write) : Decidable (w.Within count) := by
  unfold Write.Within
  infer_instance

/-- In the caller the buffer of a nested call is `ltmp`; the other buffers are of that call, and of
the same size. -/
def Write.nested (w : Write) : Write := if w.buffer = .cp2 then { w with buffer := .ltmp } else w

/-- The write of a copy of a string with at most `size` bytes. Without room for the zero the pointer
is moved back before the zero is written. -/
def copyString (buffer : Buffer) (first : ℤ) (src : Text) (size : ℕ) : Write :=
  if size = 0 then ⟨buffer, first - 1, 1⟩ else ⟨buffer, first, min (src.length + 1) size⟩

/-! ## The environment -/

/-- Source: `ast_yyparse`, `struct val` -/
inductive ExprResult where
  | none
  | number (text : Text)
  | string (text : Option Text)
  deriving DecidableEq, Repr

/-- The values of variables, functions and expressions for a channel or a list of variables.
Source: `pbx_retrieve_variable`, `ast_func_read`, `ast_expr` -/
structure Env where
  retrieve : Text → Option Text
  funcRead : Text → Option Text
  expr : Text → ExprResult

/-- The location that is given explicitly; a priority of 0 is none.
Source: `context`, `exten`, `pri` -/
structure Location where
  context : Option Text
  exten : Option Text
  pri : ℤ

def Location.none : Location := ⟨.none, .none, 0⟩

/-- Source: `snprintf (workspace, VAR_BUF_SIZE, "%d", pri)` -/
def decimal (n : ℤ) : Text := (if n < 0 then ['-'] else []) ++ Nat.toDigits 10 n.natAbs

/-- Source: `pbx_substitute_variables_helper_full_location` (`Retrieve variable value`) -/
def Env.lookup (env : Env) (loc : Location) (name : Text) : Option Text :=
  if loc.exten.isSome ∧ name = ['E', 'X', 'T', 'E', 'N'] then loc.exten
  else if loc.context.isSome ∧ name = ['C', 'O', 'N', 'T', 'E', 'X', 'T'] then loc.context
  else if loc.pri ≠ 0 ∧ name = ['P', 'R', 'I', 'O', 'R', 'I', 'T', 'Y'] then some (decimal loc.pri)
  else env.retrieve name

/-- The values that a call with an explicit location finds. -/
def Env.located (env : Env) (loc : Location) : Env := { env with retrieve := env.lookup loc }

def Env.value (env : Env) (v : VariableName) : Option Text :=
  if v.isfunc then env.funcRead v.name else env.retrieve v.name

/-! ## One call -/

/-- Where a call is: the bytes before `cp2` (`none` for a zero), the room that is left, and the
writes.
Source: `cp2`, `count` -/
structure Output where
  cells : List (Option Char)
  count : ℕ
  writes : List Write

def Output.text (s : Output) : Text := (s.cells.takeWhile Option.isSome).filterMap id

namespace Output

def log (s : Output) (writes : List Write) : Output := { s with writes := s.writes ++ writes }

/-- Source: `memcpy (cp2, …)`, `*cp2 = 0` -/
def put (s : Output) (t : Text) : Output :=
  let t := t.take s.count
  ⟨s.cells ++ t.map some, s.count - t.length,
    s.writes ++ [⟨.cp2, s.cells.length, t.length⟩, ⟨.cp2, s.cells.length + t.length, 1⟩]⟩

/-- The literal text of a piece. A negative length is not limited, and a huge size for `memcpy`.
Source: `if (pos)` -/
def putLiteral (s : Output) (p : Piece) : Output :=
  if p.pos = 0 then s
  else if p.pos < 0 then s.log [⟨.cp2, s.cells.length, (p.pos % 2 ^ 64).toNat⟩]
  else s.put (p.literal.take p.pos.toNat)

/-- Behind the value of an expression, if it is not empty.
Source: `if (length)` -/
def ending (s : Output) (length : ℕ) : List Write :=
  if length = 0 then [] else [⟨.cp2, s.cells.length + length, 1⟩]

/-- If there is no room for the zero, a string is copied without its last character, and a number
gets a zero in place of it; without any room a string puts its zero over the character before.
Source: `ast_expr` -/
def putExpr (s : Output) : ExprResult → Output
  | .none =>
    if 1 < s.count then ⟨s.cells ++ [some '0'], s.count - 1, s.writes ++ ⟨.cp2, s.cells.length, 2⟩ :: s.ending 1⟩
    else s
  | .number t =>
    let length := min t.length s.count
    let cells :=
      if t.length < s.count then t.map some
      else (t.take (length - 1)).map some ++ replicate (min length 1) none
    ⟨s.cells ++ cells, s.count - length,
      s.writes ++ ⟨.cp2, s.cells.length, min (t.length + 1) s.count⟩ :: s.ending length⟩
  | .string none => s.log [⟨.cp2, s.cells.length, 1⟩]
  | .string (some t) =>
    let copied := t.take (s.count - 1)
    ⟨if s.count = 0 then s.cells.dropLast ++ [none] else s.cells ++ copied.map some, s.count - copied.length,
      s.writes ++ copyString .cp2 s.cells.length t s.count :: s.ending copied.length⟩

/-- The value of a variable or a function. Who gives the value is told the size of `workspace` and
keeps to it.
Source: `pbx_substitute_variables_helper_full_location` (`if (nextvar)`) -/
def putVariable (env : Env) (loc : Location) (s : Output) (b : Bracket) (vars : Text) : Output :=
  let v := parseVariableName 0 vars
  let colon := v.colon.toList.map fun (i : ℕ) => Write.mk (if b.needsub then .ltmp else .var) i 1
  let s := s.log (⟨.workspace, 0, varBufSize⟩ :: colon)
  match (env.located loc).value v with
  | none => s
  | some value =>
    let value := value.take (varBufSize - 1)
    let part := substring value v.offset v.length
    let zero := part.2.toList.map fun i => Write.mk .workspace i 1
    (s.log (copyString .workspace 0 value varBufSize :: zero)).put part.1

end Output

section Call

variable (env : Env) (loc : Location) (nested : Text → Output)

/-- Source: `if (needsub)` -/
def bracketText (b : Bracket) : Text × List Write :=
  let copy := [copyString .var 0 b.source b.copySize]
  if b.needsub then ((nested b.text).text, copy ++ (nested b.text).writes.map Write.nested) else (b.text, copy)

/-- Source: `pbx_substitute_variables_helper_full_location` -/
def substitutePiece (s : Output) (p : Piece) : Output :=
  let s := s.putLiteral p
  match p.bracket with
  | none => s
  | some b =>
    let vars := bracketText nested b
    match b.kind with
    | .var => (s.log vars.2).putVariable env loc b vars.1
    | .expr => (s.log vars.2).putExpr (env.expr vars.1)

/-- Source: `while (!ast_strlen_zero (whereweare) && count)` -/
def substitutePieces : Output → List Piece → Output
  | s, [] => s
  | s, p :: ps => if s.count = 0 then s else substitutePieces (substitutePiece env loc nested s p) ps

end Call

def maxVariableSubRecurseDepth : ℕ := 15

/-- Source: `pbx_substitute_variables_helper_full_location`, `recurse_depth` -/
def helperFullLocation (env : Env) (loc : Location) : ℕ → Text → ℕ → Output
  | 0, _, count => ⟨[], count, [⟨.cp2, 0, 1⟩]⟩
  | depth + 1, t, count =>
    substitutePieces env loc (fun t => helperFullLocation env loc depth t (varBufSize - 1))
      ⟨[], count, [⟨.cp2, 0, 1⟩]⟩ (split t)

/-! ## What a round puts -/

inductive Value where
  | text (t : Text)
  | expr (r : ExprResult)
  deriving DecidableEq, Repr

structure Item where
  literal : Text
  value : Value
  deriving DecidableEq, Repr

/-- The value of a variable or a function of a channel, with the function that takes a part of it.
Source: `ast_func_read2`, `ast_str_retrieve_variable`, `ast_str_substring` -/
def Env.valueOf (env : Env) (part : Text → ℤ → ℤ → Text) (vars : Text) : Text :=
  let v := parseVariableName 0 vars
  match env.value v with
  | none => []
  | some value => part value v.offset v.length

def Piece.item (env : Env) (part : Text → ℤ → ℤ → Text) (vars : Bracket → Text) (p : Piece) : Item where
  literal := p.literal.take p.pos.toNat
  value :=
    match p.bracket with
    | none => .text []
    | some b =>
      match b.kind with
      | .var => .text (env.valueOf part (vars b))
      | .expr => .expr (env.expr (vars b))

def bufferPart (value : Text) (offset length : ℤ) : Text := (substring (value.take (varBufSize - 1)) offset length).1

/-- The room that is left behind an item. -/
def Item.left (room : ℕ) (i : Item) : ℕ :=
  let room := room - i.literal.length
  match i.value with
  | .text t => room - t.length
  | .expr .none => if 1 < room then room - 1 else room
  | .expr (.number t) => room - t.length
  | .expr (.string none) => room
  | .expr (.string (some t)) => room - min t.length (room - 1)

/-- The rounds that are reached before the room is used up. -/
def reached (item : Piece → Item) : ℕ → List Piece → List Piece
  | _, [] => []
  | room, p :: ps => if room = 0 then [] else p :: reached item ((item p).left room) ps

/-! ## Brackets of a template -/

lemma scanBracket_span (k : BracketKind) (b : ℕ) (t : Text) :
    (scanBracket k b t).span ≤ t.length ∧
      (0 < b → (scanBracket k b t).closed = true → 0 < (scanBracket k b t).span) := by
  fun_induction scanBracket k b t with
  | case1 t => simp
  | case2 b => simp
  | _ => simp_all [Scan.after]; try omega

/-- The length of the text of a bracket is that of a part of the template, or too large for an
`int`. -/
structure Bracket.Cut (b : Bracket) : Prop where
  le : b.len ≤ b.source.length
  neg : b.len < 0 → varBufSize ≤ b.source.length
  range : -2 ^ 31 ≤ b.len ∧ b.len < 2 ^ 31

lemma round_cut {t : Text} {b : Bracket} (h : (round t).1.bracket = some b) : b.Cut := by
  unfold round at h
  simp only at h
  split at h
  · cases h
  next k hk =>
  obtain rfl := Option.some.inj h
  obtain ⟨hspan, hcl⟩ := scanBracket_span k 1 (nextThing t).2.2
  obtain ⟨s, hs⟩ : ∃ s, s = scanBracket k 1 (nextThing t).2.2 := ⟨_, rfl⟩
  rw [← hs] at hspan hcl ⊢
  have hnn : (0 : ℤ) ≤ s.span - if s.closed = true then 1 else 0 := by
    split_ifs with hc
    · have hpos := hcl one_pos hc
      omega
    · omega
  obtain ⟨hsml, hlar⟩ := int32_of_nonneg hnn
  refine ⟨?_, fun hneg => ?_, int32_range _⟩
  · dsimp only
    omega
  · have hbig := hlar hneg
    unfold varBufSize
    dsimp only
    omega

lemma mem_rounds {n : ℕ} {t : Text} {p : Piece} (h : p ∈ rounds n t) : ∃ t', p = (round t').1 := by
  induction n generalizing t with
  | zero => cases h
  | succ n ih =>
    cases t with
    | nil => cases h
    | cons a t =>
      rcases mem_cons.mp h with rfl | htail
      · exact ⟨a :: t, rfl⟩
      · exact ih htail

/-! ## Where a part of a value is cut -/

/-- A negative length that makes the sum of the start and its absolute value too large for an
`int`. -/
def Overflows (value : Text) (offset length : ℤ) : Prop :=
  length < 0 ∧ startOf value.length offset < value.length ∧ intMax < startOf value.length offset - length

instance (value : Text) (offset length : ℤ) : Decidable (Overflows value offset length) := by
  unfold Overflows
  infer_instance

lemma startOf_nonneg (lr : ℕ) (offset : ℤ) : 0 ≤ startOf lr offset := by
  unfold startOf
  split_ifs <;> omega

lemma substring_zero_iff {value : Text} (offset : ℤ) {length : ℤ} (hval : value.length < varBufSize)
    (hlen : -2 ^ 31 ≤ length) :
    (∀ i ∈ (substring value offset length).2, 0 ≤ i ∧ i + 1 ≤ varBufSize) ↔ ¬ Overflows value offset length := by
  have hsta := startOf_nonneg value.length offset
  unfold varBufSize at hval ⊢
  unfold substring Overflows intMax
  by_cases hall : offset = 0 ∧ (value.length : ℤ) ≤ length
  · rw [if_pos hall]
    simp
    omega
  rw [if_neg hall]
  by_cases hbeh : (value.length : ℤ) ≤ startOf value.length offset
  · rw [if_pos hbeh]
    simp
    omega
  rw [if_neg hbeh]
  by_cases hsht : 0 ≤ length ∧ length < value.length - startOf value.length offset
  · rw [if_pos hsht]
    simp
    omega
  rw [if_neg hsht]
  by_cases hneg : length < 0
  · rw [if_pos hneg]
    by_cases hover : intMax < startOf value.length offset - length
    · -- the difference wraps around to a negative number, and the zero goes far below the workspace
      unfold intMax at hover
      have hwrap : int32 (startOf value.length offset - length) < value.length := by
        unfold int32
        rw [Int.bmod_def]
        omega
      rw [if_pos hwrap]
      simp
      omega
    unfold intMax at hover
    rw [int32_of_range (by omega) (by omega)]
    by_cases hleft : startOf value.length offset - length < value.length
    · rw [if_pos hleft]
      simp
      omega
    rw [if_neg hleft]
    simp
    omega
  · rw [if_neg hneg]
    simp
    omega

/-! ## What is tame -/

/-- The part of a value that is asked for overflows. -/
def Env.Overflows (env : Env) (vars : Text) : Prop :=
  let v := parseVariableName 0 vars
  ∃ value ∈ env.value v, Telephony.Pbx.Overflows (value.take (varBufSize - 1)) v.offset v.length

instance (env : Env) (vars : Text) : Decidable (env.Overflows vars) :=
  inferInstanceAs (Decidable (∃ value ∈ env.value _, _))

/-- The literal text of a round has a length that is not negative, its bracket fits into `var`, a
template inside is tame itself, and the part of a value does not overflow. -/
def Piece.Tame (env : Env) (vars : Bracket → Text) (deeper : Text → Prop) (p : Piece) : Prop :=
  0 ≤ p.pos ∧ ∀ b ∈ p.bracket, (0 ≤ b.len ∧ b.len < varBufSize) ∧ (b.needsub = true → deeper b.text) ∧
    (b.kind = .var → ¬env.Overflows (vars b))

instance (env : Env) (vars : Bracket → Text) (deeper : Text → Prop) [DecidablePred deeper] (p : Piece) :
    Decidable (p.Tame env vars deeper) :=
  inferInstanceAs (Decidable (_ ∧ ∀ b ∈ p.bracket, _))

/-- What the text of a bracket becomes in a call that may nest `depth` more. -/
def nestedVars (env : Env) (loc : Location) (depth : ℕ) (b : Bracket) : Text :=
  (bracketText (fun t => helperFullLocation env loc depth t (varBufSize - 1)) b).1

def Tame (env : Env) (loc : Location) : ℕ → Text → ℕ → Prop
  | 0, _, _ => True
  | depth + 1, t, count =>
    ∀ p ∈ reached (Piece.item (env.located loc) bufferPart (nestedVars env loc depth)) count (split t),
      p.Tame (env.located loc) (nestedVars env loc depth) fun t => Tame env loc depth t (varBufSize - 1)

instance decidableTame (env : Env) (loc : Location) : (depth : ℕ) → (t : Text) → (count : ℕ) →
    Decidable (Tame env loc depth t count)
  | 0, _, _ => .isTrue trivial
  | depth + 1, t, count =>
    have : DecidablePred fun t => Tame env loc depth t (varBufSize - 1) := fun t => decidableTame env loc depth t _
    inferInstanceAs (Decidable (∀ p ∈ reached _ count (split t), p.Tame _ _ _))

/-! ## Writes of a step -/

section Steps

variable {env : Env} {loc : Location} {nested : Text → Output} {deeper : Text → Prop} {count length i : ℕ}
  {s s' s'' : Output} {writes writes' : List Write} {p : Piece} {P Q : Prop}

def Inside (count : ℕ) (writes : List Write) : Prop := ∀ w ∈ writes, w.Within count

lemma inside_append : Inside count (writes ++ writes') ↔ Inside count writes ∧ Inside count writes' :=
  forall_mem_append

lemma inside_cons {w : Write} : Inside count (w :: writes) ↔ w.Within count ∧ Inside count writes :=
  forall_mem_cons

lemma within_nested (w : Write) : w.nested.Within count ↔ w.Within (varBufSize - 1) := by
  obtain ⟨buffer, first, size⟩ := w
  cases buffer <;> simp [Write.nested, Write.Within, varBufSize]

lemma inside_nested : Inside count (writes.map Write.nested) ↔ Inside (varBufSize - 1) writes := by
  unfold Inside
  rw [forall_mem_map]
  exact forall₂_congr fun w _ => within_nested w

/-- From `s` on the room of the caller is kept, and the writes are inside just if `P` holds. -/
structure Output.Adds (count : ℕ) (s s' : Output) (P : Prop) : Prop where
  room : s'.cells.length + s'.count = count
  writes : ∃ more, s'.writes = s.writes ++ more ∧ (Inside count more ↔ P)

namespace Output.Adds

lemma trans (h : s.Adds count s' P) (h' : s'.Adds count s'' Q) : s.Adds count s'' (P ∧ Q) := by
  obtain ⟨more, hmore, hP⟩ := h.writes
  obtain ⟨more', hmore', hQ⟩ := h'.writes
  exact ⟨h'.room, more ++ more', by rw [hmore', hmore, append_assoc], inside_append.trans (and_congr hP hQ)⟩

lemma congr (h : s.Adds count s' P) (hPQ : P ↔ Q) : s.Adds count s' Q :=
  ⟨h.room, h.writes.imp fun _ hmore => ⟨hmore.1, hmore.2.trans hPQ⟩⟩

lemma refl (hroom : s.cells.length + s.count = count) : s.Adds count s True :=
  ⟨hroom, [], (append_nil _).symm, iff_of_true (by simp [Inside]) trivial⟩

end Output.Adds

lemma within_cp2 {first size : ℕ} (h : first + size ≤ count + 1) : Write.Within count ⟨.cp2, first, size⟩ := by
  refine ⟨Int.natCast_nonneg first, ?_⟩
  dsimp only
  omega

lemma Output.put_room (s : Output) (t : Text) :
    (s.put t).cells.length + (s.put t).count = s.cells.length + s.count := by
  have hlen : (t.take s.count).length ≤ s.count := length_take_le _ _
  simp only [Output.put, length_append, length_map]
  omega

lemma Output.log_adds (hroom : s.cells.length + s.count = count) (h : Inside count writes ↔ P) :
    s.Adds count (s.log writes) P :=
  ⟨hroom, writes, rfl, h⟩

lemma Output.put_adds (hroom : s.cells.length + s.count = count) (t : Text) : s.Adds count (s.put t) True := by
  have hlen : (t.take s.count).length ≤ s.count := length_take_le _ _
  refine ⟨(s.put_room t).trans hroom, _, rfl, iff_of_true ?_ trivial⟩
  refine inside_cons.mpr ⟨within_cp2 (by omega), inside_cons.mpr ⟨?_, by simp [Inside]⟩⟩
  exact_mod_cast within_cp2 (by omega)

lemma Output.putExpr_room (hcells : 0 < s.cells.length + s.count) (r : ExprResult) :
    (s.putExpr r).cells.length + (s.putExpr r).count = s.cells.length + s.count := by
  cases r with
  | none =>
    simp only [Output.putExpr]
    split_ifs with hfits
    · simp only [length_append, length_singleton]
      omega
    · rfl
  | number t =>
    simp only [Output.putExpr]
    split_ifs
    · simp only [length_append, length_map]
      omega
    · simp only [length_append, length_map, length_take, length_replicate]
      omega
  | string text =>
    cases text with
    | none => rfl
    | some t =>
      have hcopied : (t.take (s.count - 1)).length ≤ s.count - 1 := length_take_le _ _
      simp only [Output.putExpr]
      split_ifs with hzero
      · simp only [length_append, length_dropLast, length_singleton]
        omega
      · simp only [length_append, length_map]
        omega

section

variable (hroom : s.cells.length + s.count = count)
include hroom

lemma Output.putLiteral_adds (hcnt : (count : ℤ) ≤ intMax) (hpos : -2 ^ 31 ≤ p.pos) :
    s.Adds count (s.putLiteral p) (0 ≤ p.pos) := by
  unfold intMax at hcnt
  unfold Output.putLiteral
  by_cases hneg : p.pos < 0
  · rw [if_neg (by omega), if_pos hneg]
    refine log_adds hroom (iff_of_false (fun hin => ?_) (by omega))
    have hwth := (hin _ mem_cons_self).2
    dsimp only at hwth
    omega
  have htrue : True ↔ 0 ≤ p.pos := iff_of_true trivial (by omega)
  by_cases hzero : p.pos = 0
  · rw [if_pos hzero]
    exact (Adds.refl hroom).congr htrue
  · rw [if_neg hzero, if_neg hneg]
    exact (put_adds hroom _).congr htrue

lemma Output.ending_inside (hlen : length ≤ s.count) : Inside count (s.ending length) := by
  unfold Output.ending
  split_ifs
  · simp [Inside]
  · refine inside_cons.mpr ⟨?_, by simp [Inside]⟩
    exact_mod_cast within_cp2 (by omega)

lemma Output.putExpr_adds (hcnt : 0 < count) (r : ExprResult) : s.Adds count (s.putExpr r) True := by
  have hcells := (Output.putExpr_room (s := s) (by omega) r).trans hroom
  cases r with
  | none =>
    simp only [Output.putExpr] at hcells ⊢
    split_ifs at hcells ⊢ with hfits
    · refine ⟨hcells, _, rfl, iff_of_true (inside_cons.mpr ⟨within_cp2 (by omega), ?_⟩) trivial⟩
      exact ending_inside hroom (by omega)
    · exact Adds.refl hroom
  | number t =>
    refine ⟨hcells, _, rfl, iff_of_true (inside_cons.mpr ⟨within_cp2 (by omega), ?_⟩) trivial⟩
    exact ending_inside hroom (by omega)
  | string text =>
    cases text with
    | none =>
      exact log_adds hroom (iff_of_true (inside_cons.mpr ⟨within_cp2 (by omega), by simp [Inside]⟩) trivial)
    | some t =>
      have hcopied : (t.take (s.count - 1)).length ≤ s.count - 1 := length_take_le _ _
      refine ⟨hcells, _, rfl, iff_of_true (inside_cons.mpr ⟨?_, ending_inside hroom (by omega)⟩) trivial⟩
      unfold copyString
      by_cases hzero : s.count = 0
      · rw [if_pos hzero]
        refine ⟨?_, ?_⟩
        · dsimp only
          omega
        · dsimp only
          omega
      · rw [if_neg hzero]
        exact within_cp2 (by omega)

end

lemma within_workspace {first : ℤ} {size : ℕ} (hfst : 0 ≤ first) (h : first + size ≤ varBufSize)
    {buffer : Buffer} (hbuf : buffer ≠ .cp2) : Write.Within count ⟨buffer, first, size⟩ := by
  refine ⟨hfst, ?_⟩
  cases buffer with
  | cp2 => exact absurd rfl hbuf
  | var => exact h
  | ltmp => exact h
  | workspace => exact h

lemma parseVariableName_colon {parens : ℤ} {t : Text} (h : (parseVariableName parens t).colon = some i) :
    i < t.length := by
  induction t generalizing parens i with
  | nil => cases h
  | cons c t ih =>
    have hcons : ∀ q f, ((parseVariableName q t).cons c f).colon = some i → i < (c :: t).length := by
      intro q f hq
      obtain ⟨j, hj, rfl⟩ := Option.map_eq_some_iff.mp hq
      exact Nat.succ_lt_succ (ih hj)
    unfold parseVariableName at h
    split_ifs at h with hopen hclose hcolon
    · exact hcons _ _ h
    · exact hcons _ _ h
    · obtain rfl := Option.some.inj h
      exact Nat.succ_pos _
    · exact hcons _ _ h

lemma scanInt_range {t t' : Text} {n : ℤ} (h : scanInt t = some (n, t')) : -2 ^ 31 ≤ n := by
  unfold scanInt at h
  simp only at h
  split_ifs at h <;> (obtain ⟨rfl, -⟩ := Prod.mk.inj (Option.some.inj h); exact (int32_range _).1)

lemma parseVariableName_length (parens : ℤ) (t : Text) : -2 ^ 31 ≤ (parseVariableName parens t).length := by
  have hscan : ∀ t, -2 ^ 31 ≤ (scanOffsetLength t).2 := by
    intro t
    unfold scanOffsetLength intMax
    split
    · simp
    split_ifs
    · split
      · simp
      · next hn => exact scanInt_range hn
    · simp
  induction t generalizing parens with
  | nil => simp [parseVariableName, intMax]
  | cons c t ih =>
    unfold parseVariableName
    split_ifs
    · exact ih _
    · exact ih _
    · exact hscan t
    · exact ih _

/-- Where the colon of a name is overwritten is a matter of the name, the rest one of the part of
the value. -/
lemma Output.putVariable_adds (hroom : s.cells.length + s.count = count) (b : Bracket) (vars : Text) :
    s.Adds count (s.putVariable env loc b vars)
      ((∀ i ∈ (parseVariableName 0 vars).colon, i < varBufSize) ∧ ¬(env.located loc).Overflows vars) := by
  obtain ⟨v, hv⟩ : ∃ v, v = parseVariableName 0 vars := ⟨_, rfl⟩
  have hname : s.Adds count (s.log (⟨.workspace, 0, varBufSize⟩ ::
      v.colon.toList.map fun (i : ℕ) => Write.mk (if b.needsub then .ltmp else .var) i 1))
      (∀ i ∈ v.colon, i < varBufSize) := by
    refine log_adds hroom (inside_cons.trans ((and_iff_right ?_).trans ?_))
    · exact within_workspace (by simp) (by simp) (by simp)
    · unfold Inside
      rw [forall_mem_map]
      refine forall_congr' fun i => ?_
      rw [Option.mem_toList]
      refine imp_congr_right fun _ => ?_
      cases b.needsub <;> simp only [Write.Within, reduceIte] <;> grind
  have hover : (env.located loc).Overflows vars ↔ ∃ value ∈ (env.located loc).value v,
      Telephony.Pbx.Overflows (value.take (varBufSize - 1)) v.offset v.length := by rw [hv]; rfl
  have hlength : -2 ^ 31 ≤ v.length := hv ▸ parseVariableName_length 0 vars
  unfold Output.putVariable
  rw [← hv, hover]
  cases hval : (env.located loc).value v with
  | none =>
    simp only [hval]
    exact hname.congr (by simp)
  | some value =>
    simp only [hval]
    have htake : (value.take (varBufSize - 1)).length < varBufSize := by
      rw [length_take]
      unfold varBufSize
      omega
    have hpart : Inside count (copyString .workspace 0 (value.take (varBufSize - 1)) varBufSize ::
        (substring (value.take (varBufSize - 1)) v.offset v.length).2.toList.map fun i => Write.mk .workspace i 1) ↔
        ¬Telephony.Pbx.Overflows (value.take (varBufSize - 1)) v.offset v.length := ?_
    · have hlog := hname.trans (log_adds hname.room hpart)
      exact (hlog.trans (put_adds hlog.room _)).congr (by simp)
    refine inside_cons.trans ((and_iff_right ?_).trans ?_)
    · unfold copyString
      rw [if_neg (by decide)]
      exact within_workspace (Int.le_refl 0) (by omega) (by simp)
    · refine Iff.trans ?_ (substring_zero_iff v.offset htake hlength)
      unfold Inside
      rw [forall_mem_map]
      exact forall_congr' fun i => by rw [Option.mem_toList]; rfl

lemma Bracket.Cut.copy_iff {b : Bracket} (h : b.Cut) :
    (copyString .var 0 b.source b.copySize).Within count ↔ 0 ≤ b.len ∧ b.len < varBufSize := by
  have hle := h.le
  have hneg := h.neg
  have hrng := h.range
  unfold copyString
  unfold Bracket.copySize varBufSize at *
  by_cases hzero : ((b.len + 1) % 2 ^ 64).toNat = 0
  · rw [if_pos hzero]
    refine iff_of_false (fun hwth => ?_) (by omega)
    have hfst := hwth.1
    dsimp only at hfst
    omega
  rw [if_neg hzero]
  unfold Write.Within varBufSize
  dsimp only
  omega

lemma Output.text_length (s : Output) : s.text.length ≤ s.cells.length :=
  le_trans (length_filterMap_le _ _) (takeWhile_sublist _).length_le

/-- What is known of nested calls: they keep to the room of `ltmp`, and their writes are inside just
if `deeper` holds. -/
def Nests (nested : Text → Output) (deeper : Text → Prop) : Prop :=
  ∀ t, (nested t).cells.length + (nested t).count = varBufSize - 1 ∧ (Inside (varBufSize - 1) (nested t).writes ↔ deeper t)

section Bracket

variable {b : Bracket} (hcut : b.Cut) (hnst : Nests nested deeper)

include hcut hnst

lemma bracketText_inside :
    Inside count (bracketText nested b).2 ↔
      (0 ≤ b.len ∧ b.len < varBufSize) ∧ (b.needsub = true → deeper b.text) := by
  have hcopy : Inside count [copyString .var 0 b.source b.copySize] ↔ 0 ≤ b.len ∧ b.len < varBufSize := by
    rw [inside_cons, hcut.copy_iff]
    simp [Inside]
  unfold bracketText
  cases hsub : b.needsub with
  | false => simp [hcopy]
  | true =>
    rw [if_pos rfl, inside_append, hcopy, inside_nested, (hnst b.text).2]
    simp

omit hcut in
lemma bracketText_length (htame : 0 ≤ b.len ∧ b.len < varBufSize) :
    (bracketText nested b).1.length < varBufSize := by
  unfold bracketText
  split_ifs
  · have hroom := (hnst b.text).1
    have hlen := (nested b.text).text_length
    unfold varBufSize at hroom ⊢
    dsimp only
    omega
  · have hlen : b.text.length ≤ b.copySize - 1 := length_take_le _ _
    unfold Bracket.copySize varBufSize at *
    dsimp only
    omega

end Bracket

lemma substitutePiece_adds (hroom : s.cells.length + s.count = count) (hcnt : (count : ℤ) ≤ intMax)
    (hpos : 0 < count) (hlit : -2 ^ 31 ≤ p.pos) (hcut : ∀ b, p.bracket = some b → b.Cut) (hnst : Nests nested deeper) :
    s.Adds count (substitutePiece env loc nested s p)
      (p.Tame (env.located loc) (fun b => (bracketText nested b).1) deeper) := by
  have hput := Output.putLiteral_adds hroom hcnt hlit
  unfold substitutePiece Piece.Tame
  cases hb : p.bracket with
  | none => exact hput.congr (by simp)
  | some b =>
    have hlog := hput.trans (Output.log_adds hput.room (bracketText_inside (hcut b hb) hnst))
    have hcolon : 0 ≤ b.len ∧ b.len < varBufSize →
        ∀ i ∈ (parseVariableName 0 (bracketText nested b).1).colon, i < varBufSize := fun htame i hi =>
      Nat.lt_trans (parseVariableName_colon hi) (bracketText_length hnst htame)
    simp only [Option.mem_some_iff, forall_eq']
    cases hkind : b.kind with
    | var =>
      refine (hlog.trans (Output.putVariable_adds hlog.room b _)).congr ?_
      simp only [forall_const]
      tauto
    | expr => exact (hlog.trans (Output.putExpr_adds hlog.room hpos _)).congr (by simp)

lemma Output.putExpr_count (s : Output) (r : ExprResult) :
    (s.putExpr r).count = Item.left s.count ⟨[], .expr r⟩ := by
  cases r with
  | none =>
    simp only [Output.putExpr, Item.left, length_nil, Nat.sub_zero]
    split_ifs <;> rfl
  | number t =>
    simp only [Output.putExpr, Item.left, length_nil]
    omega
  | string text =>
    cases text with
    | none => rfl
    | some t => simp [Output.putExpr, Item.left, Nat.min_comm]

lemma Output.put_count (s : Output) (t : Text) : (s.put t).count = s.count - t.length := by
  simp only [Output.put, length_take]
  omega

lemma substitutePiece_count (s : Output) (p : Piece) :
    (substitutePiece env loc nested s p).count =
      (p.item (env.located loc) bufferPart fun b => (bracketText nested b).1).left s.count := by
  have hlit : (s.putLiteral p).count = s.count - (p.literal.take p.pos.toNat).length := by
    unfold Output.putLiteral
    split_ifs with hzero hneg
    · simp [hzero]
    · simp [Output.log, Int.toNat_of_nonpos (by omega : p.pos ≤ 0)]
    · exact Output.put_count _ _
  unfold substitutePiece Piece.item Item.left
  cases hb : p.bracket with
  | none => simpa using hlit
  | some b =>
    simp only
    cases b.kind with
    | var =>
      simp only [Output.putVariable, Env.valueOf]
      cases (env.located loc).value (parseVariableName 0 (bracketText nested b).1) with
      | none => simpa [Output.log] using hlit
      | some value =>
        simp only [Output.put_count]
        simp [Output.log, hlit, bufferPart]
    | expr =>
      simp only
      rw [Output.putExpr_count, Item.left]
      simp [Output.log, hlit, Env.located]

variable (env loc) in
/-- Induction on the rounds. -/
lemma substitutePieces_adds (hroom : s.cells.length + s.count = count) (hcnt : (count : ℤ) ≤ intMax)
    (ps : List Piece) (hps : ∀ p ∈ ps, -2 ^ 31 ≤ p.pos ∧ ∀ b, p.bracket = some b → b.Cut) (hnst : Nests nested deeper) :
    s.Adds count (substitutePieces env loc nested s ps)
      (∀ p ∈ reached (Piece.item (env.located loc) bufferPart fun b => (bracketText nested b).1) s.count ps,
        p.Tame (env.located loc) (fun b => (bracketText nested b).1) deeper) := by
  induction ps generalizing s with
  | nil => exact (Output.Adds.refl hroom).congr (by simp [reached])
  | cons p ps ih =>
    unfold substitutePieces reached
    split_ifs with hzero
    · exact (Output.Adds.refl hroom).congr (by simp)
    · obtain ⟨hp, hps'⟩ := forall_mem_cons.mp hps
      have hfst : s.Adds count (substitutePiece env loc nested s p) _ :=
        substitutePiece_adds hroom hcnt (by omega) hp.1 hp.2 hnst
      rw [forall_mem_cons, ← substitutePiece_count]
      exact hfst.trans (ih hfst.room hps')

end Steps

lemma round_pos (t : Text) : (round t).1.pos = int32 (nextThing t).1.length := by
  unfold round
  cases hkind : (nextThing t).2.1 with
  | none => simp [hkind]
  | some k => simp [hkind]

/-- Induction on the calls that may still be nested. -/
lemma helperFullLocation_inside (env : Env) (loc : Location) (depth : ℕ) (t : Text) {count : ℕ}
    (hcnt : (count : ℤ) ≤ intMax) :
    (helperFullLocation env loc depth t count).cells.length + (helperFullLocation env loc depth t count).count = count ∧
      (Inside count (helperFullLocation env loc depth t count).writes ↔ Tame env loc depth t count) := by
  have hsta : ∀ count, Inside count [⟨.cp2, 0, 1⟩] := fun count =>
    inside_cons.mpr ⟨@within_cp2 count 0 1 (by omega), by simp [Inside]⟩
  induction depth generalizing t count with
  | zero => exact ⟨zero_add count, iff_of_true (hsta count) trivial⟩
  | succ depth ih =>
    obtain ⟨hroom, more, hmore, hin⟩ := substitutePieces_adds env loc
      (s := ⟨[], count, [⟨.cp2, 0, 1⟩]⟩) (zero_add count) hcnt (split t)
      (fun p hp => by
        obtain ⟨t', rfl⟩ := mem_rounds hp
        exact ⟨round_pos t' ▸ (int32_range _).1, fun b hb => round_cut hb⟩)
      (fun t => @ih t (varBufSize - 1) (by decide))
    refine ⟨hroom, ?_⟩
    rw [helperFullLocation, hmore, inside_append, hin]
    exact and_iff_right (hsta count)

/-- **The substitution stays in its buffers just if the template is tame**: no literal text that is
reached is so long that its length becomes negative, the text of every bracket is shorter than
`var`, and no part of a value has a negative length that overflows. -/
theorem helperFullLocation_within_iff (env : Env) (loc : Location) (depth : ℕ) (t : Text) (count : ℕ)
    (hcount : (count : ℤ) ≤ intMax) :
    (∀ w ∈ (helperFullLocation env loc depth t count).writes, w.Within count) ↔ Tame env loc depth t count :=
  (helperFullLocation_inside env loc depth t hcount).2

/-- An ordinary template with a nested bracket: the substitution stays in its buffers. -/
theorem helperFullLocation_within_iff_nested :
    let env : Env := ⟨fun t => if t = ['B'] then some ['A'] else if t = ['A'] then some ['x', 'y', 'z'] else none,
      fun _ => none, fun _ => .none⟩
    let s := helperFullLocation env .none maxVariableSubRecurseDepth
      ['a', '$', '{', '$', '{', 'B', '}', ':', '1', '}'] 10
    s.text = ['a', 'y', 'z'] ∧ ∀ w ∈ s.writes, w.Within 10 :=
  ⟨by decide, (helperFullLocation_within_iff _ _ _ _ 10 (by decide)).mpr (by decide)⟩

/-- The length `-2147483648` makes the difference in `substring` wrap around. And the text of a
bracket with 4096 characters is copied to `var`, which has room for 4095. -/
theorem helperFullLocation_outside :
    let env : Env := ⟨fun _ => some ['x', 'y', 'z'], fun _ => none, fun _ => .none⟩
    (∃ w ∈ (helperFullLocation env .none maxVariableSubRecurseDepth
        ['$', '{', 'A', ':', '0', ':', '-', '2', '1', '4', '7', '4', '8', '3', '6', '4', '8', '}'] 10).writes,
      w = ⟨.workspace, 3 - 2 ^ 31, 1⟩ ∧ ¬ w.Within 10) ∧
    (∃ w ∈ (helperFullLocation env .none maxVariableSubRecurseDepth
        (['$', '{'] ++ replicate 4096 'A' ++ ['}']) 10).writes,
      w = ⟨.var, 0, 4097⟩ ∧ ¬ w.Within 10) := by
  refine ⟨⟨_, ?_, rfl, by decide⟩, ⟨_, ?_, rfl, by decide⟩⟩
  · decide
  · decide +kernel

end Telephony.Pbx
