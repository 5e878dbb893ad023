import Mathlib.Data.List.DropRight
import Telephony.Http.Connection
import Telephony.Lib.Loop
import Telephony.Lib.Memory
import Telephony.Lib.Word

/-!
# The body of a request

`main/http.c` reads the body of a request into a buffer that grows (`ast_http_get_contents`) or
throws it away (`ast_http_body_discard`). A chunked body is a sequence of chunks, each behind a line
with its size, then a line with the size zero and further lines up to a blank one.

An `int` has 32 bits. What the bytes of a local array hold before anything is read into them is an
input of the model (`stale`), and so is whether memory is given (`allocs`). A run also records the
lines and chunks it took (`Body`) and the parts of the buffer it used (`Access`).
-/

namespace Telephony.Http

open Lib

/-! ## Lines with a size -/

def maxHttpLineLength : ℕ := 4096

def maxContentLength : ℤ := 40960

def cString (bytes : List UInt8) : List UInt8 := bytes.takeWhile (· ≠ 0)

/-- Source: `chunked_atoh` -/
def hexDigit (c : UInt8) : Option ℕ :=
  if 48 ≤ c ∧ c ≤ 57 then some (c.toNat - 48)
  else if 97 ≤ c ∧ c ≤ 102 then some (10 + c.toNat - 97)
  else if 65 ≤ c ∧ c ≤ 70 then some (10 + c.toNat - 65)
  else none

/-- Source: `chunked_atoh` ("We have a chunk-extension") -/
def skipExtension (value : ℤ) (s : List UInt8) : ℤ := if 13 ∈ s then value else -1

/-- Source: `chunked_atoh` ("while (len--)") -/
def atohLoop (value : ℤ) : List UInt8 → ℤ
  | [] => -1
  | c :: s =>
    if c = 13 then value
    else if c = 59 then skipExtension value s
    else
      match hexDigit c with
      | some digit => atohLoop (int32 (value * 16) + digit) s
      | none => -1

def chunkedAtoh (s : List UInt8) : ℤ :=
  match s with
  | [] => -1
  | c :: _ => if c < 48 ∨ 128 ≤ c then -1 else atohLoop 0 s

def chunkLength (line : List UInt8) : Option ℕ :=
  if line = [] then none
  else if chunkedAtoh (cString line) < 0 then none
  else some (chunkedAtoh (cString line)).toNat

structure SizeLine where
  line : List UInt8
  length : Option ℕ
  conn : Conn
  deriving DecidableEq, Repr

def bodyGetChunkLength (c : Conn) : SizeLine :=
  ⟨(c.gets maxHttpLineLength).1, chunkLength (c.gets maxHttpLineLength).1, (c.gets maxHttpLineLength).2⟩

/-! ## Data, and what is behind it -/

structure Access where
  offset : ℤ
  count : ℤ
  bufsize : ℤ
  deriving DecidableEq, Repr

structure Transfer where
  done : Bool
  data : List UInt8
  accesses : List Access
  conn : Conn
  deriving DecidableEq, Repr

def bodyReadContents (offset bufsize : ℤ) (length : ℕ) (c : Conn) : Transfer :=
  if length = 0 then ⟨true, [], [], c⟩
  else
    match c.read length with
    | (some (b :: bytes), c) =>
      let rest := bodyReadContents (offset + (b :: bytes).length) bufsize (length - (b :: bytes).length) c
      { rest with data := b :: bytes ++ rest.data, accesses := ⟨offset, length, bufsize⟩ :: rest.accesses }
    | (_, c) => ⟨false, [], [⟨offset, length, bufsize⟩], c⟩
termination_by length
decreasing_by
  simp only [List.length_cons]
  omega

/-- What was read where a line end has to be. The result of the read is compared as an unsigned
number, so that an error passes for a complete read, and the array is looked at as it is. -/
def bodyCheckChunkSync (stale : List UInt8) (c : Conn) : Option (List UInt8) × Conn :=
  match c.read 2 with
  | (some bytes, c) => (if bytes = [13, 10] then some bytes else none, c)
  | (none, c) => (if stale = [13, 10] then some [] else none, c)

def trimBlanks (s : List UInt8) : List UInt8 := s.rdropWhile (· < 33)

def bodyDiscardChunkTrailerHeaders (c : Conn) : Option (List (List UInt8)) × Conn :=
  if _h : (c.gets maxHttpLineLength).1 = [] then (none, (c.gets maxHttpLineLength).2)
  else if trimBlanks (cString (c.gets maxHttpLineLength).1) = [] then
    (some [(c.gets maxHttpLineLength).1], (c.gets maxHttpLineLength).2)
  else
    let rest := bodyDiscardChunkTrailerHeaders (c.gets maxHttpLineLength).2
    (rest.1.map ((c.gets maxHttpLineLength).1 :: ·), rest.2)
termination_by c.bytes.length
decreasing_by exact Conn.gets_bytes_length_lt c _ _h

/-! ## Requests and bodies -/

/-- Source: `struct http_worker_private_data` -/
structure Request where
  hasBody : Bool
  bodyRead : Bool
  closeOnCompletion : Bool
  bodyLength : ℤ
  deriving DecidableEq, Repr

/-- A chunk as it was read: the line with its size, its data, and what was read behind it. -/
structure Chunk where
  line : List UInt8
  data : List UInt8
  sync : List UInt8
  deriving DecidableEq, Repr

structure Body where
  chunks : List Chunk
  last : List UInt8
  trailers : List (List UInt8)
  deriving DecidableEq, Repr

/-- Why there are no contents: there is no body to read, one of the errors, or the buffer grows for
ever. -/
inductive Failure
  | noContent
  | efbig
  | eio
  | enomem
  | hang
  deriving DecidableEq, Repr

inductive Status
  | more
  | last (line : List UInt8)
  | failed (failure : Failure)
  deriving DecidableEq, Repr

/-! ## Throwing a body away -/

/-- The chunks so far, and what is in the array of `http_body_check_chunk_sync` in the next
rounds. -/
structure Discarding where
  chunks : List Chunk
  stale : List (List UInt8)
  deriving DecidableEq, Repr

/-- Source: `ast_http_body_discard` ("parse chunked-body") -/
def discardChunk (s : Discarding) (c : Conn) : Discarding × Conn × Status :=
  let size := bodyGetChunkLength c
  match size.length with
  | none => (s, size.conn, .failed .eio)
  | some n =>
    if n = 0 then (s, size.conn, .last size.line)
    else
      match size.conn.discard n with
      | (false, c) => (s, c, .failed .eio)
      | (true, c) =>
        match bodyCheckChunkSync (s.stale.headD []) c with
        | (none, c) => (s, c, .failed .eio)
        | (some sync, c) =>
          (⟨s.chunks ++ [⟨size.line, size.conn.bytes.take n, sync⟩], s.stale.tail⟩, c, .more)

/-! ## Reading a body -/

/-- Source: the local variables of `ast_http_get_contents`. `buf` are the bytes at the offsets of
the buffer. -/
structure Collecting where
  contentLength : ℤ
  bufsize : ℤ
  buf : Memory
  allocs : List Bool
  stale : List (List UInt8)
  chunks : List Chunk
  sizes : List ℕ
  accesses : List Access

/-- Source: `ast_http_get_contents` ("do … while (content_length") -/
def enlargeStep (wanted : ℤ) (bufsize : ℤ) : Option (ℤ ⊕ ℤ) :=
  if int32 (bufsize * 2) ≤ wanted then some (.inl (int32 (bufsize * 2))) else some (.inr (int32 (bufsize * 2)))

def enlarge (wanted : ℤ) (bufsize : ℤ) : Option ℤ := iterate (enlargeStep wanted) (wanted.toNat + 1) bufsize

/-- Source: `ast_http_get_contents` ("insure buffer is large") -/
def Collecting.insure (s : Collecting) (n : ℕ) : Except Failure Collecting :=
  if int32 (s.contentLength + n) < s.bufsize then .ok s
  else
    match enlarge (int32 (s.contentLength + n)) s.bufsize with
    | none => .error .hang
    | some bufsize =>
      if s.allocs.headD true then .ok { s with bufsize := bufsize, allocs := s.allocs.tail } else .error .enomem

def address (offset : ℤ) : ℕ := (offset % 2 ^ 64).toNat

def Collecting.sized (s : Collecting) (n : ℕ) : Collecting := { s with sizes := s.sizes ++ [n] }

def Collecting.received (s : Collecting) (transfer : Transfer) : Collecting :=
  { s with
    buf := s.buf.write (address s.contentLength) transfer.data
    accesses := s.accesses ++ transfer.accesses }

/-- Source: `ast_http_get_contents` ("content_length += chunk_length") -/
def Collecting.synced (s : Collecting) (n : ℕ) (chunk : Chunk) : Collecting :=
  { s with
    contentLength := int32 (s.contentLength + n)
    stale := s.stale.tail
    chunks := s.chunks ++ [chunk] }

/-- Source: `ast_http_get_contents` ("parse chunked-body") -/
def getChunk (s : Collecting) (c : Conn) : Collecting × Conn × Status :=
  let size := bodyGetChunkLength c
  match size.length with
  | none => (s, size.conn, .failed .eio)
  | some n =>
    if n = 0 then (s.sized n, size.conn, .last size.line)
    else if maxContentLength < int32 (s.contentLength + n) then (s.sized n, size.conn, .failed .efbig)
    else
      match (s.sized n).insure n with
      | .error failure => (s.sized n, size.conn, .failed failure)
      | .ok s =>
        let transfer := bodyReadContents s.contentLength s.bufsize n size.conn
        if transfer.done then
          match bodyCheckChunkSync (s.stale.headD []) transfer.conn with
          | (none, c) => (s.received transfer, c, .failed .eio)
          | (some sync, c) => ((s.received transfer).synced n ⟨size.line, transfer.data, sync⟩, c, .more)
        else (s.received transfer, transfer.conn, .failed .eio)

/-! ## Rounds -/

lemma bodyReadContents_length_le (offset bufsize : ℤ) (length : ℕ) (c : Conn) :
    (bodyReadContents offset bufsize length c).conn.bytes.length ≤ c.bytes.length := by
  fun_induction bodyReadContents offset bufsize length c with
  | case1 => exact le_rfl
  | case2 offset length c hzero b bytes c₁ hread rest ih =>
    have hle := Conn.read_bytes_length_le c length
    rw [hread] at hle
    exact le_trans ih hle
  | case3 offset length c hzero r c₁ hne hread =>
    have hle := Conn.read_bytes_length_le c length
    rwa [hread] at hle

lemma discard_length_le (c : Conn) (n : ℕ) : (c.discard n).2.bytes.length ≤ c.bytes.length := by
  fun_induction Conn.discard c n with
  | case1 => exact le_rfl
  | case2 c n hzero b bytes c₁ hread ih =>
    have hle := Conn.read_bytes_length_le c (min n 1024)
    rw [hread] at hle
    exact le_trans ih hle
  | case3 c n hzero r c₁ hne hread =>
    have hle := Conn.read_bytes_length_le c (min n 1024)
    rwa [hread] at hle

lemma bodyCheckChunkSync_conn (stale : List UInt8) (c : Conn) : (bodyCheckChunkSync stale c).2 = (c.read 2).2 := by
  unfold bodyCheckChunkSync
  split
  · rename_i hread
    rw [hread]
  · rename_i hread
    rw [hread]

variable {c c' : Conn} {s s' : Discarding} {line : List UInt8}

lemma bodyGetChunkLength_lt {n : ℕ} (h : (bodyGetChunkLength c).length = some n) :
    (bodyGetChunkLength c).conn.bytes.length < c.bytes.length := by
  refine Conn.gets_bytes_length_lt c maxHttpLineLength fun hnil => ?_
  rw [bodyGetChunkLength, hnil] at h
  cases h


lemma bodyCheckChunkSync_length_le (stale : List UInt8) (c : Conn) :
    (bodyCheckChunkSync stale c).2.bytes.length ≤ c.bytes.length := by
  rw [bodyCheckChunkSync_conn]
  exact Conn.read_bytes_length_le c 2

lemma discardChunk_more (h : discardChunk s c = (s', c', .more)) :
    ∃ n c₂ sync, (bodyGetChunkLength c).length = some n ∧ 0 < n ∧
      (bodyGetChunkLength c).conn.discard n = (true, c₂) ∧
      bodyCheckChunkSync (s.stale.headD []) c₂ = (some sync, c') ∧
      s' = ⟨s.chunks ++ [⟨(bodyGetChunkLength c).line, (bodyGetChunkLength c).conn.bytes.take n, sync⟩],
        s.stale.tail⟩ := by
  unfold discardChunk at h
  dsimp only at h
  split at h
  · cases h
  rename_i n hsize
  split_ifs at h with hzero
  · cases h
  split at h
  · cases h
  rename_i c₂ hdis
  split at h
  · cases h
  · rename_i sync c₃ hchk
    cases h
    exact ⟨n, c₂, sync, hsize, Nat.pos_of_ne_zero hzero, hdis, hchk, rfl⟩

lemma discardChunk_last (h : discardChunk s c = (s', c', .last line)) :
    bodyGetChunkLength c = ⟨line, some 0, c'⟩ ∧ s' = s := by
  unfold discardChunk at h
  dsimp only at h
  split at h
  · cases h
  rename_i n hsize
  split_ifs at h with hzero
  · cases h
    exact ⟨by rw [← hzero, ← hsize], rfl⟩
  split at h
  · cases h
  · split at h <;> cases h

lemma discardChunk_lt (h : discardChunk s c = (s', c', .more)) : c'.bytes.length < c.bytes.length := by
  obtain ⟨n, c₂, sync, hsize, -, hdis, hchk, -⟩ := discardChunk_more h
  have hline := bodyGetChunkLength_lt hsize
  have hdata := discard_length_le (bodyGetChunkLength c).conn n
  rw [hdis] at hdata
  have hsync := bodyCheckChunkSync_length_le (s.stale.headD []) c₂
  rw [hchk] at hsync
  exact lt_of_le_of_lt (le_trans hsync hdata) hline

lemma getChunk_more {s s' : Collecting} (h : getChunk s c = (s', c', .more)) :
    ∃ n s₁ transfer sync, (bodyGetChunkLength c).length = some n ∧ 0 < n ∧
      int32 (s.contentLength + n) ≤ maxContentLength ∧ (s.sized n).insure n = .ok s₁ ∧
      transfer = bodyReadContents s₁.contentLength s₁.bufsize n (bodyGetChunkLength c).conn ∧ transfer.done = true ∧
      bodyCheckChunkSync (s₁.stale.headD []) transfer.conn = (some sync, c') ∧
      s' = (s₁.received transfer).synced n ⟨(bodyGetChunkLength c).line, transfer.data, sync⟩ := by
  unfold getChunk at h
  dsimp only at h
  split at h
  · cases h
  rename_i n hsize
  split_ifs at h with hzero hlong
  · cases h
  · cases h
  split at h
  · cases h
  rename_i s₁ hinsu
  split_ifs at h with hdone
  · split at h
    · cases h
    · rename_i sync c₃ hchk
      cases h
      exact ⟨n, s₁, _, sync, hsize, Nat.pos_of_ne_zero hzero, Int.not_lt.mp hlong, hinsu, rfl, hdone, hchk, rfl⟩
  · cases h

lemma getChunk_last {s s' : Collecting} (h : getChunk s c = (s', c', .last line)) :
    bodyGetChunkLength c = ⟨line, some 0, c'⟩ ∧ s' = s.sized 0 := by
  unfold getChunk at h
  dsimp only at h
  split at h
  · cases h
  rename_i n hsize
  split_ifs at h with hzero hlong
  · cases h
    exact ⟨by rw [← hzero, ← hsize], by rw [hzero]⟩
  · cases h
  split at h
  · cases h
  split_ifs at h with hdone
  · split at h <;> cases h
  · cases h

lemma getChunk_lt {s s' : Collecting} (h : getChunk s c = (s', c', .more)) : c'.bytes.length < c.bytes.length := by
  obtain ⟨n, s₁, transfer, sync, hsize, -, -, -, htrf, -, hchk, -⟩ := getChunk_more h
  have hline := bodyGetChunkLength_lt hsize
  have hdata := bodyReadContents_length_le s₁.contentLength s₁.bufsize n (bodyGetChunkLength c).conn
  rw [← htrf] at hdata
  have hsync := bodyCheckChunkSync_length_le (s₁.stale.headD []) transfer.conn
  rw [hchk] at hsync
  exact lt_of_le_of_lt (le_trans hsync hdata) hline

/-- Source: `ast_http_body_discard` ("for (;;)") -/
def discardChunks (s : Discarding) (c : Conn) : Discarding × Conn × Status :=
  match _h : discardChunk s c with
  | (s', c', .more) => discardChunks s' c'
  | r => r
termination_by c.bytes.length
decreasing_by exact discardChunk_lt _h

/-- Source: `ast_http_get_contents` ("for (;;)") -/
def getChunks (s : Collecting) (c : Conn) : Collecting × Conn × Status :=
  match _h : getChunk s c with
  | (s', c', .more) => getChunks s' c'
  | r => r
termination_by c.bytes.length
decreasing_by exact getChunk_lt _h

/-! ## The two functions -/

/-- What was thrown away, when it was a chunked body, and whether the source reports success. -/
structure Discarded where
  ok : Bool
  request : Request
  conn : Conn
  body : Option Body
  deriving DecidableEq, Repr

/-- Source: `ast_http_body_discard` -/
def discardChunked (stale : List (List UInt8)) (c : Conn) : Option Body × Conn :=
  match discardChunks ⟨[], stale⟩ c with
  | (s, c, .last line) =>
    let rest := bodyDiscardChunkTrailerHeaders c
    (rest.1.map fun trailers => ⟨s.chunks, line, trailers⟩, rest.2)
  | (_, c, _) => (none, c)

def bodyDiscard (request : Request) (stale : List (List UInt8)) (c : Conn) : Discarded :=
  if request.hasBody = false ∨ request.bodyRead = true then ⟨true, request, c, none⟩
  else if 0 < request.bodyLength then
    let rest := c.discard request.bodyLength.toNat
    ⟨rest.1, { request with bodyRead := true, closeOnCompletion := request.closeOnCompletion || !rest.1 }, rest.2, none⟩
  else
    let rest := discardChunked stale c
    ⟨rest.1.isSome, { request with
      bodyRead := true, closeOnCompletion := request.closeOnCompletion || rest.1.isNone }, rest.2, rest.1⟩

/-- The answers of the allocator, what is in the memory it gives, and what is in the array of
`http_body_check_chunk_sync`. -/
structure Surroundings where
  allocs : List Bool
  fresh : Memory
  stale : List (List UInt8)

/-- Source: the values that `ast_http_get_contents` returns. `body` is what was read, when it was a
chunked body. -/
structure Contents where
  returnLength : ℤ
  buf : Memory
  body : Option Body

def Contents.text (contents : Contents) : List UInt8 := contents.buf.slice 0 contents.returnLength.toNat

structure Getting where
  result : Except Failure Contents
  request : Request
  conn : Conn
  sizes : List ℕ
  accesses : List Access

/-- Source: `ast_http_get_contents` ("pre-allocate buffer") -/
def Collecting.initial (world : Surroundings) : Collecting where
  contentLength := 0
  bufsize := 250
  buf := world.fresh
  allocs := world.allocs.tail
  stale := world.stale
  chunks := []
  sizes := []
  accesses := []

/-- Source: `ast_http_get_contents` ("pre-allocate buffer", and what follows) -/
def getChunked (request : Request) (world : Surroundings) (c : Conn) : Getting :=
  let failing := { request with closeOnCompletion := true }
  if world.allocs.headD true then
    match getChunks (.initial world) c with
    | (s, c, .last line) =>
      match bodyDiscardChunkTrailerHeaders c with
      | (none, c) => ⟨.error .eio, failing, c, s.sizes, s.accesses⟩
      | (some trailers, c) =>
        let contents := ⟨s.contentLength, s.buf.write (address s.contentLength) [0], some ⟨s.chunks, line, trailers⟩⟩
        ⟨.ok contents, request, c, s.sizes, s.accesses ++ [⟨s.contentLength, 1, s.bufsize⟩]⟩
    | (s, c, .failed failure) => ⟨.error failure, failing, c, s.sizes, s.accesses⟩
    | (s, c, .more) => ⟨.error .hang, failing, c, s.sizes, s.accesses⟩
  else ⟨.error .enomem, failing, c, [], []⟩

/-- Source: `ast_http_get_contents` ("handle regular non-chunked content") -/
def getCounted (request : Request) (world : Surroundings) (c : Conn) : Getting :=
  let failing := { request with closeOnCompletion := true }
  let length := request.bodyLength
  if maxContentLength < length then ⟨.error .efbig, failing, c, [], []⟩
  else if world.allocs.headD true then
    let transfer := bodyReadContents 0 (length + 1) length.toNat c
    if transfer.done then
      let contents := ⟨length, (world.fresh.write 0 transfer.data).write (address length) [0], none⟩
      ⟨.ok contents, request, transfer.conn, [], transfer.accesses ++ [⟨length, 1, length + 1⟩]⟩
    else ⟨.error .eio, failing, transfer.conn, [], transfer.accesses⟩
  else ⟨.error .enomem, failing, c, [], []⟩

def getContents (request : Request) (world : Surroundings) (c : Conn) : Getting :=
  if request.hasBody = false ∨ request.bodyRead = true then ⟨.error .noContent, request, c, [], []⟩
  else if 0 < request.bodyLength then getCounted { request with bodyRead := true } world c
  else getChunked { request with bodyRead := true } world c

end Telephony.Http
