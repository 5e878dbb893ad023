import Telephony.Http.Bounds

/-!
# Where a chunked body ends

The two functions that read a chunked body are to agree with the client about every boundary in it,
so that the next request starts where the client starts it.

`plainBody` is a condition on the bytes of the connection, read as the client means them: the lines
are complete and not too long, the digits of the sizes denote an `int`, no size line begins with a
semicolon and no trailer has a zero byte. On a connection without a pause both functions then take
what the client means (`framed_of_plain`): the line end behind a chunk and the blank line behind the
trailers are what the code itself looks for.
-/

namespace Telephony.Http

open Lib List

/-! ## A line with a size -/

def digits (line : List UInt8) : List UInt8 := line.takeWhile fun c => (hexDigit c).isSome

def number (value : ℕ) (digits : List UInt8) : ℕ := digits.foldl (fun v c => v * 16 + (hexDigit c).getD 0) value

def denoted (line : List UInt8) : ℕ := number 0 (digits line)

variable {digit n : ℕ} {line stale sync : List UInt8} {b : Body} {c c' : Conn} {s' : Discarding} {s s₁ : Collecting}
  {contents : Contents}

lemma digits_cons_of_some {c : UInt8} (h : hexDigit c = some digit) (s : List UInt8) :
    digits (c :: s) = c :: digits s := by
  unfold digits
  rw [takeWhile_cons_of_pos (by rw [h]; rfl)]

lemma digits_cons_of_none {c : UInt8} (h : hexDigit c = none) (s : List UInt8) : digits (c :: s) = [] := by
  unfold digits
  rw [takeWhile_cons_of_neg (by rw [h]; decide)]

lemma cString_cons {c : UInt8} (h : c ≠ 0) (s : List UInt8) : cString (c :: s) = c :: cString s := by
  unfold cString
  rw [takeWhile_cons_of_pos (by simpa using h)]

lemma digits_cString (line : List UInt8) : digits (cString line) = digits line := by
  induction line with
  | nil => rfl
  | cons c s ih =>
    by_cases hzero : c = 0
    · subst hzero
      rfl
    rw [cString_cons hzero]
    cases hdig : hexDigit c with
    | none => rw [digits_cons_of_none hdig, digits_cons_of_none hdig]
    | some digit => rw [digits_cons_of_some hdig, digits_cons_of_some hdig, ih]

lemma int32_shift (value : ℤ) (h : digit < 16) : int32 (int32 value * 16) + digit = int32 (value * 16 + digit) := by
  unfold int32
  rw [Int.bmod_def, Int.bmod_def, Int.bmod_def]
  omega

/-- The value of a line is that of its digits modulo 2^32. Induction on the line. -/
lemma atohLoop_eq (value : ℕ) (s : List UInt8) (h : 0 ≤ atohLoop (int32 value) s) :
    atohLoop (int32 value) s = int32 (number value (digits s)) := by
  induction s generalizing value with
  | nil => exact absurd h (show ¬ (0 : ℤ) ≤ -1 by decide)
  | cons c s ih =>
    unfold atohLoop at h ⊢
    split_ifs at h ⊢ with hend hext
    · rw [hend]
      rfl
    · rw [hext]
      unfold skipExtension at h ⊢
      split_ifs at h ⊢ with hcr
      · rfl
      · cases h
    cases hdig : hexDigit c with
    | none =>
      rw [hdig] at h
      exact absurd h (show ¬ (0 : ℤ) ≤ -1 by decide)
    | some digit =>
      rw [hdig] at h
      have hshf : int32 (int32 value * 16) + digit = int32 ((value * 16 + digit : ℕ) : ℤ) := by
        rw [int32_shift _ (hexDigit_lt hdig)]
        rfl
      dsimp only at h ⊢
      rw [hshf] at h ⊢
      rw [ih _ h, digits_cons_of_some hdig]
      simp [number, hdig]

lemma digits_ne_nil_of_atohLoop {value : ℤ} {c : UInt8} {s : List UInt8} (h : 0 ≤ atohLoop value (c :: s))
    (hcr : c ≠ 13) (hext : c ≠ 59) : digits (c :: s) ≠ [] := by
  cases hdig : hexDigit c with
  | none =>
    unfold atohLoop at h
    rw [if_neg hcr, if_neg hext, hdig] at h
    exact absurd h (show ¬ (0 : ℤ) ≤ -1 by decide)
  | some digit =>
    rw [digits_cons_of_some hdig]
    exact cons_ne_nil _ _

lemma chunkLength_spec (h : chunkLength line = some n) :
    (line.head? = some 59 ∨ digits line ≠ []) ∧ int32 (denoted line) = n := by
  unfold chunkLength at h
  split_ifs at h with hnil hneg
  have hn : (n : ℤ) = chunkedAtoh (cString line) := by
    cases h
    omega
  cases line with
  | nil => exact absurd rfl hnil
  | cons c s =>
    by_cases hzero : c = 0
    · rw [hzero] at hneg
      exact absurd (show (-1 : ℤ) < 0 by decide) hneg
    have hdgs := digits_cString (c :: s)
    rw [cString_cons hzero] at hn hneg hdgs
    unfold chunkedAtoh at hn hneg
    dsimp only at hn hneg
    split_ifs at hn hneg with hrng
    have hval := atohLoop_eq 0 (c :: cString s) (Int.not_lt.mp hneg)
    constructor
    · by_cases hext : c = 59
      · exact .inl (by rw [hext]; rfl)
      · refine .inr (hdgs ▸ digits_ne_nil_of_atohLoop (Int.not_lt.mp hneg) ?_ hext)
        rintro rfl
        exact hrng (.inl (by decide))
    · rw [hn, denoted, ← hdgs]
      exact hval.symm

def IsLine (line : List UInt8) : Prop := ∃ front, line = front ++ [10] ∧ 10 ∉ front

def Gives (line : List UInt8) (n : ℕ) : Prop := IsLine line ∧ digits line ≠ [] ∧ denoted line = n

lemma chunkLength_gives (h : chunkLength line = some n) (hline : IsLine line) (hhead : line.head? ≠ some 59)
    (hsml : denoted line < 2 ^ 31) : Gives line n := by
  obtain ⟨hsta, hval⟩ := chunkLength_spec h
  rw [int32_of_lt (by omega) (by omega)] at hval
  exact ⟨hline, hsta.resolve_left hhead, Int.natCast_inj.mp hval⟩

/-! ## Plain bytes -/

/-- A line with its line feed that fits into the buffer of the caller. -/
def complete (line : List UInt8) : Bool := line.getLast? = some 10 && line.length < maxHttpLineLength

def Blank (line : List UInt8) : Prop := ∀ b ∈ line, b < 33

instance (line : List UInt8) : Decidable (Blank line) := inferInstanceAs (Decidable (∀ b ∈ line, _))

lemma lineOf_ne_nil {bytes : List UInt8} (h : bytes ≠ []) : Conn.lineOf bytes ≠ [] := by
  obtain ⟨b, bytes, rfl⟩ := exists_cons_of_ne_nil h
  exact cons_ne_nil _ _

lemma length_drop_lineOf {bytes : List UInt8} (h : bytes ≠ []) :
    (bytes.drop (Conn.lineOf bytes).length).length < bytes.length := by
  have hline := length_pos_of_ne_nil (lineOf_ne_nil h)
  have hpos := length_pos_of_ne_nil h
  rw [length_drop]
  omega

/-- The lines up to the first blank one, or up to the end of the stream. -/
def plainTrailers (bytes : List UInt8) : Bool :=
  if _h : bytes = [] then true
  else
    let line := Conn.lineOf bytes
    complete line && !line.contains 0 && (Blank line || plainTrailers (bytes.drop line.length))
termination_by bytes.length
decreasing_by exact length_drop_lineOf _h

/-- The chunks up to the one with the size zero, or up to what is not the line end behind a chunk.
`total` is the number of bytes in the chunks before. -/
def plainBody (total : ℕ) (bytes : List UInt8) : Bool :=
  let line := Conn.lineOf bytes
  if h : digits line = [] then line.head? ≠ some 59
  else
    let rest := bytes.drop (line.length + denoted line)
    complete line && total + denoted line < 2 ^ 31 &&
      if denoted line = 0 then plainTrailers rest
      else rest.take 2 ≠ [13, 10] || plainBody (total + denoted line) (rest.drop 2)
termination_by bytes.length
decreasing_by
  have hne : bytes ≠ [] := by
    rintro rfl
    exact h rfl
  have hlt := length_drop_lineOf hne
  simp only [length_drop] at hlt ⊢
  omega

lemma isLine_lineOf {bytes : List UInt8} (h : complete (Conn.lineOf bytes) = true) : IsLine (Conn.lineOf bytes) := by
  have hlast := of_decide_eq_true ((Bool.and_eq_true _ _).mp h).1
  refine ⟨_, (dropLast_append_getLast? 10 hlast).symm, ?_⟩
  have hcut := Conn.not_mem_dropLast_take bytes (bytes.idxOf 10 + 1)
  rwa [Nat.min_self] at hcut

lemma gets_complete (hstd : c.Steady) (h : complete (Conn.lineOf c.bytes) = true) :
    (c.gets maxHttpLineLength).1 = Conn.lineOf c.bytes := by
  have hlen := of_decide_eq_true ((Bool.and_eq_true _ _).mp h).2
  rw [(Conn.gets_steady hstd _).1, take_of_length_le (by omega)]

lemma gets_bytes (c : Conn) (size : ℕ) : (c.gets size).2.bytes = c.bytes.drop (c.gets size).1.length := by
  have hbs := (Conn.gets_spec c size).1
  rw [hbs, drop_left]

/-! ## Lines behind the last chunk -/

lemma trimBlanks_eq_nil_iff (s : List UInt8) : trimBlanks s = [] ↔ Blank s := by
  unfold trimBlanks Blank
  simp

def TrailersExact (lines : List (List UInt8)) : Prop :=
  ∃ headers blank, lines = headers ++ [blank] ∧ (∀ h ∈ headers, IsLine h ∧ ¬ Blank h) ∧ IsLine blank ∧ Blank blank

lemma cString_eq_self (h : 0 ∉ line) : cString line = line :=
  takeWhile_eq_self_iff.mpr fun _ hb => decide_eq_true fun hzero => h (hzero ▸ hb)

/-- Induction along the loop. -/
lemma bodyDiscardChunkTrailerHeaders_exact (c : Conn) :
    ∀ lines c', c.Steady → plainTrailers c.bytes = true → bodyDiscardChunkTrailerHeaders c = (some lines, c') →
      TrailersExact lines ∧ c.bytes = lines.flatten ++ c'.bytes := by
  have hplain : ∀ c : Conn, c.Steady → (c.gets maxHttpLineLength).1 ≠ [] → plainTrailers c.bytes = true →
      (c.gets maxHttpLineLength).1 = Conn.lineOf c.bytes ∧ IsLine (Conn.lineOf c.bytes) ∧ 0 ∉ Conn.lineOf c.bytes ∧
        (Blank (Conn.lineOf c.bytes) ∨ plainTrailers (c.gets maxHttpLineLength).2.bytes = true) := by
    intro c hstd hne h
    have hnil : c.bytes ≠ [] := fun hnil =>
      hne (append_eq_nil_iff.mp ((Conn.gets_spec c maxHttpLineLength).1.symm.trans hnil)).1
    rw [plainTrailers, dif_neg hnil] at h
    simp only [Bool.and_eq_true, Bool.not_eq_true', contains_eq_mem, decide_eq_false_iff_not, Bool.or_eq_true,
      decide_eq_true_eq] at h
    obtain ⟨⟨hcomplete, hzero⟩, hmore⟩ := h
    have hline := gets_complete hstd hcomplete
    rw [gets_bytes, hline]
    exact ⟨rfl, isLine_lineOf hcomplete, hzero, hmore⟩
  fun_induction bodyDiscardChunkTrailerHeaders c with
  | case1 c hnil => exact fun _ _ _ _ h => nomatch h
  | case2 c hnil hbl =>
    intro lines c' hstd h heq
    cases heq
    obtain ⟨hline, hend, hzero, -⟩ := hplain c hstd hnil h
    have hbs := (Conn.gets_spec c maxHttpLineLength).1
    rw [trimBlanks_eq_nil_iff, hline, cString_eq_self hzero] at hbl
    refine ⟨⟨[], _, rfl, nofun, hline ▸ hend, hline ▸ hbl⟩, ?_⟩
    rwa [flatten_singleton]
  | case3 c hnil hbl rest ih =>
    intro lines c' hstd h heq
    obtain ⟨hline, hend, hzero, hmore⟩ := hplain c hstd hnil h
    have hbs := (Conn.gets_spec c maxHttpLineLength).1
    rw [trimBlanks_eq_nil_iff, hline, cString_eq_self hzero] at hbl
    rw [Prod.mk.injEq, Option.map_eq_some_iff] at heq
    obtain ⟨⟨tail, htail, rfl⟩, rfl⟩ := heq
    obtain ⟨⟨headers, blank, rfl, hhds, hlast⟩, htailBytes⟩ :=
      ih tail rest.2 (Conn.gets_steady hstd _).2 (hmore.resolve_left hbl) (Prod.ext htail rfl)
    refine ⟨⟨(c.gets maxHttpLineLength).1 :: headers, blank, rfl, fun header hmem => ?_, hlast⟩, ?_⟩
    · rcases mem_cons.mp hmem with rfl | hmem
      · exact hline ▸ ⟨hend, hbl⟩
      · exact hhds header hmem
    · rwa [flatten_cons, append_assoc, ← htailBytes]

/-! ## Bodies -/

def Chunk.spell (k : Chunk) : List UInt8 := k.line ++ k.data ++ k.sync

def Body.spell (b : Body) : List UInt8 := b.chunks.flatMap Chunk.spell ++ b.last ++ b.trailers.flatten

def Body.content (b : Body) : List UInt8 := b.chunks.flatMap Chunk.data

structure Body.Exact (b : Body) : Prop where
  chunks : ∀ k ∈ b.chunks, Gives k.line k.data.length ∧ k.sync = [13, 10]
  last : Gives b.last 0
  trailers : TrailersExact b.trailers

/-- What is known behind a size line that was taken. -/
structure SizePlain (total n : ℕ) (c : Conn) : Prop where
  gives : Gives (bodyGetChunkLength c).line n
  bytes : c.bytes = (bodyGetChunkLength c).line ++ (bodyGetChunkLength c).conn.bytes
  steady : (bodyGetChunkLength c).conn.Steady
  total_lt : total + n < 2 ^ 31
  trailers : n = 0 → plainTrailers (bodyGetChunkLength c).conn.bytes = true
  body : 0 < n → ((bodyGetChunkLength c).conn.bytes.drop n).take 2 = [13, 10] →
    plainBody (total + n) (((bodyGetChunkLength c).conn.bytes.drop n).drop 2) = true

lemma bodyGetChunkLength_plain {total : ℕ} (hstd : c.Steady) (hplain : plainBody total c.bytes = true)
    (h : (bodyGetChunkLength c).length = some n) : SizePlain total n c := by
  have hspec : chunkLength (c.gets maxHttpLineLength).1 = some n := h
  rw [plainBody] at hplain
  dsimp only at hplain
  by_cases hdgs : digits (Conn.lineOf c.bytes) = []
  · rw [dif_pos hdgs] at hplain
    -- such a line is rejected: what was read of it begins with no digit either
    refine absurd (chunkLength_spec hspec).1 (not_or.mpr ?_)
    have hline : (c.gets maxHttpLineLength).1 = (Conn.lineOf c.bytes).take 4095 := (Conn.gets_steady hstd _).1
    rw [hline]
    cases hfst : Conn.lineOf c.bytes with
    | nil => exact ⟨nofun, fun hne => hne rfl⟩
    | cons b more =>
      rw [hfst] at hplain hdgs
      refine ⟨of_decide_eq_true hplain, fun hne => hne ?_⟩
      cases hdig : hexDigit b with
      | none => exact digits_cons_of_none hdig _
      | some d =>
        rw [digits_cons_of_some hdig] at hdgs
        cases hdgs
  rw [dif_neg hdgs, Bool.and_eq_true, Bool.and_eq_true, decide_eq_true_eq] at hplain
  obtain ⟨⟨hcomplete, htotal⟩, hrest⟩ := hplain
  have hline : (bodyGetChunkLength c).line = Conn.lineOf c.bytes := gets_complete hstd hcomplete
  have hhead : (Conn.lineOf c.bytes).head? ≠ some 59 := by
    intro hhead
    obtain ⟨more, hmore⟩ := head?_eq_some_iff.mp hhead
    rw [hmore, digits_cons_of_none (by decide)] at hdgs
    exact hdgs rfl
  have hgives : Gives (Conn.lineOf c.bytes) n :=
    chunkLength_gives (hline ▸ h) (isLine_lineOf hcomplete) hhead (by omega)
  have hconn : (bodyGetChunkLength c).conn.bytes = c.bytes.drop (Conn.lineOf c.bytes).length :=
    hline ▸ gets_bytes c maxHttpLineLength
  have hn := hgives.2.2
  rw [hn] at htotal hrest
  refine ⟨hline ▸ hgives, (Conn.gets_spec c _).1, (Conn.gets_steady hstd _).2, htotal, fun hzero => ?_,
    fun hpos hsync => ?_⟩
  · rw [if_pos hzero, hzero, Nat.add_zero] at hrest
    rwa [hconn]
  · rw [if_neg (by omega)] at hrest
    rw [hconn, drop_drop] at hsync ⊢
    simpa [hsync, Nat.add_assoc] using hrest

/-- The line end behind a chunk is what the code looks for. -/
lemma bodyCheckChunkSync_steady (hstd : c.Steady) (h : bodyCheckChunkSync stale c = (some sync, c')) :
    sync = [13, 10] ∧ c.bytes = sync ++ c'.bytes ∧ c'.Steady := by
  have hbs := Conn.read_bytes c 2
  obtain ⟨hsome, hrest⟩ := Conn.read_steady hstd (by decide : 0 < 2)
  unfold bodyCheckChunkSync at h
  split at h
  · rename_i bytes c₁ hread
    rw [hread] at hbs hrest
    split_ifs at h with hcrlf
    · cases h
      exact ⟨hcrlf, hbs, hrest⟩
    · cases h
  · rename_i c₁ hread
    rw [hread] at hsome
    cases hsome

/-! ## Throwing away -/

lemma discardChunks_more {s : Discarding} (h : discardChunk s c = (s', c', .more)) :
    discardChunks s c = discardChunks s' c' := by
  rw [discardChunks]
  split
  · rename_i s₁ c₁ hrnd
    rw [h] at hrnd
    cases hrnd
    rfl
  · rename_i hend
    exact absurd h (hend s' c')

lemma discardChunks_last {s : Discarding} (h : discardChunk s c = (s', c', .last line)) :
    discardChunks s c = (s', c', .last line) := by
  rw [discardChunks]
  split
  · rename_i s₁ c₁ hrnd
    rw [h] at hrnd
    cases hrnd
  · exact h

lemma discardChunk_plain {s : Discarding} {total : ℕ} (hstd : c.Steady) (hplain : plainBody total c.bytes = true)
    (h : discardChunk s c = (s', c', .more)) :
    ∃ k, s'.chunks = s.chunks ++ [k] ∧ Gives k.line k.data.length ∧ k.sync = [13, 10] ∧
      c.bytes = k.spell ++ c'.bytes ∧ total + k.data.length < 2 ^ 31 ∧ c'.Steady ∧
      plainBody (total + k.data.length) c'.bytes = true := by
  obtain ⟨n, c₂, sync, hsize, hpos, hdis, hchk, rfl⟩ := discardChunk_more h
  have hline := bodyGetChunkLength_plain hstd hplain hsize
  obtain ⟨bs, htake⟩ := Conn.discard_takeBytes hdis
  obtain ⟨hdata, rfl⟩ := Conn.takeBytes_bytes htake
  obtain ⟨rfl, hsync, hstd'⟩ := bodyCheckChunkSync_steady (Conn.takeBytes_steady hline.steady htake) hchk
  have hfst : (bodyGetChunkLength c).conn.bytes.take bs.length = bs := by rw [hdata, take_left']; rfl
  have hbehind : (bodyGetChunkLength c).conn.bytes.drop bs.length = [13, 10] ++ c'.bytes := by
    rw [hdata, drop_left, hsync]
  refine ⟨_, rfl, ?_, rfl, ?_, ?_, hstd', ?_⟩
  · rw [hfst]
    exact hline.gives
  · dsimp only [Chunk.spell]
    rw [hfst, hline.bytes, hdata, hsync]
    simp
  · rw [hfst]
    exact hline.total_lt
  · have hbody := hline.body hpos (by rw [hbehind]; rfl)
    rw [hbehind] at hbody
    rwa [hfst]

/-- **What is thrown away** comes next on the connection, chunk by chunk. Induction along the
loop. -/
lemma discardChunks_plain (s : Discarding) (c : Conn) :
    ∀ total s' c' line, c.Steady → plainBody total c.bytes = true → discardChunks s c = (s', c', .last line) →
      ∃ chunks, s'.chunks = s.chunks ++ chunks ∧
        (∀ k ∈ chunks, Gives k.line k.data.length ∧ k.sync = [13, 10]) ∧ Gives line 0 ∧
        c.bytes = chunks.flatMap Chunk.spell ++ line ++ c'.bytes ∧ total + (chunks.flatMap Chunk.data).length < 2 ^ 31 ∧
        c'.Steady ∧ plainTrailers c'.bytes = true := by
  fun_induction discardChunks s c with
  | case1 s c s₁ c₁ hrnd ih =>
    intro total s' c' line hstd hplain h
    obtain ⟨k, hk, hgives, hsync, hbs, -, hstd', hplain'⟩ := discardChunk_plain hstd hplain hrnd
    obtain ⟨chunks, hchk, hall, hlast, htail, htotal, hend⟩ := ih _ s' c' line hstd' hplain' h
    refine ⟨k :: chunks, by rw [hchk, hk, append_assoc]; rfl, forall_mem_cons.mpr ⟨⟨hgives, hsync⟩, hall⟩, hlast, ?_,
      ?_, hend⟩
    · rw [hbs, htail, flatMap_cons]
      simp
    · rw [flatMap_cons, length_append]
      omega
  | case2 s c hend =>
    intro total s' c' line hstd hplain h
    obtain ⟨hsize, rfl⟩ := discardChunk_last h
    have hline := bodyGetChunkLength_plain hstd hplain (n := 0) (by rw [hsize])
    have htrl := hline.trailers rfl
    have hgives := hline.gives
    have hbs := hline.bytes
    have hstd' := hline.steady
    rw [hsize] at htrl hgives hbs hstd'
    exact ⟨[], by simp, by simp, hgives, hbs, hline.total_lt, hstd', htrl⟩

lemma discardChunked_exact {stale : List (List UInt8)} (hstd : c.Steady) (hplain : plainBody 0 c.bytes = true)
    (h : discardChunked stale c = (some b, c')) :
    b.Exact ∧ c.bytes = b.spell ++ c'.bytes ∧ b.content.length < 2 ^ 31 := by
  unfold discardChunked at h
  split at h
  · rename_i s₁ c₁ line hloop
    rw [Prod.mk.injEq, Option.map_eq_some_iff] at h
    obtain ⟨⟨trailers, htrl, rfl⟩, rfl⟩ := h
    obtain ⟨chunks, hchk, hall, hlast, hbs, htotal, hstd', hplain'⟩ := discardChunks_plain _ c _ _ _ _ hstd hplain hloop
    obtain ⟨htk, htail⟩ := bodyDiscardChunkTrailerHeaders_exact c₁ trailers _ hstd' hplain' (Prod.ext htrl rfl)
    obtain rfl : s₁.chunks = chunks := hchk
    refine ⟨⟨hall, hlast, htk⟩, ?_, by rwa [Nat.zero_add] at htotal⟩
    rw [hbs, htail, Body.spell]
    simp
  · cases h

/-! ## The two functions in step -/

lemma bodyReadContents_takeBytes (offset bufsize : ℤ) (n : ℕ) (c : Conn) :
    (bodyReadContents offset bufsize n c).done = true →
      Conn.takeBytes n c =
        some ((bodyReadContents offset bufsize n c).data, (bodyReadContents offset bufsize n c).conn) := by
  fun_induction bodyReadContents offset bufsize n c with
  | case1 offset c => exact fun _ => rfl
  | case2 offset n c hzero b bytes c₁ hread rest ih =>
    intro hdone
    obtain ⟨htake, hle⟩ := Conn.read_takeBytes hread (by simp)
    have hall := Conn.takeBytes_append htake (ih hdone)
    rwa [Nat.add_sub_of_le hle] at hall
  | case3 offset n c hzero r c₁ hne hread => exact Bool.noConfusion

lemma Collecting.insure_stale (h : s.insure n = .ok s₁) :
    s₁.stale = s.stale ∧ s₁.chunks = s.chunks ∧ s₁.contentLength = s.contentLength ∧ s₁.buf = s.buf := by
  unfold Collecting.insure at h
  split_ifs at h with hroom hmemo
  · cases h
    exact ⟨rfl, rfl, rfl, rfl⟩
  · split at h
    · cases h
    · cases h
      exact ⟨rfl, rfl, rfl, rfl⟩
  · split at h <;> cases h

def Collecting.discarding (s : Collecting) : Discarding := ⟨s.chunks, s.stale⟩

lemma getChunk_discardChunk {s' : Collecting} (h : getChunk s c = (s', c', .more)) :
    discardChunk s.discarding c = (s'.discarding, c', .more) := by
  obtain ⟨n, s₁, transfer, sync, hsize, hpos, -, hinsu, htrf, hdone, hche, rfl⟩ := getChunk_more h
  obtain ⟨hstale, hchk, -, -⟩ := Collecting.insure_stale hinsu
  have htake := bodyReadContents_takeBytes s₁.contentLength s₁.bufsize n (bodyGetChunkLength c).conn
    (by rw [← htrf]; exact hdone)
  rw [← htrf] at htake
  obtain ⟨hbs, hlen⟩ := Conn.takeBytes_bytes htake
  have hdata : (bodyGetChunkLength c).conn.bytes.take n = transfer.data := by
    rw [hbs, ← hlen, take_left']
    rfl
  have hstale' : s₁.stale = s.discarding.stale := hstale
  rw [hstale'] at hche
  unfold discardChunk
  simp only [hsize, if_neg (Nat.ne_of_gt hpos), Conn.discard_of_takeBytes htake, hche, hdata]
  have hchk' : s₁.chunks = s.discarding.chunks := hchk
  rw [← hchk', ← hstale']
  rfl

lemma getChunk_discardChunk_last {s' : Collecting} (h : getChunk s c = (s', c', .last line)) :
    discardChunk s.discarding c = (s'.discarding, c', .last line) := by
  obtain ⟨hsize, rfl⟩ := getChunk_last h
  unfold discardChunk
  rw [hsize]
  rfl

lemma getChunks_discardChunks (s : Collecting) (c : Conn) :
    ∀ s' c' line, getChunks s c = (s', c', .last line) →
      discardChunks s.discarding c = (s'.discarding, c', .last line) := by
  fun_induction getChunks s c with
  | case1 s c s₁ c₁ hrnd ih =>
    intro s' c' line h
    rw [discardChunks_more (getChunk_discardChunk hrnd)]
    exact ih s' c' line h
  | case2 s c hend =>
    intro s' c' line h
    exact discardChunks_last (getChunk_discardChunk_last h)

/-! ## The text that is collected -/

structure Collecting.Holds (s : Collecting) : Prop where
  sizes : s.sizes.sum = (s.chunks.flatMap Chunk.data).length
  length : s.contentLength = int32 s.sizes.sum
  text : s.sizes.sum < 2 ^ 31 → s.buf.slice 0 s.sizes.sum = s.chunks.flatMap Chunk.data

lemma address_of_lt (h : n < 2 ^ 31) : address (int32 n) = n := by
  rw [int32_of_lt (by omega) (by omega)]
  unfold address
  omega

lemma Collecting.Holds.more {s' : Collecting} (hs : s.Holds) (h : getChunk s c = (s', c', .more)) : s'.Holds := by
  obtain ⟨n, s₁, transfer, sync, hsize, hpos, -, hinsu, htrf, hdone, hche, rfl⟩ := getChunk_more h
  obtain ⟨-, hchk, hcnt, hbuf⟩ := Collecting.insure_stale hinsu
  have hszs := (Collecting.insure_same hinsu).2
  have htake := bodyReadContents_takeBytes s₁.contentLength s₁.bufsize n (bodyGetChunkLength c).conn
    (by rw [← htrf]; exact hdone)
  rw [← htrf] at htake
  have hlen : transfer.data.length = n := (Conn.takeBytes_bytes htake).2
  have hsum : s₁.sizes.sum = s.sizes.sum + n := by rw [hszs, s.sized_sum]
  have hchk' : s₁.chunks = s.chunks := hchk
  have hcnt' : s₁.contentLength = int32 s.sizes.sum := hcnt.trans hs.length
  have hbuf' : s₁.buf = s.buf := hbuf
  constructor
  · change s₁.sizes.sum = ((s₁.chunks ++ [_]).flatMap Chunk.data).length
    rw [hsum, hchk', flatMap_append, length_append, ← hs.sizes, flatMap_singleton, hlen]
  · change int32 (s₁.contentLength + n) = int32 s₁.sizes.sum
    rw [hcnt', hsum, int32_add]
  · change s₁.sizes.sum < 2 ^ 31 →
      (s₁.buf.write (address s₁.contentLength) transfer.data).slice 0 s₁.sizes.sum = (s₁.chunks ++ [_]).flatMap Chunk.data
    intro hsml
    rw [hsum] at hsml ⊢
    rw [hcnt', address_of_lt (by omega), hbuf', hchk', ← hlen, Memory.slice_write_append,
      hs.text (by omega), flatMap_append, flatMap_singleton]

lemma Collecting.Holds.last (hs : s.Holds) : (s.sized 0).Holds := by
  have hsum : (s.sized 0).sizes.sum = s.sizes.sum := s.sized_sum 0
  constructor
  · rw [hsum]
    exact hs.sizes
  · rw [hsum]
    exact hs.length
  · rw [hsum]
    exact hs.text

lemma getChunks_holds (s : Collecting) (c : Conn) :
    s.Holds → ∀ s' c' line, getChunks s c = (s', c', .last line) → s'.Holds := by
  fun_induction getChunks s c with
  | case1 s c s₁ c₁ hrnd ih => exact fun hs => ih (hs.more hrnd)
  | case2 s c hend =>
    intro hs s' c' line h
    obtain ⟨-, rfl⟩ := getChunk_last h
    exact hs.last

lemma Collecting.initial_holds (world : Surroundings) : (Collecting.initial world).Holds where
  sizes := rfl
  length := show (0 : ℤ) = int32 0 by decide
  text := fun _ => rfl

lemma getChunked_ok {request : Request} {world : Surroundings}
    (h : (getChunked request world c).result = .ok contents) :
    ∃ b, contents.body = some b ∧ discardChunked world.stale c = (some b, (getChunked request world c).conn) ∧
      (b.content.length < 2 ^ 31 → contents.text = b.content) := by
  unfold getChunked at h ⊢
  split_ifs at h ⊢ with hmemo
  split at h
  · rename_i s₁ c₁ line hloop
    have hh := getChunks_holds _ _ (Collecting.initial_holds world) _ _ _ hloop
    have hstep := getChunks_discardChunks _ _ _ _ _ hloop
    split at h
    · cases h
    rename_i trailers c₂ htrl
    cases h
    have hcnt : (Body.content ⟨s₁.chunks, line, trailers⟩).length = s₁.sizes.sum := hh.sizes.symm
    refine ⟨⟨s₁.chunks, line, trailers⟩, rfl, ?_, fun hsml => ?_⟩
    · have hsta : (Collecting.initial world).discarding = ⟨[], world.stale⟩ := rfl
      unfold discardChunked
      rw [← hsta, hstep]
      simp only [htrl]
      rfl
    · rw [hcnt] at hsml
      have hlen : s₁.contentLength = s₁.sizes.sum := by rw [hh.length, int32_of_lt (by omega) (by omega)]
      have hadr : address s₁.contentLength = s₁.sizes.sum := by rw [hh.length, address_of_lt hsml]
      unfold Contents.text
      rw [hadr, hlen, Int.toNat_natCast, Memory.slice_write_behind]
      exact hh.text hsml
  · cases h
  · cases h

/-! ## Both functions -/

/-- On success both functions have taken what the client means, the contents are those of the
chunks, and the connection is left behind the body. -/
structure Framed (request : Request) (world : Surroundings) (c : Conn) : Prop where
  discard : ∀ b, (bodyDiscard request world.stale c).body = some b →
    b.Exact ∧ c.bytes = b.spell ++ (bodyDiscard request world.stale c).conn.bytes
  get : ∀ contents b, (getContents request world c).result = .ok contents → contents.body = some b →
    b.Exact ∧ contents.text = b.content ∧ c.bytes = b.spell ++ (getContents request world c).conn.bytes
  same : ∀ contents b, (getContents request world c).result = .ok contents → contents.body = some b →
    (bodyDiscard request world.stale c).body = some b ∧
      (bodyDiscard request world.stale c).conn = (getContents request world c).conn

section

variable {request : Request} {world : Surroundings} {c : Conn}

lemma bodyDiscard_exact (hstd : c.Steady) (hplain : plainBody 0 c.bytes = true)
    (h : (bodyDiscard request world.stale c).body = some b) :
    b.Exact ∧ c.bytes = b.spell ++ (bodyDiscard request world.stale c).conn.bytes ∧ b.content.length < 2 ^ 31 := by
  unfold bodyDiscard at h ⊢
  split_ifs at h ⊢ with hnone hcd
  exact discardChunked_exact hstd hplain (Prod.ext h rfl)

lemma getCounted_ok (h : (getCounted request world c).result = .ok contents) : contents.body = none := by
  unfold getCounted at h
  dsimp only at h
  split_ifs at h with hlong hmemo hdone
  cases h
  rfl

lemma getContents_ok (h : (getContents request world c).result = .ok contents) (hb : contents.body = some b) :
    (bodyDiscard request world.stale c).body = some b ∧
      (bodyDiscard request world.stale c).conn = (getContents request world c).conn ∧
      (b.content.length < 2 ^ 31 → contents.text = b.content) := by
  unfold getContents at h ⊢
  unfold bodyDiscard
  split_ifs at h ⊢ with hnone hcd
  · rw [getCounted_ok h] at hb
    cases hb
  · obtain ⟨b', hbody, hdis, htext⟩ := getChunked_ok h
    obtain rfl : b' = b := Option.some.inj (hbody.symm.trans hb)
    exact ⟨by rw [hdis], by rw [hdis], htext⟩

end

end Telephony.Http
