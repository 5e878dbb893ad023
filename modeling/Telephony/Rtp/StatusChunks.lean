import Mathlib.Data.List.Basic
import Mathlib.Data.Nat.Bitwise
import Mathlib.Tactic.Ring

/-!
# Packet status chunks

A transport-wide feedback packet says of every sequence number from its base number on whether it
was received, in chunks of 16 bits: a run length chunk has a status and the number of times that it
comes, a status vector chunk has seven statuses of two bits. The counter of the run in progress is
an `int`, which is modelled by its 32 bits.

`statusAppend_encodes` says that the chunks hold the statuses as long as no run is longer than 8191,
and `flush_decode` that they are read as these. `statusAppend_weight` and `statusAppend_growth`
bound the room that they take.
-/

namespace Telephony.Rtp

open List Option Nat

/-! ## Writing -/

/-- Source: `rtp_transport_wide_cc_feedback_produce` (`packet_len`, `status_vector_chunk_bits`,
`status_vector_chunk`, `run_length_chunk_count`, `run_length_chunk_status`) -/
structure StatusWriter where
  packetLen : ℕ
  vectorBits : ℕ
  vectorChunk : ℕ
  runCount : ℕ
  runStatus : Option ℕ
  chunks : List ℕ
  deriving DecidableEq, Repr

namespace StatusWriter

/-- The writer of an empty packet: 20 bytes are left for the header.
Source: `rtp_transport_wide_cc_feedback_produce` -/
def start : StatusWriter :=
  { packetLen := 20
    vectorBits := 14
    vectorChunk := 1 <<< 15 ||| 1 <<< 14
    runCount := 0
    runStatus := none
    chunks := [] }

/-- Source: `put_unaligned_uint16 (rtcpheader + packet_len, htons (…))` -/
def put (w : StatusWriter) (chunk : ℕ) : StatusWriter :=
  { w with chunks := w.chunks ++ [chunk % 65536], packetLen := w.packetLen + 2 }

def statusVectorAppend (w : StatusWriter) (status : ℕ) : StatusWriter :=
  let bits := w.vectorBits - 2
  let chunk := w.vectorChunk ||| status <<< (16 - 2 - (14 - bits))
  if bits ≠ 0 then { w with vectorBits := bits, vectorChunk := chunk }
  else { w.put chunk with vectorBits := 14, vectorChunk := 1 <<< 15 ||| 1 <<< 14 }

/-- Place the run length chunk in progress into the packet. Its count is not bounded.
Source: `htons ((0 << 15) | (run_length_chunk_status << 13) | run_length_chunk_count)` -/
def putRun (w : StatusWriter) : StatusWriter := w.put (w.runStatus.getD 0 <<< 13 ||| w.runCount)

def fillVector (status : ℕ) : ℕ → StatusWriter → StatusWriter
  | 0, w => w
  | n + 1, w => fillVector status n (w.statusVectorAppend status)

/-- Source: `rtp_transport_wide_cc_feedback_status_append`
(`while (*run_length_chunk_count > 0 && *run_length_chunk_count < 8)`) -/
def backfill (w : StatusWriter) : StatusWriter :=
  if w.runCount < 8 then { fillVector (w.runStatus.getD 0) w.runCount w with runCount := 0 } else w

/-- Source: `rtp_transport_wide_cc_feedback_status_append` ("There is a run", "In all cases the") -/
def endRun (w : StatusWriter) : StatusWriter :=
  { if w.runCount ≠ 0 then w.putRun else w with runCount := 0, runStatus := none }

/-- A status that is not part of the last run starts a run, or goes into the status vector in
progress.
Source: `rtp_transport_wide_cc_feedback_status_append` (`if (*status_vector_chunk_bits == 14)`) -/
def appendNew (w : StatusWriter) (status : ℕ) : StatusWriter :=
  if w.vectorBits = 14 then { w with runStatus := some status, runCount := 1 }
  else w.statusVectorAppend status

def statusAppend (w : StatusWriter) (status : ℕ) : StatusWriter :=
  if w.runStatus ≠ some status then w.backfill.endRun.appendNew status
  else { w with runCount := (w.runCount + 1) % 2 ^ 32 }

/-- Source: `rtp_transport_wide_cc_feedback_produce` (`if (status_vector_chunk_bits != 14)`) -/
def flush (w : StatusWriter) : StatusWriter :=
  if w.vectorBits ≠ 14 then w.put w.vectorChunk
  else if w.runCount ≠ 0 then w.putRun
  else w

end StatusWriter

/-! ## Reading -/

/-- Source: `rtp_transport_wide_cc_feedback_status_vector_append` ("The first bit being") -/
def chunkStatuses (chunk : ℕ) : List ℕ :=
  if chunk < 2 ^ 15 then replicate (chunk % 2 ^ 13) (chunk / 2 ^ 13 % 4)
  else if chunk / 2 ^ 14 % 2 = 1 then (range 7).map fun i => chunk / 4 ^ (6 - i) % 4
  else (range 14).map fun i => chunk / 2 ^ (13 - i) % 2

def decodeStatuses : ℕ → List ℕ → Option (List ℕ)
  | 0, [] => some []
  | 0, _ :: _ => none
  | _ + 1, [] => none
  | n + 1, chunk :: chunks =>
    (decodeStatuses (n + 1 - (chunkStatuses chunk).length) chunks).map ((chunkStatuses chunk).take (n + 1) ++ ·)

def allStatuses (chunks : List ℕ) : List ℕ := chunks.flatMap chunkStatuses

@[simp] lemma allStatuses_concat (chunks : List ℕ) (chunk : ℕ) :
    allStatuses (chunks ++ [chunk]) = allStatuses chunks ++ chunkStatuses chunk := by
  simp [allStatuses]

variable {n chunk status count s : ℕ} {chunks v rest : List ℕ}

/-- Chunks are read in full when the last of them is needed. Induction on the chunks before it. -/
lemma decodeStatuses_concat (hlt : (allStatuses chunks).length < n)
    (hle : n ≤ (allStatuses (chunks ++ [chunk])).length) :
    decodeStatuses n (chunks ++ [chunk]) = some ((allStatuses (chunks ++ [chunk])).take n) := by
  obtain ⟨n, rfl⟩ : ∃ m, n = m + 1 := ⟨n - 1, by omega⟩
  induction chunks generalizing n with
  | nil =>
    simp only [nil_append, allStatuses, flatMap_cons, flatMap_nil, append_nil] at hle ⊢
    have hzero : n + 1 - (chunkStatuses chunk).length = 0 := by omega
    simp [decodeStatuses, hzero]
  | cons c chunks ih =>
    simp only [cons_append, allStatuses, flatMap_cons, length_append] at hlt hle ih ⊢
    obtain ⟨m, hm⟩ : ∃ m, n + 1 - (chunkStatuses c).length = m + 1 :=
      ⟨n - (chunkStatuses c).length, by omega⟩
    rw [decodeStatuses, hm, ih m (by omega) (by omega)]
    simp [take_append, hm]

/-! ## Chunks -/

/-- The bits of a status vector with the statuses `v`, before the free bits at its end. The leading
3 makes it a vector of two-bit statuses. -/
def packed (v : List ℕ) : ℕ := v.foldl (fun bits status => 4 * bits + status) 3

@[simp] lemma packed_concat (v : List ℕ) (status : ℕ) :
    packed (v ++ [status]) = 4 * packed v + status := by
  simp [packed]

lemma packed_append_replicate (v : List ℕ) (n : ℕ) : packed (v ++ replicate n 0) = packed v * 2 ^ (2 * n) := by
  induction n with
  | zero => simp
  | succ n ih =>
    rw [replicate_succ', ← append_assoc, packed_concat, ih]
    ring

lemma chunkStatuses_packed (hlen : v.length = 7) (hv : ∀ s ∈ v, s < 4) :
    packed v < 65536 ∧ chunkStatuses (packed v) = v := by
  match v, hlen with
  | [a, b, c, d, e, f, g], _ =>
    simp only [mem_cons, forall_eq_or_imp] at hv
    simp only [packed, foldl_cons, foldl_nil]
    rw [chunkStatuses, if_neg (by omega), if_pos (by omega)]
    simp only [range_succ, range_zero, nil_append, cons_append, map_cons, map_nil, List.cons.injEq, and_true]
    omega

lemma chunkStatuses_padded (hlen : v.length ≤ 7) (hv : ∀ s ∈ v, s < 4) :
    chunkStatuses (packed v * 2 ^ (14 - 2 * v.length) % 65536) = v ++ replicate (7 - v.length) 0 := by
  have hfull : ∀ s ∈ v ++ replicate (7 - v.length) 0, s < 4 := by
    intro s hs
    rcases mem_append.1 hs with hs | hs
    · exact hv s hs
    · rw [(mem_replicate.1 hs).2]
      omega
  obtain ⟨hlt, hread⟩ := chunkStatuses_packed (by simp; omega) hfull
  rw [packed_append_replicate, show 2 * (7 - v.length) = 14 - 2 * v.length by omega] at hlt hread
  rw [mod_eq_of_lt hlt, hread]

lemma chunkStatuses_run (hsts : status < 3) (hcnt : count < 2 ^ 13) :
    chunkStatuses ((status <<< 13 ||| count) % 65536) = replicate count status := by
  have hor : status <<< 13 ||| count = 2 ^ 13 * status + count := by
    rw [shiftLeft_eq, Nat.mul_comm, ← two_pow_add_eq_or_of_lt hcnt]
  rw [chunkStatuses, if_pos (by omega)]
  congr 1 <;> omega

/-! ## What the writer holds -/

structure HasVector (w : StatusWriter) (v : List ℕ) : Prop where
  bits : w.vectorBits + 2 * v.length = 14
  room : v.length < 7
  small : ∀ s ∈ v, s < 3
  chunk : w.vectorChunk = packed v * 2 ^ w.vectorBits

/-- The chunks hold the statuses up to those of `pending`. -/
structure Holds (w : StatusWriter) (pending statuses : List ℕ) : Prop where
  packetLen : w.packetLen = 20 + 2 * w.chunks.length
  exact : allStatuses w.chunks ++ pending = statuses
  ne_nil : ∀ c ∈ w.chunks, chunkStatuses c ≠ []

def StatusWriter.run (w : StatusWriter) : List ℕ := replicate w.runCount (w.runStatus.getD 0)

/-- Source: `rtp_transport_wide_cc_feedback_status_append` ("We aren't in the") -/
structure Encodes (w : StatusWriter) (v statuses : List ℕ) : Prop where
  vector : HasVector w v
  mode : w.runCount = 0 ∧ w.runStatus = none ∨
    v = [] ∧ 0 < w.runCount ∧ w.runCount < 2 ^ 13 ∧ ∃ s < 3, w.runStatus = some s
  holds : Holds w (v ++ w.run) statuses

/-- The room that the chunks take, counted in statuses: seven for each chunk, and what is in
progress, of a run at most eight. -/
def StatusWriter.weight (w : StatusWriter) : ℕ := 7 * w.chunks.length + (14 - w.vectorBits) / 2 + min w.runCount 8

/-- What lost packets can still add to the weight: they fill up the vector in progress, and then
eight of them count as a run. -/
def StatusWriter.growth (w : StatusWriter) : ℕ :=
  if w.runStatus = some 0 then 8 - w.runCount
  else if w.runStatus = none then if w.vectorBits = 14 then 8 else w.vectorBits / 2 + 8
  else 14

variable {w : StatusWriter} {v pending statuses front : List ℕ}

lemma encodes_start : Encodes StatusWriter.start [] [] where
  vector := ⟨rfl, by decide, by simp, by decide⟩
  mode := .inl ⟨rfl, rfl⟩
  holds := ⟨rfl, rfl, by simp [StatusWriter.start]⟩

lemma Holds.append (h : Holds w pending statuses) (more : List ℕ) : Holds w (pending ++ more) (statuses ++ more) where
  packetLen := h.packetLen
  exact := by rw [← append_assoc, h.exact]
  ne_nil := h.ne_nil

lemma Holds.put (h : Holds w (front ++ rest) statuses) (hne : front ≠ [])
    (hchu : chunkStatuses (chunk % 65536) = front) : Holds (w.put chunk) rest statuses where
  packetLen := by
    simp only [StatusWriter.put, h.packetLen, length_append, length_singleton]
    omega
  exact := by simp [StatusWriter.put, hchu, ← h.exact]
  ne_nil := by
    intro c hc
    rcases mem_append.1 hc with hc | hc
    · exact h.ne_nil c hc
    · rwa [mem_singleton.1 hc, hchu]

lemma Holds.putRun (h : Holds w w.run statuses) (hs : s < 3) (hsts : w.runStatus = some s)
    (hpos : 0 < w.runCount) (hfit : w.runCount < 2 ^ 13) : Holds w.putRun [] statuses := by
  have hgetD : w.runStatus.getD 0 = s := by rw [hsts, getD_some]
  have hrun : w.run = replicate w.runCount s := by rw [StatusWriter.run, hgetD]
  rw [← append_nil w.run] at h
  rw [StatusWriter.putRun, hgetD]
  exact h.put (by simp [hrun]; omega) ((chunkStatuses_run hs hfit).trans hrun.symm)

/-! ## The status vector -/

lemma HasVector.or_status (h : HasVector w v) (hs : s < 3) :
    w.vectorChunk ||| s <<< (16 - 2 - (14 - (w.vectorBits - 2))) = packed (v ++ [s]) * 2 ^ (w.vectorBits - 2) := by
  have hbits := h.bits
  have hroom := h.room
  obtain ⟨b, hb⟩ : ∃ b, w.vectorBits = b + 2 := ⟨w.vectorBits - 2, by omega⟩
  have hshf : s <<< b < 2 ^ (b + 2) := by
    rw [shiftLeft_eq, pow_add, Nat.mul_comm]
    exact Nat.mul_lt_mul_of_pos_left (by omega) (Nat.two_pow_pos b)
  rw [h.chunk, hb, show 16 - 2 - (14 - (b + 2 - 2)) = b by omega, Nat.mul_comm,
    ← two_pow_add_eq_or_of_lt hshf, packed_concat, shiftLeft_eq, Nat.add_sub_cancel]
  ring

/-- What is left of a status vector when it is written out as soon as it is full. -/
def leftOver (v : List ℕ) : List ℕ := if v.length = 7 then [] else v

section

variable (w : StatusWriter) (s : ℕ)

@[simp] lemma statusVectorAppend_runCount : (w.statusVectorAppend s).runCount = w.runCount := by
  simp only [StatusWriter.statusVectorAppend]
  split <;> rfl

@[simp] lemma statusVectorAppend_runStatus : (w.statusVectorAppend s).runStatus = w.runStatus := by
  simp only [StatusWriter.statusVectorAppend]
  split <;> rfl

lemma statusVectorAppend_vectorBits :
    (w.statusVectorAppend s).vectorBits = if w.vectorBits - 2 = 0 then 14 else w.vectorBits - 2 := by
  simp only [StatusWriter.statusVectorAppend, ite_not]
  split <;> rfl

end

lemma HasVector.small_concat (h : HasVector w v) (hs : s < 3) : ∀ x ∈ v ++ [s], x < 3 := by
  intro x hx
  rcases mem_append.1 hx with hx | hx
  · exact h.small x hx
  · rwa [mem_singleton.1 hx]

lemma statusVectorAppend_spec (hv : HasVector w v) (hs : s < 3) (h : Holds w (v ++ s :: rest) statuses) :
    HasVector (w.statusVectorAppend s) (leftOver (v ++ [s])) ∧
      Holds (w.statusVectorAppend s) (leftOver (v ++ [s]) ++ rest) statuses ∧
      (w.statusVectorAppend s).weight = w.weight + 1 := by
  have hbits := hv.bits
  have hroom := hv.room
  have hsml := hv.small_concat hs
  have hlen : (v ++ [s]).length = v.length + 1 := by simp
  have hpen : v ++ s :: rest = (v ++ [s]) ++ rest := by simp
  rw [hpen] at h
  rw [StatusWriter.statusVectorAppend]
  rw [hv.or_status hs, leftOver, hlen]
  by_cases hfull : v.length + 1 = 7
  · -- the seventh status: the chunk is placed into the packet
    have hzero : w.vectorBits - 2 = 0 := by omega
    have hchk : chunkStatuses (packed (v ++ [s]) * 2 ^ (w.vectorBits - 2) % 65536) = v ++ [s] := by
      obtain ⟨hlt, hread⟩ := chunkStatuses_packed (hlen.trans hfull) (fun x hx => (hsml x hx).trans (by decide))
      rw [hzero, pow_zero, mul_one, mod_eq_of_lt hlt, hread]
    have hput := h.put (by simp) hchk
    rw [if_neg (by omega), if_pos hfull]
    have hemp : (1 <<< 15 ||| 1 <<< 14 : ℕ) = packed [] * 2 ^ 14 := by decide
    refine ⟨⟨rfl, by decide, by simp, hemp⟩, { hput with }, ?_⟩
    simp only [StatusWriter.weight, StatusWriter.put, length_append, length_singleton]
    omega
  · rw [if_pos (by omega), if_neg hfull]
    refine ⟨⟨?_, ?_, hsml, rfl⟩, { h with }, ?_⟩
    · simp only [hlen]
      omega
    · omega
    · simp only [StatusWriter.weight]
      omega

/-- Filling up the status vector. Induction on the statuses that are moved into it. -/
lemma fillVector_spec (hv : HasVector w v) (hs : s < 3) (hn : v.length + n ≤ 7)
    (h : Holds w (v ++ replicate n s) statuses) :
    HasVector (StatusWriter.fillVector s n w) (leftOver (v ++ replicate n s)) ∧
      Holds (StatusWriter.fillVector s n w) (leftOver (v ++ replicate n s)) statuses ∧
      (StatusWriter.fillVector s n w).weight = w.weight + n ∧
      (StatusWriter.fillVector s n w).runCount = w.runCount := by
  induction n generalizing w v with
  | zero =>
    have hroom := hv.room
    have hleft : leftOver (v ++ replicate 0 s) = v := by
      simp only [leftOver, replicate_zero, append_nil]
      rw [if_neg (by omega)]
    rw [hleft]
    simp only [replicate_zero, append_nil] at h
    exact ⟨hv, h, rfl, rfl⟩
  | succ n ih =>
    obtain ⟨hv', h', hwgt⟩ := statusVectorAppend_spec hv hs h
    have hcnt := statusVectorAppend_runCount w s
    by_cases hfull : v.length + 1 = 7
    · -- only the last of the statuses can fill the vector
      obtain rfl : n = 0 := by omega
      simp only [replicate_zero, append_nil] at h' ⊢
      exact ⟨hv', h', hwgt, hcnt⟩
    have hleft : leftOver (v ++ [s]) = v ++ [s] := by
      simp only [leftOver, length_append, length_singleton]
      rw [if_neg hfull]
    rw [hleft] at hv' h'
    have hstep := ih hv' (by simp; omega) h'
    rwa [append_assoc, singleton_append, ← replicate_succ, hwgt, hcnt, Nat.add_assoc, Nat.add_comm 1 n] at hstep

/-! ## Appending a status -/

lemma endRun_of_none (hcnt : w.runCount = 0) (hsts : w.runStatus = none) : w.backfill.endRun = w := by
  rw [StatusWriter.backfill, if_pos (by omega), hcnt, StatusWriter.fillVector, StatusWriter.endRun,
    if_neg (by simp), ← hcnt, ← hsts]

section

variable (h : Encodes w v statuses)
include h

lemma endRun_encodes : ∃ v', Encodes w.backfill.endRun v' statuses ∧ w.backfill.endRun.runCount = 0 ∧
    w.backfill.endRun.runStatus = none ∧ w.backfill.endRun.weight ≤ w.weight := by
  have hhol := h.holds
  rcases h.mode with ⟨hcnt, hsts⟩ | ⟨rfl, hcnt, hfit, s, hs, hsts⟩
  · -- no run is in progress
    rw [endRun_of_none hcnt hsts]
    exact ⟨v, h, hcnt, hsts, le_rfl⟩
  have hgetD : w.runStatus.getD 0 = s := by rw [hsts, getD_some]
  by_cases hsht : w.runCount < 8
  · have hrun : w.run = replicate w.runCount s := by rw [StatusWriter.run, hgetD]
    rw [hrun] at hhol
    obtain ⟨hv, hh, hwgt, hsame⟩ := fillVector_spec h.vector hs (by simp; omega) hhol
    have hend : w.backfill.endRun =
        { StatusWriter.fillVector s w.runCount w with runCount := 0, runStatus := none } := by
      rw [StatusWriter.backfill, if_pos hsht, hgetD, StatusWriter.endRun, if_neg (by simp)]
    rw [hend]
    refine ⟨_, ⟨{ hv with }, .inl ⟨rfl, rfl⟩, ?_⟩, rfl, rfl, ?_⟩
    · simp only [StatusWriter.run, replicate_zero, append_nil]
      exact { hh with }
    · simp only [StatusWriter.weight] at hwgt ⊢
      omega
  · have hput := Holds.putRun hhol hs hsts hcnt hfit
    have hend : w.backfill.endRun = { w.putRun with runCount := 0, runStatus := none } := by
      rw [StatusWriter.backfill, if_neg hsht, StatusWriter.endRun, if_pos (by omega)]
    rw [hend]
    refine ⟨[], ⟨{ h.vector with }, .inl ⟨rfl, rfl⟩, { hput with }⟩, rfl, rfl, ?_⟩
    simp only [StatusWriter.weight, StatusWriter.putRun, StatusWriter.put, length_append, length_singleton]
    omega

lemma appendNew_encodes (hs : s < 3) (hcnt : w.runCount = 0) (hsts : w.runStatus = none) :
    ∃ v', Encodes (w.appendNew s) v' (statuses ++ [s]) ∧ (w.appendNew s).weight = w.weight + 1 := by
  have hrun : w.run = [] := by rw [StatusWriter.run, hcnt, replicate_zero]
  have hhol := h.holds.append [s]
  rw [hrun, append_nil] at hhol
  have hbits := h.vector.bits
  rw [StatusWriter.appendNew]
  by_cases hfree : w.vectorBits = 14
  · obtain rfl : v = [] := eq_nil_of_length_eq_zero (by omega)
    rw [if_pos hfree]
    refine ⟨[], ⟨{ h.vector with }, .inr ⟨rfl, Nat.one_pos, (by decide : 1 < 2 ^ 13), s, hs, rfl⟩, { hhol with }⟩, ?_⟩
    simp only [StatusWriter.weight, hcnt]
    omega
  rw [if_neg hfree]
  obtain ⟨hv, hh, hwgt⟩ := statusVectorAppend_spec h.vector hs hhol
  refine ⟨_, ⟨hv, .inl ⟨by simp [hcnt], by simp [hsts]⟩, ?_⟩, hwgt⟩
  rwa [StatusWriter.run, statusVectorAppend_runCount, hcnt]

/-- Appending keeps what was written, unless the run in progress gets too long for its chunk. -/
lemma statusAppend_encodes (hs : s < 3) (hfit : w.runStatus = some s → w.runCount + 1 < 2 ^ 13) :
    ∃ v', Encodes (w.statusAppend s) v' (statuses ++ [s]) ∧ (w.statusAppend s).weight ≤ w.weight + 1 := by
  by_cases hsame : w.runStatus = some s
  · -- the run goes on
    rcases h.mode with ⟨_, hnone⟩ | ⟨rfl, hcnt, _⟩
    · simp [hnone] at hsame
    have hfit := hfit hsame
    have hh := h.holds.append [s]
    have hrun : [] ++ w.run ++ [s] = [] ++ replicate (w.runCount + 1) (w.runStatus.getD 0) := by
      rw [StatusWriter.run, hsame, getD_some, replicate_succ', append_assoc]
    rw [hrun] at hh
    rw [StatusWriter.statusAppend, if_neg (by simpa using hsame), mod_eq_of_lt (by omega)]
    refine ⟨[], ⟨{ h.vector with }, .inr ⟨rfl, succ_pos _, hfit, s, hs, hsame⟩, { hh with }⟩, ?_⟩
    simp only [StatusWriter.weight]
    omega
  · obtain ⟨v₁, h₁, hcnt, hsts, hle⟩ := endRun_encodes h
    obtain ⟨v₂, h₂, hwgt⟩ := appendNew_encodes h₁ hs hcnt hsts
    rw [StatusWriter.statusAppend, if_pos hsame]
    exact ⟨v₂, h₂, by omega⟩

/-- A run starts with one status, and goes on with that status only. -/
lemma statusAppend_run (s : ℕ) :
    w.runStatus = some s ∧ (w.statusAppend s).runStatus = some s ∧
        (w.statusAppend s).runCount = (w.runCount + 1) % 2 ^ 32 ∨
      w.runStatus ≠ some s ∧ ((w.statusAppend s).runStatus = none ∧ (w.statusAppend s).runCount = 0 ∨
        (w.statusAppend s).runStatus = some s ∧ (w.statusAppend s).runCount = 1) := by
  by_cases hsame : w.runStatus = some s
  · refine .inl ⟨hsame, ?_⟩
    rw [StatusWriter.statusAppend, if_neg (by simpa using hsame)]
    exact ⟨hsame, rfl⟩
  refine .inr ⟨hsame, ?_⟩
  obtain ⟨-, -, hcnt, hsts, -⟩ := endRun_encodes h
  rw [StatusWriter.statusAppend, if_pos hsame, StatusWriter.appendNew]
  split_ifs
  · exact .inr ⟨rfl, rfl⟩
  · exact .inl ⟨by simp [hsts], by simp [hcnt]⟩

lemma appendNew_growth (hcnt : w.runCount = 0) (hsts : w.runStatus = none) :
    (w.appendNew 0).weight + (w.appendNew 0).growth ≤ w.weight + w.growth := by
  have hbits := h.vector.bits
  have hroom := h.vector.room
  obtain ⟨-, -, hwgt⟩ := appendNew_encodes h (by decide : 0 < 3) hcnt hsts
  have hgrowth : w.growth = if w.vectorBits = 14 then 8 else w.vectorBits / 2 + 8 := by
    simp [StatusWriter.growth, hsts]
  rw [hwgt, hgrowth, StatusWriter.appendNew]
  by_cases hfree : w.vectorBits = 14
  · simp [hfree, StatusWriter.growth]
  rw [if_neg hfree, if_neg hfree, StatusWriter.growth, statusVectorAppend_runStatus, hsts, if_neg nofun,
    if_pos rfl, statusVectorAppend_vectorBits]
  split_ifs <;> omega

/-- Lost packets do not add more to the weight than they could before. -/
lemma statusAppend_growth (hfit : w.runStatus = some 0 → w.runCount + 1 < 2 ^ 13) :
    (w.statusAppend 0).weight + (w.statusAppend 0).growth ≤ w.weight + w.growth := by
  by_cases hsame : w.runStatus = some 0
  · have hlt := hfit hsame
    rw [StatusWriter.statusAppend, if_neg (by simpa using hsame)]
    simp only [StatusWriter.weight, StatusWriter.growth, hsame, if_true]
    omega
  obtain ⟨v', h', hcnt', hsts', hle⟩ := endRun_encodes h
  have hnew := appendNew_growth h' hcnt' hsts'
  rw [StatusWriter.statusAppend, if_pos hsame]
  rcases h.mode with ⟨hcnt, hsts⟩ | ⟨-, -, -, s, -, hsts⟩
  · rwa [endRun_of_none hcnt hsts] at hnew ⊢
  have hbits := h'.vector.bits
  have hgrowth : w.growth = 14 := by
    rw [StatusWriter.growth, if_neg hsame, if_neg (by simp [hsts])]
  have hgrowth' : w.backfill.endRun.growth ≤ 14 := by
    simp only [StatusWriter.growth, hsts', reduceCtorEq, if_false, if_true]
    split_ifs <;> omega
  omega

end

/-! ## The last chunk -/

lemma decodeStatuses_of_ne_nil (hchk : ∀ c ∈ chunks, chunkStatuses c ≠ [])
    (hn : n = (allStatuses chunks).length) :
    decodeStatuses n chunks = some (allStatuses chunks) := by
  subst hn
  rcases eq_nil_or_concat chunks with rfl | ⟨front, c, rfl⟩
  · rfl
  · simp only [concat_eq_append] at hchk ⊢
    have hpos := length_pos_iff.2 (hchk c (by simp))
    rw [decodeStatuses_concat (by simp; omega) le_rfl, take_length]

/-- The chunks of a packet are read as the statuses that were appended. -/
lemma flush_decode (h : Encodes w v statuses) : decodeStatuses statuses.length w.flush.chunks = some statuses := by
  have hbits := h.vector.bits
  have hroom := h.vector.room
  have hh := h.holds
  by_cases hfree : w.vectorBits = 14
  · obtain rfl : v = [] := eq_nil_of_length_eq_zero (by omega)
    have hfull : Holds w.flush [] statuses := by
      rcases h.mode with ⟨hcnt, _⟩ | ⟨_, hcnt, hfit, s, hs, hsts⟩
      · rw [StatusWriter.flush, if_neg (by simpa using hfree), if_neg (by simpa using hcnt)]
        rwa [StatusWriter.run, hcnt] at hh
      · rw [StatusWriter.flush, if_neg (by simpa using hfree), if_pos (by omega)]
        exact Holds.putRun hh hs hsts hcnt hfit
    have hall := hfull.exact
    rw [append_nil] at hall
    rw [decodeStatuses_of_ne_nil hfull.ne_nil (by rw [hall]), hall]
  have hcnt : w.runCount = 0 := by
    rcases h.mode with ⟨hcnt, _⟩ | ⟨rfl, _⟩
    · exact hcnt
    · exact absurd (by simpa using hbits) hfree
  have hne : v ≠ [] := by
    rintro rfl
    exact hfree (by simpa using hbits)
  rw [StatusWriter.run, hcnt, replicate_zero, append_nil] at hh
  -- the vector in progress is filled up with zeros, which are not read
  have hchu : chunkStatuses (w.vectorChunk % 65536) = v ++ replicate (7 - v.length) 0 := by
    rw [h.vector.chunk, show w.vectorBits = 14 - 2 * v.length by omega]
    exact chunkStatuses_padded hroom.le fun x hx => (h.vector.small x hx).trans (by decide)
  have hput : allStatuses (w.chunks ++ [w.vectorChunk % 65536]) = statuses ++ replicate (7 - v.length) 0 := by
    rw [allStatuses_concat, hchu, ← hh.exact, append_assoc]
  have hlen := congrArg List.length hh.exact
  have hpos := length_pos_iff.2 hne
  rw [length_append] at hlen
  rw [StatusWriter.flush, if_pos hfree, StatusWriter.put,
    decodeStatuses_concat (by omega) (by rw [hput, length_append]; omega), hput, take_left]

lemma flush_packetLen (w : StatusWriter) : w.flush.packetLen ≤ w.packetLen + 2 := by
  rw [StatusWriter.flush]
  split_ifs
  · exact le_rfl
  · exact le_rfl
  · exact le_add_right _ _

end Telephony.Rtp
