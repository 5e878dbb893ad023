import Telephony.Buffer.DataBuffer
import Telephony.Lib.SortedVector
import Telephony.Rtp.Nack
import Telephony.Rtp.StrictRtp

/-!
# Receiving packets

With a receive buffer, `ast_rtp_read` hands packets to `ast_rtp_interpret` in the order of their
sequence numbers: a packet that comes early waits in the buffer, and the numbers that it skipped are
listed as missing and asked for again.

A packet of the model has the unwrapped number that its sender counts; the code only sees its lowest
16 bits. `received` records the packets that came and `interpreted` what was given to
`ast_rtp_interpret`. Memory is never exhausted, and RTCP is on.
-/

namespace Telephony.Rtp

open Buffer Lib List Option Nat

/-! ## Data model -/

/-- A received packet. `media` is the media type of the frame that is made of it, if there is one.
Source: `ast_rtp_read` (`seqno`, `timestamp`), `ast_rtp_interpret` -/
structure RxPacket where
  number : ℕ
  timestamp : ℕ
  media : Option MediaType
  deriving DecidableEq, Repr

/-- Source: `ast_rtp_read` (`seqno &= 0xffff`) -/
def RxPacket.seqno (p : RxPacket) : ℕ := p.number % 65536

/-- What the receive path reads and writes. `nack` are the blocks of the negative acknowledgement
that the last packet caused.
Source: `struct ast_rtp` -/
structure RtpRecv where
  recvBuffer : DataBuffer RxPacket
  expectedrxseqno : ℤ
  missingSeqno : List ℕ
  lastrxseqno : ℕ
  lastividtimestamp : ℕ
  received : List RxPacket
  interpreted : List RxPacket
  nack : List ℕ
  deriving DecidableEq, Repr

def maximumRtpRecvBufferSize : ℕ := 40

def oldPacketCount : ℕ := 1000

def missingSeqnosAddedTrigger : ℕ := 2

/-- Source: `ast_rtp_new`, `ast_rtp_prop_set` (`DEFAULT_RTP_RECV_BUFFER_SIZE`) -/
def RtpRecv.start (lastrxseqno lastividtimestamp : ℕ) : RtpRecv :=
  { recvBuffer := DataBuffer.alloc 20
    expectedrxseqno := -1
    missingSeqno := []
    lastrxseqno
    lastividtimestamp
    received := []
    interpreted := []
    nack := [] }

/-! ## The receive path -/

/-- Give a packet to `ast_rtp_interpret`. A video frame leaves its timestamp behind.
Source: `ast_rtp_interpret` -/
def RtpRecv.interpret (rtp : RtpRecv) (p : RxPacket) : RtpRecv :=
  { rtp with
    lastividtimestamp := if p.media = some .video then p.timestamp else rtp.lastividtimestamp
    interpreted := rtp.interpreted ++ [p] }

/-- Whether the buffer is emptied for a packet. The difference of the numbers is unsigned.
Source: `ast_rtp_read` ("a large number of") -/
def RtpRecv.Dumps (rtp : RtpRecv) (p : RxPacket) : Prop :=
  100 < ((p.seqno : ℤ) - rtp.expectedrxseqno) % 2 ^ 32 ∧ rtp.lastividtimestamp < p.timestamp ∨
    rtp.recvBuffer.count = rtp.recvBuffer.max

instance (rtp : RtpRecv) (p : RxPacket) : Decidable (rtp.Dumps p) :=
  inferInstanceAs (Decidable (_ ∨ _))

/-- Whether a packet is taken for one of the last packets.
Source: `ast_rtp_read` ("Determine if the received") -/
def RtpRecv.IsOld (rtp : RtpRecv) (p : RxPacket) : Prop :=
  (p.seqno : ℤ) < rtp.expectedrxseqno ∧ rtp.expectedrxseqno - p.seqno ≤ oldPacketCount ∨
    rtp.expectedrxseqno < p.seqno ∧ 65535 - oldPacketCount + rtp.expectedrxseqno ≤ p.seqno

instance (rtp : RtpRecv) (p : RxPacket) : Decidable (rtp.IsOld p) :=
  inferInstanceAs (Decidable (_ ∨ _))

/-- Source: `ast_rtp_read` ("Add any additional packets") -/
def pullStep (rtp : RtpRecv) : Option (RtpRecv ⊕ RtpRecv) :=
  if rtp.recvBuffer.count = 0 then some (.inr rtp)
  else
    match rtp.recvBuffer.remove rtp.expectedrxseqno.toNat with
    | (none, _) => some (.inr rtp)
    | (some q, recvBuffer) =>
      some (.inl
        { { rtp with recvBuffer }.interpret q with
          expectedrxseqno := seqnoAfter rtp.expectedrxseqno })

/-- Source: `ast_rtp_read` (`seqno == rtp->expectedrxseqno`) -/
def RtpRecv.readExpected (rtp : RtpRecv) (p : RxPacket) : Option RtpRecv :=
  let rtp := { rtp with expectedrxseqno := seqnoAfter p.seqno }
  if rtp.recvBuffer.count = 0 then some (rtp.interpret p)
  else
    let rtp := { rtp with missingSeqno := rtp.missingSeqno.erase p.seqno }
    if (rtp.recvBuffer.get rtp.expectedrxseqno.toNat).isNone then some (rtp.interpret p)
    else iterate pullStep (rtp.recvBuffer.count + 1) (rtp.interpret p)

/-- Source: `ast_rtp_read` ("going through the progression") -/
def dumpStep (p : RxPacket) (s : RtpRecv × Bool) : Option (RtpRecv × Bool ⊕ RtpRecv × Bool) :=
  let rtp := s.1
  if rtp.recvBuffer.count = 0 then some (.inr s)
  else if rtp.expectedrxseqno = p.seqno then
    -- the packet may be in the buffer too
    some (.inl
      ({ rtp.interpret p with
          recvBuffer := (rtp.recvBuffer.remove p.seqno).2
          expectedrxseqno := seqnoAfter rtp.expectedrxseqno }, true))
  else
    match rtp.recvBuffer.remove rtp.expectedrxseqno.toNat with
    | (none, _) => some (.inl ({ rtp with expectedrxseqno := seqnoAfter rtp.expectedrxseqno }, s.2))
    | (some q, recvBuffer) =>
      some (.inl
        ({ { rtp with recvBuffer }.interpret q with
            expectedrxseqno := seqnoAfter rtp.expectedrxseqno }, s.2))

/-- What follows when the buffer is empty: the packet itself if it comes last, a larger buffer, and
no missing packets.
Source: `ast_rtp_read` ("if (!inserted)", "When we flush increase") -/
def RtpRecv.afterDump (rtp : RtpRecv) (p : RxPacket) (inserted : Bool) : RtpRecv :=
  let rtp :=
    if inserted then rtp else { rtp.interpret p with expectedrxseqno := seqnoAfter p.seqno }
  { rtp with
    recvBuffer := rtp.recvBuffer.resize (min maximumRtpRecvBufferSize (rtp.recvBuffer.max + rtp.missingSeqno.length))
    missingSeqno := [] }

/-- Empty the buffer. It takes at most one cycle of the numbers.
Source: `ast_rtp_read` -/
def RtpRecv.readDump (rtp : RtpRecv) (p : RxPacket) : Option RtpRecv :=
  (iterate (dumpStep p) (seqnoCycleOver + 1) (rtp, false)).map fun s => s.1.afterDump p s.2

/-- Source: `compare_by_value` -/
def compareByValue (a b : ℕ) : ℤ := (a : ℤ) - b

/-- One round of listing missing numbers, backwards from a number. The state is `missing_seqno`, the
vector and `missing_seqnos_added`.
Source: `ast_rtp_read` ("going backwards until we") -/
def missingStep (recvBuffer : DataBuffer RxPacket) (prevSeqno : ℕ) (s : ℕ × List ℕ × ℕ) :
    Option (ℕ × List ℕ × ℕ ⊕ List ℕ × ℕ) :=
  let n := if s.1 = 0 then 65535 else s.1 - 1
  if n = prevSeqno then some (.inr s.2)
  else if n ∈ s.2.1 then some (.inl (n, s.2))
  else if (recvBuffer.get n).isSome then some (.inl (n, s.2))
  else some (.inl (n, addSorted compareByValue n s.2.1, s.2.2 + 1))

/-- Source: `ast_rtp_read` ("When we add a") -/
def RtpRecv.sendNack (rtp : RtpRecv) (missingSeqnosAdded : ℕ) : Option RtpRecv :=
  if missingSeqnosAddedTrigger ≤ missingSeqnosAdded ∨
      rtp.recvBuffer.count = rtp.recvBuffer.max / 4 ∨ rtp.recvBuffer.max / 2 ≤ rtp.recvBuffer.count then
    (rtcpGenerateNack rtp.expectedrxseqno rtp.missingSeqno).map fun nack => { rtp with nack }
  else some rtp

/-- Source: `ast_rtp_read` (`remove_failed`) -/
def RtpRecv.listMissing (rtp : RtpRecv) (prevSeqno : ℕ) (p : RxPacket) : Option (List ℕ × ℕ) :=
  if p.seqno ∈ rtp.missingSeqno then some (rtp.missingSeqno.erase p.seqno, 0)
  else iterate (missingStep rtp.recvBuffer prevSeqno) (seqnoCycleOver + 1) (p.seqno, rtp.missingSeqno, 0)

/-- Source: `ast_rtp_read` ("This is an out") -/
def RtpRecv.readFuture (rtp : RtpRecv) (prevSeqno : ℕ) (p : RxPacket) : Option RtpRecv :=
  (rtp.recvBuffer.put p.seqno p).bind fun put =>
    let rtp := { rtp with recvBuffer := put.2 }
    (rtp.listMissing prevSeqno p).bind fun missing =>
      { rtp with missingSeqno := missing.1 }.sendNack missing.2

def rtpRead (rtp : RtpRecv) (p : RxPacket) : Option RtpRecv :=
  let prevSeqno := rtp.lastrxseqno
  let rtp := { rtp with lastrxseqno := p.seqno, received := rtp.received ++ [p], nack := [] }
  if rtp.expectedrxseqno = -1 ∨ (p.seqno : ℤ) = rtp.expectedrxseqno then rtp.readExpected p
  else if rtp.Dumps p then rtp.readDump p
  else if rtp.IsOld p then some rtp
  else if (rtp.recvBuffer.get p.seqno).isSome then some rtp
  else rtp.readFuture prevSeqno p

def rtpReadRun (ps : List RxPacket) (rtp : RtpRecv) : Option RtpRecv := ps.foldlM rtpRead rtp

def RtpRecv.handedUp (rtp : RtpRecv) : List RxPacket := rtp.interpreted.filter fun p => p.media.isSome

def RtpRecv.next (rtp : RtpRecv) : ℕ := (rtp.interpreted.getLast?.map fun p => p.number + 1).getD 0

/-! ## Sequence numbers -/

lemma seqno_lt (p : RxPacket) : p.seqno < 65536 := mod_lt _ (by decide)

lemma seqnoAfter_mod (n : ℕ) : seqnoAfter ((n % 65536 : ℕ) : ℤ) = (((n + 1) % 65536 : ℕ) : ℤ) := by
  unfold seqnoAfter seqnoCycleOver
  split_ifs <;> omega

lemma eq_of_mod_eq {E a b : ℕ} (ha : E ≤ a ∧ a < E + 65536) (hb : E ≤ b ∧ b < E + 65536)
    (h : a % 65536 = b % 65536) : a = b := by
  omega

/-! ## The packets that wait -/

def RtpRecv.held (rtp : RtpRecv) : List RxPacket := rtp.recvBuffer.payloads.map Prod.snd

lemma mem_held_of_position {rtp : RtpRecv} {q : RxPacket} (h : ∀ e ∈ rtp.recvBuffer.payloads, e.1 = e.2.seqno) :
    q ∈ rtp.held ↔ (q.seqno, q) ∈ rtp.recvBuffer.payloads := by
  constructor
  · intro hq
    obtain ⟨e, he, rfl⟩ := mem_map.mp hq
    rwa [← h e he]
  · intro hq
    exact mem_map_of_mem hq

structure InWindow (rtp : RtpRecv) (E : ℕ) : Prop where
  valid : rtp.recvBuffer.Valid
  max_pos : 0 < rtp.recvBuffer.max
  max_le : rtp.recvBuffer.max ≤ maximumRtpRecvBufferSize
  expected : rtp.expectedrxseqno = ((E % 65536 : ℕ) : ℤ)
  position : ∀ e ∈ rtp.recvBuffer.payloads, e.1 = e.2.seqno
  window : ∀ q ∈ rtp.held, E ≤ q.number ∧ q.number < E + 65536
  before : ∀ q ∈ rtp.interpreted, q.number < E
  order : rtp.interpreted.Pairwise fun p q => p.number < q.number

section Window

variable {rtp : RtpRecv} {E n : ℕ}

section

variable (h : InWindow rtp E) {q : RxPacket}
include h

lemma InWindow.max_lt : rtp.recvBuffer.max < 2 ^ 32 :=
  h.max_le.trans_lt (by decide)

lemma InWindow.mem_held : q ∈ rtp.held ↔ (q.seqno, q) ∈ rtp.recvBuffer.payloads := mem_held_of_position h.position

lemma InWindow.count_eq_zero : rtp.recvBuffer.count = 0 ↔ rtp.held = [] := by
  rw [← h.valid.count_eq, length_eq_zero_iff, RtpRecv.held, map_eq_nil_iff]

lemma InWindow.get_eq_some (hn : E ≤ n ∧ n < E + 65536)
    (hget : rtp.recvBuffer.get (n % 65536) = some q) : q ∈ rtp.held ∧ q.number = n := by
  obtain ⟨e, hfind, rfl⟩ := map_eq_some_iff.mp hget
  have hmem := mem_of_find?_eq_some hfind
  have hpos : e.1 = n % 65536 := by simpa using find?_some hfind
  have hheld : e.2 ∈ rtp.held := mem_map_of_mem hmem
  refine ⟨hheld, eq_of_mod_eq (h.window _ hheld) hn ?_⟩
  rw [← hpos, h.position e hmem, RxPacket.seqno]

lemma InWindow.get_eq_none (hget : rtp.recvBuffer.get (n % 65536) = none) (hq : q ∈ rtp.held) : q.number ≠ n := by
  rintro rfl
  have hnone := find?_eq_none.mp (map_eq_none_iff.mp hget) _ (h.mem_held.mp hq)
  simp [RxPacket.seqno] at hnone

end

end Window

lemma mem_eraseP_increasing {β : Type} {l : List (ℕ × β)} (h : Increasing l) (pos : ℕ) (e : ℕ × β) :
    e ∈ l.eraseP (fun e => e.1 = pos) ↔ e ∈ l ∧ e.1 ≠ pos := by
  induction l with
  | nil => simp
  | cons a l ih =>
    obtain ⟨hhead, htail⟩ := pairwise_cons.mp h
    by_cases ha : a.1 = pos
    · have hne : e ∈ l → e.1 ≠ pos := fun he => ha ▸ (hhead e he).ne'
      rw [eraseP_cons_of_pos (by simpa using ha), mem_cons]
      grind
    · rw [eraseP_cons_of_neg (by simpa using ha), mem_cons, mem_cons, ih htail]
      grind

structure SameRecv (rtp rtp' : RtpRecv) : Prop where
  missingSeqno : rtp'.missingSeqno = rtp.missingSeqno
  lastrxseqno : rtp'.lastrxseqno = rtp.lastrxseqno
  received : rtp'.received = rtp.received
  nack : rtp'.nack = rtp.nack
  max : rtp'.recvBuffer.max = rtp.recvBuffer.max

lemma SameRecv.refl (rtp : RtpRecv) : SameRecv rtp rtp := ⟨rfl, rfl, rfl, rfl, rfl⟩

lemma SameRecv.trans {r₁ r₂ r₃ : RtpRecv} (h : SameRecv r₁ r₂) (h' : SameRecv r₂ r₃) : SameRecv r₁ r₃ :=
  ⟨h'.missingSeqno.trans h.missingSeqno, h'.lastrxseqno.trans h.lastrxseqno,
    h'.received.trans h.received, h'.nack.trans h.nack, h'.max.trans h.max⟩

section Steps

variable {rtp : RtpRecv} {E n : ℕ}

section

variable (h : InWindow rtp E)
include h

lemma InWindow.hand_up {p : RxPacket} (hp : E ≤ p.number) :
    (∀ q ∈ rtp.interpreted ++ [p], q.number < p.number + 1) ∧
      (rtp.interpreted ++ [p]).Pairwise fun p q => p.number < q.number := by
  refine ⟨forall_mem_append.mpr ⟨fun q hq => ?_, by simp⟩,
    pairwise_append.mpr ⟨h.order, pairwise_singleton _ _, fun a ha => forall_mem_singleton.mpr ?_⟩⟩
  · exact ((h.before q hq).trans_le hp).trans (lt_succ_self _)
  · exact (h.before a ha).trans_le hp

lemma InWindow.advance {p : RxPacket} (hp : p.number = E) : let rtp' : RtpRecv :=
      { rtp.interpret p with
        recvBuffer := (rtp.recvBuffer.remove (E % 65536)).2
        expectedrxseqno := seqnoAfter rtp.expectedrxseqno }
    InWindow rtp' (E + 1) ∧ SameRecv rtp rtp' ∧ rtp'.interpreted = rtp.interpreted ++ [p] ∧
      ∀ q, q ∈ rtp'.held ↔ q ∈ rtp.held ∧ q.number ≠ E := by
  obtain ⟨hval, hmax, -, hlist⟩ := h.valid.remove h.max_lt (E % 65536)
  intro rtp'
  have hent : ∀ e, e ∈ rtp'.recvBuffer.payloads ↔ e ∈ rtp.recvBuffer.payloads ∧ e.1 ≠ E % 65536 := by
    intro e
    rw [← mem_eraseP_increasing h.valid.increasing, ← hlist]
  have hposition : ∀ e ∈ rtp'.recvBuffer.payloads, e.1 = e.2.seqno :=
    fun e he => h.position e ((hent e).mp he).1
  have hheld : ∀ q, q ∈ rtp'.held ↔ q ∈ rtp.held ∧ q.number ≠ E := by
    intro q
    rw [mem_held_of_position hposition, hent, ← h.mem_held]
    refine and_congr_right fun hq => not_congr ⟨fun hpos => ?_, fun hnum => by rw [RxPacket.seqno, hnum]⟩
    exact eq_of_mod_eq (h.window q hq) ⟨le_rfl, by omega⟩ hpos
  obtain ⟨hbefore, horder⟩ := h.hand_up hp.ge
  rw [hp] at hbefore
  refine ⟨⟨hval, hmax.symm ▸ h.max_pos, hmax.symm ▸ h.max_le, ?_, hposition, fun q hq => ?_, hbefore, horder⟩,
    ⟨rfl, rfl, rfl, rfl, hmax⟩, rfl, hheld⟩
  · change seqnoAfter rtp.expectedrxseqno = _
    rw [h.expected, seqnoAfter_mod]
  · obtain ⟨hmem, hne⟩ := (hheld q).mp hq
    have := h.window q hmem
    omega

lemma InWindow.skip (hE : ∀ q ∈ rtp.held, q.number ≠ E) :
    InWindow { rtp with expectedrxseqno := seqnoAfter rtp.expectedrxseqno } (E + 1) := by
  refine { h with expected := ?_, window := fun q hq => ?_, before := fun q hq => lt_succ_of_lt (h.before q hq) }
  · rw [h.expected, seqnoAfter_mod]
  · have hwin := h.window q hq
    have hne := hE q hq
    omega

lemma InWindow.accept {p : RxPacket} (hp : E ≤ p.number)
    (hheld : ∀ q ∈ rtp.held, p.number < q.number) (missingSeqno : List ℕ) :
    InWindow { rtp.interpret p with expectedrxseqno := seqnoAfter p.seqno, missingSeqno } (p.number + 1) := by
  obtain ⟨hbefore, horder⟩ := h.hand_up hp
  refine ⟨h.valid, h.max_pos, h.max_le, seqnoAfter_mod _, h.position, fun q hq => ?_, hbefore, horder⟩
  have hwin := h.window q hq
  have hlt := hheld q hq
  omega

/-- The buffer grows when it was emptied, and keeps what is in it. -/
lemma InWindow.enlarge : let rtp' : RtpRecv :=
      { rtp with
        recvBuffer :=
          rtp.recvBuffer.resize (min maximumRtpRecvBufferSize (rtp.recvBuffer.max + rtp.missingSeqno.length))
        missingSeqno := [] }
    InWindow rtp' E ∧ rtp'.held = rtp.held := by
  have hforty : maximumRtpRecvBufferSize = 40 := rfl
  have hmax := h.max_le
  have hpos := h.max_pos
  obtain ⟨hval, hsize, hkeep⟩ := h.valid.resize h.max_lt
    (show min maximumRtpRecvBufferSize (rtp.recvBuffer.max + rtp.missingSeqno.length) < 2 ^ 32 by omega)
  have hkeep := hkeep (by omega)
  simp only [RtpRecv.held, hkeep, and_true]
  refine ⟨hval, ?_, ?_, h.expected, hkeep.symm ▸ h.position, ?_, h.before, h.order⟩
  · simp only [hsize]
    omega
  · simp only [hsize]
    omega
  · simp only [RtpRecv.held, hkeep]
    exact h.window

lemma InWindow.count_remove {q : RxPacket} (hget : rtp.recvBuffer.get n = some q) :
    (rtp.recvBuffer.remove n).2.count + 1 = rtp.recvBuffer.count := by
  obtain ⟨hval, -, -, hlist⟩ := h.valid.remove h.max_lt n
  obtain ⟨e, hfind, -⟩ := map_eq_some_iff.mp hget
  have hmem := mem_of_find?_eq_some hfind
  have hlen := length_eraseP_of_mem hmem (find?_some hfind)
  have hpos := length_pos_of_mem hmem
  rw [← hval.count_eq, ← h.valid.count_eq, hlist]
  omega

end

end Steps

lemma next_of_interpreted {rtp : RtpRecv} {l : List RxPacket} {p : RxPacket}
    (h : rtp.interpreted = l ++ [p]) : rtp.next = p.number + 1 := by
  simp [RtpRecv.next, h]

lemma next_eq_zero {rtp : RtpRecv} : rtp.next = 0 ↔ rtp.interpreted = [] := by
  rw [RtpRecv.next, ← getLast?_eq_none_iff]
  cases rtp.interpreted.getLast? <;> simp

/-! ## The loops -/

structure Pulled (rtp : RtpRecv) (E : ℕ) (rtp' : RtpRecv) (E' : ℕ) : Prop where
  window : InWindow rtp' E'
  same : SameRecv rtp rtp'
  le : E ≤ E'
  next : rtp'.next = E'
  held : ∀ q, q ∈ rtp'.held ↔ q ∈ rtp.held ∧ E' ≤ q.number
  waits : ∀ q ∈ rtp'.held, q.number ≠ E'
  pulled : ∀ n, E ≤ n → n < E' → ∃ q ∈ rtp.held, q.number = n

section Loops

variable {rtp : RtpRecv} {E : ℕ}

lemma Pulled.refl (h : InWindow rtp E) (hnext : rtp.next = E) (hE : ∀ q ∈ rtp.held, q.number ≠ E) :
    Pulled rtp E rtp E :=
  ⟨h, SameRecv.refl rtp, le_rfl, hnext, fun q => ⟨fun hq => ⟨hq, (h.window q hq).1⟩, And.left⟩, hE,
    fun n hle hlt => by omega⟩

/-- **Handing up what waits.** Induction on the rounds; each takes a packet out of the buffer. -/
lemma iterate_pullStep (fuel : ℕ) (h : InWindow rtp E) (hnext : rtp.next = E)
    (hfuel : rtp.recvBuffer.count < fuel) :
    ∃ rtp' E', iterate pullStep fuel rtp = some rtp' ∧ Pulled rtp E rtp' E' := by
  induction fuel generalizing rtp E with
  | zero => omega
  | succ fuel ih =>
    by_cases hcnt : rtp.recvBuffer.count = 0
    · have hemp := h.count_eq_zero.mp hcnt
      refine ⟨rtp, E, iterate_done (by rw [pullStep, if_pos hcnt]) fuel, Pulled.refl h hnext ?_⟩
      simp [hemp]
    have hpos : rtp.expectedrxseqno.toNat = E % 65536 := by rw [h.expected, Int.toNat_natCast]
    have hrem := (h.valid.remove h.max_lt (E % 65536)).2.2.1
    cases hget : rtp.recvBuffer.get (E % 65536) with
    | none =>
      have hstep : pullStep rtp = some (.inr rtp) := by
        rw [pullStep, if_neg hcnt, hpos, ← Prod.mk.eta (p := rtp.recvBuffer.remove _), hrem, hget]
      exact ⟨rtp, E, iterate_done hstep fuel, Pulled.refl h hnext fun q hq => h.get_eq_none hget hq⟩
    | some q =>
      obtain ⟨hq, hnum⟩ := h.get_eq_some ⟨le_rfl, by omega⟩ hget
      obtain ⟨hwin, hsame, hint, hheld⟩ := h.advance hnum
      have hstep : pullStep rtp = some (.inl
          { rtp.interpret q with
            recvBuffer := (rtp.recvBuffer.remove (E % 65536)).2
            expectedrxseqno := seqnoAfter rtp.expectedrxseqno }) := by
        rw [pullStep, if_neg hcnt, hpos, ← Prod.mk.eta (p := rtp.recvBuffer.remove _), hrem, hget]
        rfl
      have hless := h.count_remove hget
      obtain ⟨rtp', E', hrun, hpul⟩ := ih hwin (by rw [next_of_interpreted hint, hnum]) (by simp only; omega)
      refine ⟨rtp', E', by rw [iterate_next hstep, hrun], hpul.window, hsame.trans hpul.same, ?_,
        hpul.next, fun x => ?_, hpul.waits, fun n hle hlt => ?_⟩
      · have := hpul.le
        omega
      · rw [hpul.held, hheld]
        have := hpul.le
        constructor
        · rintro ⟨⟨hx, -⟩, hle⟩
          exact ⟨hx, hle⟩
        · rintro ⟨hx, hle⟩
          exact ⟨⟨hx, by omega⟩, hle⟩
      · rcases hle.eq_or_lt with rfl | hmore
        · exact ⟨q, hq, hnum⟩
        · obtain ⟨x, hx, hxn⟩ := hpul.pulled n hmore hlt
          exact ⟨x, ((hheld x).mp hx).1, hxn⟩

lemma readExpected_spec (h : InWindow rtp E) {p : RxPacket} (hp : p.number = E)
    (hE : ∀ q ∈ rtp.held, q.number ≠ E) :
    ∃ rtp' E', rtp.readExpected p = some rtp' ∧
      Pulled
        { rtp.interpret p with
          expectedrxseqno := seqnoAfter p.seqno
          missingSeqno :=
            if rtp.recvBuffer.count = 0 then rtp.missingSeqno else rtp.missingSeqno.erase p.seqno }
        (E + 1) rtp' E' := by
  have hlat : ∀ q ∈ rtp.held, p.number < q.number := by
    intro q hq
    have hwin := h.window q hq
    have hne := hE q hq
    omega
  have hacp := h.accept hp.ge hlat
  rw [hp] at hacp
  unfold RtpRecv.readExpected
  by_cases hcnt : rtp.recvBuffer.count = 0
  · simp only [if_pos hcnt]
    have hemp := h.count_eq_zero.mp hcnt
    refine ⟨_, E + 1, rfl, Pulled.refl (hacp _) (by rw [next_of_interpreted rfl, hp]) ?_⟩
    exact fun q hq => absurd (show q ∈ rtp.held from hq) (by simp [hemp])
  simp only [if_neg hcnt]
  have haft : (seqnoAfter p.seqno).toNat = (E + 1) % 65536 := by
    rw [RxPacket.seqno, seqnoAfter_mod, hp, Int.toNat_natCast]
  rw [haft]
  cases hget : rtp.recvBuffer.get ((E + 1) % 65536) with
  | none =>
    refine ⟨_, E + 1, rfl, Pulled.refl (hacp _) (by rw [next_of_interpreted rfl, hp]) ?_⟩
    exact fun q hq => h.get_eq_none hget hq
  | some q =>
    exact iterate_pullStep _ (hacp _) (by rw [next_of_interpreted rfl, hp]) (lt_succ_self _)

/-- The buffer is empty, and the packet was handed up or comes after all of it. -/
def DumpedTo (rtp : RtpRecv) (E : ℕ) (p : RxPacket) (rtp' : RtpRecv) (inserted' : Bool) (E' : ℕ) : Prop :=
  InWindow rtp' E' ∧ SameRecv rtp rtp' ∧ rtp'.held = [] ∧ rtp'.next = E' ∧ E ≤ E' ∧
    (∀ q ∈ rtp.held, q.number < E') ∧ (if inserted' then p.number < E' else E' ≤ p.number)

lemma dumpStep_next (h : InWindow rtp E) {p : RxPacket} {inserted : Bool}
    (hcnt : rtp.recvBuffer.count ≠ 0)
    (hp : if inserted then p.number < E ∧ E < p.number + 65536 else E ≤ p.number ∧ p.number < E + 65536) :
    ∃ rtp', dumpStep p (rtp, inserted) = some (.inl (rtp', inserted || decide (p.number = E))) ∧
      InWindow rtp' (E + 1) ∧ SameRecv rtp rtp' ∧
      (∀ q, q ∈ rtp'.held ↔ q ∈ rtp.held ∧ q.number ≠ E) ∧
      (rtp'.held = [] → rtp'.next = E + 1) := by
  have hpos : rtp.expectedrxseqno.toNat = E % 65536 := by rw [h.expected, Int.toNat_natCast]
  have hrem := (h.valid.remove h.max_lt (E % 65536)).2.2.1
  unfold dumpStep
  simp only [if_neg hcnt]
  by_cases hhere : p.number = E
  · have heq : rtp.expectedrxseqno = p.seqno := by rw [h.expected, RxPacket.seqno, hhere]
    obtain ⟨hwin, hsame, hint, hheld⟩ := h.advance hhere
    rw [if_pos heq, show p.seqno = E % 65536 by rw [RxPacket.seqno, hhere], decide_eq_true hhere, Bool.or_true]
    exact ⟨_, rfl, hwin, hsame, hheld, fun _ => by rw [next_of_interpreted hint, hhere]⟩
  have hne : rtp.expectedrxseqno ≠ p.seqno := by
    rw [RxPacket.seqno]
    split_ifs at hp <;> omega
  rw [if_neg hne, decide_eq_false hhere, Bool.or_false, hpos, ← Prod.mk.eta (p := rtp.recvBuffer.remove _), hrem]
  cases hget : rtp.recvBuffer.get (E % 65536) with
  | none =>
    have hE : ∀ q ∈ rtp.held, q.number ≠ E := fun q hq => h.get_eq_none hget hq
    refine ⟨_, rfl, h.skip hE, ⟨rfl, rfl, rfl, rfl, rfl⟩, fun q => ⟨fun hq => ⟨hq, hE q hq⟩, And.left⟩, ?_⟩
    intro hemp
    exact absurd (h.count_eq_zero.mpr hemp) hcnt
  | some q =>
    obtain ⟨-, hnum⟩ := h.get_eq_some ⟨le_rfl, by omega⟩ hget
    obtain ⟨hwin, hsame, hint, hheld⟩ := h.advance hnum
    exact ⟨_, rfl, hwin, hsame, hheld, fun _ => (next_of_interpreted hint).trans (by rw [hnum])⟩

lemma dumped_out {p : RxPacket} {inserted : Bool} (h : InWindow rtp E) (hnext : rtp.held = [] → rtp.next = E)
    (hemp : rtp.held = []) (hp : if inserted then p.number < E else E ≤ p.number ∧ p.number < E + 65536) (k : ℕ) :
    ∃ rtp' inserted' E', iterate (dumpStep p) (k + 1) (rtp, inserted) = some (rtp', inserted') ∧
      DumpedTo rtp E p rtp' inserted' E' := by
  refine ⟨rtp, inserted, E, iterate_done ?_ k, h, SameRecv.refl rtp, hemp, hnext hemp, le_rfl, by simp [hemp], ?_⟩
  · simp [dumpStep, if_pos (h.count_eq_zero.mpr hemp)]
  · split_ifs at hp ⊢ <;> omega

/-- **Emptying the buffer.** Induction on the numbers that are left in it, at most a cycle. -/
lemma iterate_dumpStep (k : ℕ) {p : RxPacket} {inserted : Bool} (h : InWindow rtp E)
    (hnext : rtp.held = [] → rtp.next = E) (hk : ∀ q ∈ rtp.held, q.number < E + k)
    (hcycle : E + k ≤ p.number + 65536)
    (hp : if inserted then p.number < E else E ≤ p.number ∧ p.number < E + 65536) :
    ∃ rtp' inserted' E', iterate (dumpStep p) (k + 1) (rtp, inserted) = some (rtp', inserted') ∧
      DumpedTo rtp E p rtp' inserted' E' := by
  induction k generalizing rtp E inserted with
  | zero =>
    refine dumped_out h hnext (eq_nil_iff_forall_not_mem.mpr fun q hq => ?_) hp 0
    have hwin := h.window q hq
    have hlt := hk q hq
    omega
  | succ k ih =>
    by_cases hcnt : rtp.recvBuffer.count = 0
    · exact dumped_out h hnext (h.count_eq_zero.mp hcnt) hp _
    have hp' : if inserted then p.number < E ∧ E < p.number + 65536 else E ≤ p.number ∧ p.number < E + 65536 := by
      split_ifs at hp ⊢ <;> omega
    obtain ⟨rtp₁, hstep, hwin, hsame, hheld, hlast⟩ := dumpStep_next h hcnt hp'
    have hk₁ : ∀ q ∈ rtp₁.held, q.number < E + 1 + k := by
      intro q hq
      have := hk q ((hheld q).mp hq).1
      omega
    have hp₁ : if inserted || decide (p.number = E) then p.number < E + 1
        else E + 1 ≤ p.number ∧ p.number < E + 1 + 65536 := by
      cases inserted with
      | true => exact lt_succ_of_lt hp
      | false =>
        by_cases hhere : p.number = E
        · rw [decide_eq_true hhere]
          exact hhere.le.trans_lt (lt_succ_self E)
        rw [decide_eq_false hhere]
        obtain ⟨hle, hlt⟩ : E ≤ p.number ∧ p.number < E + 65536 := hp
        exact ⟨by omega, by omega⟩
    obtain ⟨rtp', inserted', E', hrun, hwin', hsame', hemp, hnext', hle, hall, hside⟩ :=
      ih hwin hlast hk₁ (by omega) hp₁
    refine ⟨rtp', inserted', E', by rw [iterate_next hstep, hrun], hwin', hsame.trans hsame', hemp,
      hnext', by omega, fun q hq => ?_, hside⟩
    by_cases hq' : q.number = E
    · omega
    · exact hall q ((hheld q).mpr ⟨hq, hq'⟩)

lemma readDump_spec (h : InWindow rtp E) (hnext : rtp.next = E) {p : RxPacket} (hle : E ≤ p.number)
    (hlt : p.number < E + 65536) :
    ∃ rtp' E', rtp.readDump p = some rtp' ∧ InWindow rtp' E' ∧ rtp'.next = E' ∧ rtp'.held = [] ∧
      rtp'.missingSeqno = [] ∧ rtp'.lastrxseqno = rtp.lastrxseqno ∧ rtp'.received = rtp.received ∧
      rtp'.nack = rtp.nack ∧ p.number < E' ∧ ∀ q ∈ rtp.held, q.number < E' := by
  obtain ⟨rtp₁, inserted, E₁, hloop, hwin, hsame, hemp, hnext₁, hle₁, hall, hside⟩ :=
    @iterate_dumpStep rtp E 65536 p false h (fun _ => hnext) (fun q hq => (h.window q hq).2) (by omega)
      ⟨hle, hlt⟩
  rw [RtpRecv.readDump, show seqnoCycleOver + 1 = 65536 + 1 from rfl, hloop, map_some]
  -- the packet is handed up, if it was not before
  cases inserted with
  | true =>
    obtain ⟨hwin', hheld⟩ := hwin.enlarge
    exact ⟨_, E₁, rfl, hwin', hnext₁, hheld.trans hemp, rfl, hsame.lastrxseqno, hsame.received, hsame.nack,
      hside, hall⟩
  | false =>
    have hbef : E₁ ≤ p.number := hside
    obtain ⟨hwin', hheld⟩ := (hwin.accept hbef (by simp [hemp]) _).enlarge
    exact ⟨_, p.number + 1, rfl, hwin', next_of_interpreted rfl, hheld.trans hemp, rfl, hsame.lastrxseqno,
      hsame.received, hsame.nack, lt_succ_self _, fun q hq => (hall q hq).trans_le (le_succ_of_le hbef)⟩

end Loops

/-! ## Listing missing numbers -/

/-- **Listing the numbers between two packets.** Those are added that neither wait nor are listed
yet. Induction on how many numbers are left. -/
lemma iterate_missingStep {recvBuffer : DataBuffer RxPacket} {prevSeqno : ℕ} (hprev : prevSeqno < 65536)
    (d : ℕ) (hd : d < 65536) (vec : List ℕ) (added : ℕ) (hvec : vec.Nodup) :
    ∃ vec' added', iterate (missingStep recvBuffer prevSeqno) (d + 1)
        ((prevSeqno + 1 + d) % 65536, vec, added) = some (vec', added') ∧ vec'.Nodup ∧
      ∀ x, x ∈ vec' ↔ x ∈ vec ∨ ∃ i, 1 ≤ i ∧ i ≤ d ∧ x = (prevSeqno + i) % 65536 ∧ recvBuffer.get x = none := by
  induction d generalizing vec added with
  | zero =>
    have hhit : (if (prevSeqno + 1 + 0) % 65536 = 0 then 65535 else (prevSeqno + 1 + 0) % 65536 - 1) = prevSeqno := by
      split_ifs <;> omega
    refine ⟨vec, added, iterate_done (by simp [missingStep, hhit]) 0, hvec, fun x => ?_⟩
    constructor
    · exact .inl
    · rintro (hx | ⟨i, hlow, hhigh, -⟩)
      · exact hx
      · omega
  | succ d ih =>
    have hn : (if (prevSeqno + 1 + (d + 1)) % 65536 = 0 then 65535
        else (prevSeqno + 1 + (d + 1)) % 65536 - 1) = (prevSeqno + 1 + d) % 65536 := by
      split_ifs <;> omega
    have hne : (prevSeqno + 1 + d) % 65536 ≠ prevSeqno := by omega
    -- the number of this round is listed afterwards, unless it waits
    obtain ⟨vec₁, added₁, hstep, hvec₁, hmem₁⟩ : ∃ vec₁ added₁,
        missingStep recvBuffer prevSeqno ((prevSeqno + 1 + (d + 1)) % 65536, vec, added) =
          some (.inl ((prevSeqno + 1 + d) % 65536, vec₁, added₁)) ∧ vec₁.Nodup ∧
        ∀ x, x ∈ vec₁ ↔ x ∈ vec ∨ x = (prevSeqno + 1 + d) % 65536 ∧ recvBuffer.get x = none := by
      simp only [missingStep, hn, if_neg hne]
      split_ifs with hlst hget
      · exact ⟨vec, added, rfl, hvec, by grind⟩
      · exact ⟨vec, added, rfl, hvec, by grind⟩
      · have hperm := addSorted_perm compareByValue ((prevSeqno + 1 + d) % 65536) vec
        refine ⟨_, _, rfl, hperm.nodup_iff.mpr (nodup_cons.mpr ⟨hlst, hvec⟩), fun x => ?_⟩
        rw [not_isSome_iff_eq_none] at hget
        rw [hperm.mem_iff, mem_cons, or_comm, and_iff_left_of_imp (fun hx => hx ▸ hget)]
    obtain ⟨vec', added', hrun, hvec', hmem'⟩ := ih (by omega) vec₁ added₁ hvec₁
    refine ⟨vec', added', by rw [iterate_next hstep, hrun], hvec', fun x => ?_⟩
    rw [hmem', hmem₁]
    constructor
    · rintro ((hx | ⟨hx, hnone⟩) | ⟨i, hlow, hhigh, hx, hnone⟩)
      · exact .inl hx
      · exact .inr ⟨d + 1, by omega, le_rfl, by rw [hx, Nat.add_right_comm, Nat.add_assoc], hnone⟩
      · exact .inr ⟨i, hlow, by omega, hx, hnone⟩
    · rintro (hx | ⟨i, hlow, hhigh, hx, hnone⟩)
      · exact .inl (.inl hx)
      · rcases hhigh.eq_or_lt with rfl | hless
        · exact .inl (.inr ⟨by rw [hx, Nat.add_right_comm, Nat.add_assoc], hnone⟩)
        · exact .inr ⟨i, hlow, by omega, hx, hnone⟩

def numbersBetween (prevSeqno seqno : ℕ) : ℕ := (seqno + 65536 - 1 - prevSeqno) % 65536

/-- What a packet from the future does to the list of missing numbers: it is taken off, or the
numbers before it are added that do not wait. -/
def Lists (prevSeqno : ℕ) (p : RxPacket) (recvBuffer : DataBuffer RxPacket) (vec vec' : List ℕ) : Prop :=
  p.seqno ∈ vec ∧ vec' = vec.erase p.seqno ∨
    p.seqno ∉ vec ∧ ∀ x, x ∈ vec' ↔ x ∈ vec ∨
      ∃ i, 1 ≤ i ∧ i ≤ numbersBetween prevSeqno p.seqno ∧ x = (prevSeqno + i) % 65536 ∧ recvBuffer.get x = none

lemma listMissing_spec {rtp : RtpRecv} {prevSeqno : ℕ} (hprev : prevSeqno < 65536) (p : RxPacket)
    (hvec : rtp.missingSeqno.Nodup) (hlt : ∀ x ∈ rtp.missingSeqno, x < 65536) :
    ∃ vec' added', rtp.listMissing prevSeqno p = some (vec', added') ∧ vec'.Nodup ∧
      (∀ x ∈ vec', x < 65536) ∧ Lists prevSeqno p rtp.recvBuffer rtp.missingSeqno vec' := by
  have hp := seqno_lt p
  unfold RtpRecv.listMissing
  by_cases hlst : p.seqno ∈ rtp.missingSeqno
  · rw [if_pos hlst]
    exact ⟨_, _, rfl, hvec.erase _, fun x hx => hlt x (mem_of_mem_erase hx), .inl ⟨hlst, rfl⟩⟩
  rw [if_neg hlst]
  have hd : numbersBetween prevSeqno p.seqno < 65536 := mod_lt _ (by decide)
  have hseqno : (prevSeqno + 1 + numbersBetween prevSeqno p.seqno) % 65536 = p.seqno := by
    unfold numbersBetween
    omega
  obtain ⟨vec', added', hrun, hvec', hmem⟩ :=
    @iterate_missingStep rtp.recvBuffer _ hprev _ hd rtp.missingSeqno 0 hvec
  rw [hseqno] at hrun
  refine ⟨vec', added', iterate_mono hrun ?_, hvec', fun x hx => ?_, .inr ⟨hlst, hmem⟩⟩
  · rw [seqnoCycleOver]
    omega
  · rcases (hmem x).mp hx with hx | ⟨i, -, -, rfl, -⟩
    · exact hlt x hx
    · exact mod_lt _ (by decide)

end Telephony.Rtp
