import Mathlib.Algebra.Order.Ring.Int
import Mathlib.Data.List.Chain

/-!
# Strict RTP

`ast_rtp_read` accepts packets of one source only. After a new remote address was signalled it
learns the source for a while: a packet from the signalled address is accepted at once, another
source has to deliver a row of packets first, and each packet from the accepted source, or from a
third one, starts that anew.
-/

namespace Telephony.Rtp

/-! ## Data model -/

inductive StrictRtpState
  | opened
  | learn
  | closed
  deriving DecidableEq, Repr

inductive StrictRtpMode
  | no
  | yes
  | seqno
  deriving DecidableEq, Repr

inductive MediaType
  | unknown
  | audio
  | video
  | image
  | text
  | endOfTypes
  deriving DecidableEq, Repr

/-- The settings; the number of packets that are required is at least two, since smaller values are
replaced by the default when the configuration is loaded.
Source: `strictrtp`, `learning_min_sequential`, `learning_min_duration`, `rtp_reload`
(`probation`) -/
structure LearningConf where
  strictrtp : StrictRtpMode
  minSequential : ℕ
  two_le : 2 ≤ minSequential
  minDuration : ℤ

/-- What is known of the source that is being learned. Times are in milliseconds, a null time or
address is `none`. -/
structure LearningInfo (Addr : Type) where
  proposedAddress : Option Addr
  start : ℤ
  received : Option ℤ
  maxSeq : ℕ
  packets : ℤ
  streamType : MediaType
  deriving DecidableEq, Repr

/-- Source: `struct ast_rtp` (`strict_rtp_state`, `strict_rtp_address`, `rtp_source_learn`,
`lastrxseqno`) -/
structure StrictRtp (Addr : Type) where
  state : StrictRtpState
  strictAddress : Option Addr
  learn : LearningInfo Addr
  deriving DecidableEq, Repr

/-- A packet: its source, the time of its arrival, and its sequence number.
Source: `ast_rtp_read` (`addr`, `seqno`) -/
structure SourcePacket (Addr : Type) where
  addr : Addr
  now : ℤ
  seqno : ℕ
  deriving DecidableEq, Repr

/-- What was signalled: the address to which media is sent, and the type of the stream.
Source: `ast_rtp_instance_get_requested_target_address`, `ast_rtp_codecs_get_stream_type` -/
structure Signalled (Addr : Type) where
  target : Option Addr
  streamType : MediaType
  deriving DecidableEq, Repr

section Operations

variable {Addr : Type}

/-! ## Learning -/

def learningSeqInit (conf : LearningConf) (info : LearningInfo Addr) (seq : ℕ) : LearningInfo Addr :=
  { info with maxSeq := seq, packets := conf.minSequential, received := none }

/-- The row of packets came too fast, or its time is not known yet.
Source: `rtp_learning_rtp_seq_update` ("Protect against packet floods") -/
def checkFlood (conf : LearningConf) (info : LearningInfo Addr) (now : ℤ) : LearningInfo Addr :=
  match info.received with
  | none => { info with received := some now }
  | some received =>
    if info.packets = 0 ∧ now - received < conf.minDuration then
      { info with packets := conf.minSequential - 1, received := some now }
    else info

/-- Source: `rtp_learning_rtp_seq_update` -/
def learningSeqUpdate (conf : LearningConf) (info : LearningInfo Addr) (seq : ℕ) (now : ℤ) : LearningInfo Addr :=
  let info :=
    if seq = (info.maxSeq + 1) % 2 ^ 16 then { info with packets := info.packets - 1 }
    else { info with packets := conf.minSequential - 1, received := some now }
  let info :=
    if conf.strictrtp = .yes ∧ (info.streamType = .unknown ∨ info.streamType = .audio) then
      checkFlood conf info now
    else info
  { info with maxSeq := seq }

section Counter

variable (conf : LearningConf)

lemma checkFlood_packets (info : LearningInfo Addr) (now : ℤ) :
    (checkFlood conf info now).proposedAddress = info.proposedAddress ∧
      ((checkFlood conf info now).packets = info.packets ∨
        (checkFlood conf info now).packets = conf.minSequential - 1) := by
  unfold checkFlood
  split
  · exact ⟨rfl, .inl rfl⟩
  · split_ifs
    · exact ⟨rfl, .inr rfl⟩
    · exact ⟨rfl, .inl rfl⟩

lemma learningSeqUpdate_packets (info : LearningInfo Addr) (seq : ℕ) (now : ℤ) :
    (learningSeqUpdate conf info seq now).proposedAddress = info.proposedAddress ∧
      (learningSeqUpdate conf info seq now).maxSeq = seq ∧
      ((learningSeqUpdate conf info seq now).packets = conf.minSequential - 1 ∨
        seq = (info.maxSeq + 1) % 2 ^ 16 ∧ (learningSeqUpdate conf info seq now).packets = info.packets - 1) := by
  unfold learningSeqUpdate
  dsimp only
  by_cases hnext : seq = (info.maxSeq + 1) % 2 ^ 16
  · split_ifs
    · obtain ⟨hprop, hpks⟩ :=
        checkFlood_packets conf { info with packets := info.packets - 1 } now
      refine ⟨hprop, rfl, ?_⟩
      rcases hpks with hsame | hreset
      · exact .inr ⟨hnext, hsame⟩
      · exact .inl hreset
    · exact ⟨rfl, rfl, .inr ⟨hnext, rfl⟩⟩
  · split_ifs
    · obtain ⟨hprop, hpks⟩ := checkFlood_packets conf
        { info with packets := conf.minSequential - 1, received := some now } now
      exact ⟨hprop, rfl, .inl (hpks.elim id id)⟩
    · exact ⟨rfl, rfl, .inl rfl⟩

end Counter

def learningStart (conf : LearningConf) (rtp : StrictRtp Addr) (lastrxseqno : ℕ) (now : ℤ) : StrictRtp Addr :=
  { rtp with
    state := .learn
    learn := learningSeqInit conf { rtp.learn with proposedAddress := none, start := now } (lastrxseqno % 2 ^ 16) }

def strictRtpLearnTimeout : ℤ := 5000

variable [DecidableEq Addr]

/-- The stream type is looked up when it is not known.
Source: `ast_rtp_read` (`AST_MEDIA_TYPE_UNKNOWN`) -/
def qualifyStream (sig : Signalled Addr) (info : LearningInfo Addr) : LearningInfo Addr :=
  if info.streamType = .unknown then { info with streamType := sig.streamType } else info

/-- A packet while the source is being learned and the time is not up: the new state, and whether
the packet is passed up.
Source: `ast_rtp_read` (`case STRICT_RTP_LEARN`) -/
def learnStep (conf : LearningConf) (sig : Signalled Addr) (rtp : StrictRtp Addr) (p : SourcePacket Addr) :
    StrictRtp Addr × Bool :=
  if rtp.strictAddress = some p.addr then
    ({ rtp with learn := learningSeqInit conf rtp.learn p.seqno }, true)
  else if sig.target = some p.addr then
    ({ rtp with strictAddress := some p.addr, learn := learningSeqInit conf rtp.learn p.seqno }, true)
  else if rtp.learn.proposedAddress = some p.addr then
    let learn := learningSeqUpdate conf (qualifyStream sig rtp.learn) p.seqno p.now
    if learn.packets = 0 then
      ({ rtp with strictAddress := some p.addr, learn := learningSeqInit conf learn p.seqno }, true)
    else ({ rtp with learn := learn }, false)
  else
    -- an attacking stream, or the start of the expected new one
    ({ rtp with
        learn := learningSeqInit conf { rtp.learn with proposedAddress := some p.addr } p.seqno }, false)

/-- A packet and the strict RTP protection: the new state, and whether the packet is passed up.
Source: `ast_rtp_read` (`switch (rtp->strict_rtp_state)`) -/
def strictStep (conf : LearningConf) (sig : Signalled Addr) (rtp : StrictRtp Addr) (p : SourcePacket Addr) :
    StrictRtp Addr × Bool :=
  match rtp.state with
  | .learn =>
    if rtp.strictAddress ≠ none ∧ strictRtpLearnTimeout < p.now - rtp.learn.start then
      ({ rtp with state := .closed }, decide (rtp.strictAddress = some p.addr))
    else learnStep conf sig rtp p
  | .closed => (rtp, decide (rtp.strictAddress = some p.addr))
  | .opened => (rtp, true)

def strictRun (conf : LearningConf) (sig : Signalled Addr) (rtp : StrictRtp Addr)
    (ps : List (SourcePacket Addr)) : StrictRtp Addr :=
  ps.foldl (fun rtp p => (strictStep conf sig rtp p).1) rtp

/-! ## Packets in a row -/

def InSequence (p q : SourcePacket Addr) : Prop := q.seqno = (p.seqno + 1) % 2 ^ 16

def packetsFrom (addr : Addr) (ps : List (SourcePacket Addr)) : List (SourcePacket Addr) :=
  ps.filter fun p => p.addr = addr

def DeliveredInSequence (ps : List (SourcePacket Addr)) (addr : Addr) (n : ℕ) : Prop :=
  ∃ earlier last, packetsFrom addr ps = earlier ++ last ∧ last.length = n ∧ last.IsChain InSequence

/-- Source: `struct rtp_learning_info` (`packets`, `max_seq`) -/
def Learning (conf : LearningConf) (info : LearningInfo Addr) (ps : List (SourcePacket Addr)) : Prop :=
  ∀ addr ∈ info.proposedAddress, ∃ earlier last, packetsFrom addr ps = earlier ++ last ∧
    last.length + info.packets = conf.minSequential ∧ last.IsChain InSequence ∧
    ∀ q ∈ last.getLast?, q.seqno = info.maxSeq

section Learning

variable {conf : LearningConf} {sig : Signalled Addr} {rtp : StrictRtp Addr} {info : LearningInfo Addr}
  {ps : List (SourcePacket Addr)} {p : SourcePacket Addr}

lemma packetsFrom_concat_self : packetsFrom p.addr (ps ++ [p]) = packetsFrom p.addr ps ++ [p] := by
  simp [packetsFrom]

lemma learning_init (info : LearningInfo Addr) (seq : ℕ) (ps : List (SourcePacket Addr)) :
    Learning conf (learningSeqInit conf info seq) ps := by
  intro addr _
  exact ⟨packetsFrom addr ps, [], by simp, by simp [learningSeqInit], .nil, by simp⟩

lemma qualifyStream_learning (h : Learning conf info ps) : Learning conf (qualifyStream sig info) ps := by
  unfold qualifyStream
  split_ifs <;> exact h

section

variable (h : Learning conf info ps) (hprop : info.proposedAddress = some p.addr)
include h hprop

lemma Learning.update : Learning conf (learningSeqUpdate conf info p.seqno p.now) (ps ++ [p]) := by
  obtain ⟨hprop', hmax, hpks⟩ := learningSeqUpdate_packets conf info p.seqno p.now
  intro addr haddr
  obtain rfl : p.addr = addr := by
    rw [hprop', hprop] at haddr
    exact Option.some.inj haddr
  rw [packetsFrom_concat_self, hmax]
  rcases hpks with hone | ⟨hnext, hcnt⟩
  · refine ⟨packetsFrom p.addr ps, [p], rfl, ?_, .singleton p, by simp⟩
    rw [hone]
    simp
  obtain ⟨earlier, last, hspl, hlen, hchn, hlast⟩ := h p.addr hprop
  refine ⟨earlier, last ++ [p], by rw [hspl, List.append_assoc], ?_, ?_, by simp⟩
  · rw [List.length_append, List.length_singleton]
    omega
  · refine List.isChain_append.mpr ⟨hchn, .singleton p, ?_⟩
    intro q hq r hr
    obtain rfl : p = r := by simpa using hr
    rwa [InSequence, hlast q hq]

lemma Learning.delivered (hzero : info.packets = 0) : DeliveredInSequence ps p.addr conf.minSequential := by
  obtain ⟨earlier, last, hspl, hlen, hchn, -⟩ := h p.addr hprop
  refine ⟨earlier, last, hspl, ?_, hchn⟩
  omega

end

lemma learnStep_safe (h : Learning conf rtp.learn ps) (p : SourcePacket Addr) :
    Learning conf (learnStep conf sig rtp p).1.learn (ps ++ [p]) ∧
      (learnStep conf sig rtp p).1.state = rtp.state ∧
      ((learnStep conf sig rtp p).2 = true → (learnStep conf sig rtp p).1.strictAddress = some p.addr) ∧
      ((learnStep conf sig rtp p).1.strictAddress = rtp.strictAddress ∨
        (learnStep conf sig rtp p).1.strictAddress = some p.addr ∧
          (sig.target = some p.addr ∨ DeliveredInSequence (ps ++ [p]) p.addr conf.minSequential)) := by
  unfold learnStep
  split_ifs with hcurrent htgt hproposed
  · exact ⟨learning_init _ _ _, rfl, fun _ => hcurrent, .inl rfl⟩
  · exact ⟨learning_init _ _ _, rfl, fun _ => rfl, .inr ⟨rfl, .inl htgt⟩⟩
  · have hqualified : Learning conf (qualifyStream sig rtp.learn) ps := qualifyStream_learning h
    have hprop : (qualifyStream sig rtp.learn).proposedAddress = some p.addr := by
      unfold qualifyStream
      split_ifs <;> exact hproposed
    have hupd := hqualified.update hprop
    have hprop' : (learningSeqUpdate conf (qualifyStream sig rtp.learn) p.seqno p.now).proposedAddress =
        some p.addr := (learningSeqUpdate_packets conf _ _ _).1.trans hprop
    dsimp only
    split_ifs with hzero
    · exact ⟨learning_init _ _ _, rfl, fun _ => rfl,
        .inr ⟨rfl, .inr (hupd.delivered hprop' hzero)⟩⟩
    · exact ⟨hupd, rfl, by simp, .inl rfl⟩
  · exact ⟨learning_init _ _ _, rfl, by simp, .inl rfl⟩

/-! ## Runs -/

lemma strictRun_concat (rtp : StrictRtp Addr) (ps : List (SourcePacket Addr)) (p : SourcePacket Addr) :
    strictRun conf sig rtp (ps ++ [p]) = (strictStep conf sig (strictRun conf sig rtp ps) p).1 := by
  simp [strictRun]

lemma strictStep_safe (sig : Signalled Addr) (hopen : rtp.state ≠ .opened)
    (h : rtp.state = .learn → Learning conf rtp.learn ps) (p : SourcePacket Addr) :
    let out := strictStep conf sig rtp p
    out.1.state ≠ .opened ∧ (out.1.state = .learn → Learning conf out.1.learn (ps ++ [p])) ∧
      (rtp.state = .closed → out.1 = rtp) ∧
      (out.2 = true → out.1.strictAddress = some p.addr) ∧
      (out.1.strictAddress = rtp.strictAddress ∨ out.1.strictAddress = some p.addr ∧
        (sig.target = some p.addr ∨ DeliveredInSequence (ps ++ [p]) p.addr conf.minSequential)) := by
  intro out
  cases hst : rtp.state with
  | opened => exact absurd hst hopen
  | closed =>
    have hout : out = (rtp, decide (rtp.strictAddress = some p.addr)) := by simp [out, strictStep, hst]
    rw [hout]
    exact ⟨hopen, by simp [hst], fun _ => rfl, by simp, .inl rfl⟩
  | learn =>
    obtain ⟨hlrn, hsame, hpassed, hadr⟩ := @learnStep_safe _ _ conf sig rtp ps (h hst) p
    simp only [out, strictStep, hst]
    split_ifs with htmo
    · exact ⟨by simp, by simp, by simp, by simp, .inl rfl⟩
    · exact ⟨by rw [hsame, hst]; simp, fun _ => hlrn, by simp, hpassed, hadr⟩

/-- **What holds after any packets** since the start of learning. Induction on the packets, from the
last one on. -/
lemma strictRun_learning (conf : LearningConf) (sig : Signalled Addr) (rtp : StrictRtp Addr)
    (lastrxseqno : ℕ) (now : ℤ) (ps : List (SourcePacket Addr)) :
    (strictRun conf sig (learningStart conf rtp lastrxseqno now) ps).state ≠ .opened ∧
      ((strictRun conf sig (learningStart conf rtp lastrxseqno now) ps).state = .learn →
        Learning conf (strictRun conf sig (learningStart conf rtp lastrxseqno now) ps).learn ps) := by
  induction ps using List.reverseRecOn with
  | nil => exact ⟨by simp [strictRun, learningStart], fun _ => learning_init _ _ _⟩
  | append_singleton ps p ih =>
    obtain ⟨hopen, hlrn, -⟩ := strictStep_safe sig ih.1 ih.2 p
    rw [strictRun_concat]
    exact ⟨hopen, hlrn⟩

end Learning

/-- **Strict RTP is not taken over by stray packets.** If the accepted address changes with a
packet, it is the source of this packet, and either the signalled address, or a source whose last
packets, as many as are required, have consecutive 16-bit numbers. A packet that is passed up comes
from the accepted address; and once the protection is closed, the address stays. -/
theorem strictRun_safe (conf : LearningConf) (sig : Signalled Addr) (rtp : StrictRtp Addr)
    (lastrxseqno : ℕ) (now : ℤ) (ps : List (SourcePacket Addr)) (p : SourcePacket Addr) :
    let before := strictRun conf sig (learningStart conf rtp lastrxseqno now) ps
    let after := strictStep conf sig before p
    (after.1.strictAddress ≠ before.strictAddress →
      after.1.strictAddress = some p.addr ∧
        (sig.target = some p.addr ∨ DeliveredInSequence (ps ++ [p]) p.addr conf.minSequential)) ∧
    (after.2 = true → after.1.strictAddress = some p.addr) ∧
    (before.state = .closed → after.1 = before) := by
  obtain ⟨hopen, hlrn⟩ := strictRun_learning conf sig rtp lastrxseqno now ps
  obtain ⟨-, -, hcl, hpassed, hadr⟩ := strictStep_safe sig hopen hlrn p
  exact ⟨fun hne => hadr.resolve_left hne, hpassed, hcl⟩

end Operations

end Telephony.Rtp
