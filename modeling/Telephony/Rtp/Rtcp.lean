import Telephony.Lib.Traced
import Telephony.Rtp.Nack

/-!
# Reading compound RTCP packets

`ast_rtcp_interpret` first checks that the lengths of the records of a compound packet add up to the
packet, and then handles the records one by one, with a minimum length for each type of record. The
words of the packet are those of `mem` below `packetwords`; what lies beyond belongs to others.
-/

namespace Telephony.Rtp

open Lib
open List hiding iterate
open Traced (within_bind within_read within_pure val_bind val_read)

/-! ## Data model -/

/-- Source: `RTCP_PT_*`, `AST_RTP_RTCP_*` -/
inductive RtcpType where
  | fur | sr | rr | sdes | bye | rtpfb | psfb | other
  deriving DecidableEq, Repr

/-- Source: `RTCP_PT_FUR`, `RTCP_PT_SR`, `RTCP_PT_RR`, `RTCP_PT_SDES`, `RTCP_PT_BYE`,
`AST_RTP_RTCP_RTPFB`, `RTCP_PT_PSFB` -/
def rtcpType : ℕ → RtcpType
  | 192 => .fur
  | 200 => .sr
  | 201 => .rr
  | 202 => .sdes
  | 203 => .bye
  | 205 => .rtpfb
  | 206 => .psfb
  | _ => .other

/-- The fields of the first word of a record; `length` counts all its words.
Source: `ast_rtcp_interpret` (`pt`, `rc`, `length`) -/
structure RtcpHeader where
  type : RtcpType
  rc : ℕ
  length : ℕ
  deriving DecidableEq, Repr

/-- Source: `RTCP_PAYLOAD_TYPE_SHIFT`, `RTCP_REPORT_COUNT_SHIFT`, `RTCP_LENGTH_SHIFT` and their
masks -/
def rtcpHeader (w : ℕ) : RtcpHeader where
  type := rtcpType (w >>> 16 &&& 0xFF)
  rc := w >>> 24 &&& 0x1F
  length := (w &&& 0xFFFF) + 1

/-- Source: `RTCP_VERSION_MASK_SHIFTED`, `RTCP_VERSION_SHIFTED` -/
def rtcpVersion (w : ℕ) : ℕ := w >>> 30 &&& 3

/-- Source: `AST_RTP_RTCP_FMT_*` -/
def fmtNack : ℕ := 1

@[inherit_doc fmtNack]
def fmtPli : ℕ := 1

@[inherit_doc fmtNack]
def fmtFir : ℕ := 4

@[inherit_doc fmtNack]
def fmtRemb : ℕ := 15

/-- The SSRC of the other end, once it is known, whether retransmission is enabled, and whether REMB
is.
Source: `struct ast_rtp` (`themssrc_valid`, `themssrc`, `send_buffer`), `AST_RTP_PROPERTY_REMB` -/
structure RtcpTarget where
  themssrc : Option ℕ
  sendBuffer : Bool
  remb : Bool
  deriving DecidableEq, Repr

/-- The instances: the transport, and the other ones it bundles, which are found by the SSRC of a
packet source or of a media source.
Source: `__rtp_find_instance_by_ssrc` -/
structure RtcpInstances where
  transport : RtcpTarget
  child : Bool → ℕ → Option RtcpTarget

/-- Source: `struct ast_rtp_rtcp_report` (`sender_information`) -/
structure SenderInformation where
  ntpMsw : ℕ
  ntpLsw : ℕ
  rtpTimestamp : ℕ
  packetCount : ℕ
  octetCount : ℕ
  deriving DecidableEq, Repr

structure ReportBlock where
  sourceSsrc : ℕ
  lostFraction : ℕ
  lostPackets : ℕ
  highestSeqNo : ℕ
  iaJitter : ℕ
  lsr : ℕ
  dlsr : ℕ
  deriving DecidableEq, Repr

structure RtcpReport where
  ssrc : ℕ
  receptionReportCount : ℕ
  sender : Option SenderInformation
  block : Option ReportBlock
  deriving DecidableEq, Repr

/-- Source: `ast_rtcp_interpret` (`f`) -/
inductive RtcpFrame where
  | null
  | report (report : RtcpReport)
  | vidupdate
  | remb (brExp brMantissa : ℕ)
  deriving DecidableEq, Repr

/-- The instance in use (which a record without an instance of its own leaves as it was), the frame,
and the packets that were asked for again.
Source: `ast_rtcp_interpret` (`instance`, `f`), `ast_rtp_rtcp_handle_nack` -/
structure RtcpState where
  inst : RtcpTarget
  frame : RtcpFrame
  nacked : List ℕ
  deriving DecidableEq, Repr

/-! ## Handling a record -/

/-- The minimum length of a record; `none` for a type that is skipped.
Source: `ast_rtcp_interpret` (`min_length`) -/
def minLength (h : RtcpHeader) : Option ℕ :=
  match h.type with
  | .sr => some (2 + 5 + h.rc * 6)
  | .rr => some (2 + h.rc * 6)
  | .fur => some 2
  | .rtpfb => if h.rc = fmtNack then some (2 + 2) else some 2
  | .psfb => if h.rc = fmtRemb then some (2 + 4) else some 2
  | .sdes | .bye => some h.length
  | .other => none

/-- Whether the instance is found by the SSRC of the packet source.
Source: `ast_rtcp_interpret` (`use_packet_source`) -/
def usePacketSource : RtcpType → Bool
  | .sr | .rr | .rtpfb => false
  | _ => true

/-- Source: `ast_rtcp_interpret` (`ssrc`, `ssrc_valid`) -/
def readSsrc (mem : ℕ → ℕ) (type : RtcpType) (i : ℕ) : Traced ℕ (Option ℕ) :=
  match type with
  | .sr | .rr | .rtpfb => do
    let ssrc ← Traced.read mem (i + 2)
    pure (some ssrc)
  | .fur | .psfb => do
    let ssrc ← Traced.read mem (i + 1)
    pure (some ssrc)
  | .sdes | .bye | .other => pure none

/-- Source: `ast_rtcp_interpret` (`exception`) -/
def skipsRecord (rtp : RtcpTarget) (h : RtcpHeader) (ssrc : ℕ) : Bool :=
  match rtp.themssrc with
  | none => false
  | some themssrc =>
    (ssrc ≠ themssrc && usePacketSource h.type && ssrc ≠ 1) ||
      (ssrc = 1 && !((h.type = .psfb && h.rc = fmtPli) || h.type = .fur))

/-- Source: `ast_rtcp_interpret` (`case RTCP_PT_SR`) -/
def readSenderInformation (mem : ℕ → ℕ) (i : ℕ) : Traced ℕ SenderInformation := do
  let ntpMsw ← Traced.read mem i
  let ntpLsw ← Traced.read mem (i + 1)
  let packetCount ← Traced.read mem (i + 3)
  let octetCount ← Traced.read mem (i + 4)
  let rtpTimestamp ← Traced.read mem (i + 2)
  pure ⟨ntpMsw, ntpLsw, rtpTimestamp, packetCount, octetCount⟩

/-- Source: `ast_rtcp_interpret` (`if (rc > 0)`) -/
def readReportBlock (mem : ℕ → ℕ) (rc i : ℕ) : Traced ℕ (Option ReportBlock) :=
  if 0 < rc then do
    let sourceSsrc ← Traced.read mem i
    let lost ← Traced.read mem (i + 1)
    let highestSeqNo ← Traced.read mem (i + 2)
    let iaJitter ← Traced.read mem (i + 3)
    let lsr ← Traced.read mem (i + 4)
    let dlsr ← Traced.read mem (i + 5)
    pure (some ⟨sourceSsrc, lost >>> 24, lost &&& 0xFFFFFF, highestSeqNo, iaJitter, lsr, dlsr⟩)
  else pure none

/-- Source: `ast_rtp_rtcp_handle_nack` -/
def handleNack (mem : ℕ → ℕ) (position length : ℕ) : Traced ℕ (List ℕ) := do
  let words ← Traced.readRange mem (position + 3) (length - 3)
  pure (words.flatMap nackRequests)

/-- Source: `ast_rtcp_interpret` (`i += RTCP_HEADER_SSRC_LENGTH`) -/
def handleBody (mem : ℕ → ℕ) (rtp : RtcpTarget) (st : RtcpState) (h : RtcpHeader) (ssrc position : ℕ) :
    Traced ℕ RtcpState :=
  match h.type with
  | .sr => do
    let sender ← readSenderInformation mem (position + 2)
    let block ← readReportBlock mem h.rc (position + 2 + 5)
    pure { st with frame := .report ⟨ssrc, h.rc, some sender, block⟩ }
  | .rr => do
    let block ← readReportBlock mem h.rc (position + 2)
    pure { st with frame := .report ⟨ssrc, h.rc, none, block⟩ }
  | .rtpfb =>
    if h.rc = fmtNack ∧ rtp.sendBuffer ∧ st.inst.sendBuffer then do
      let numbers ← handleNack mem position h.length
      pure { st with nacked := st.nacked ++ numbers }
    else pure st
  | .fur => pure { st with frame := .vidupdate }
  | .psfb =>
    if h.rc = fmtPli ∨ h.rc = fmtFir then pure { st with frame := .vidupdate }
    else if h.rc = fmtRemb ∧ st.inst.remb then do
      let word ← Traced.read mem (position + 2 + 2)
      pure { st with frame := .remb (word >>> 18 &&& 0x3F) (word &&& 0x3FFFF) }
    else pure st
  | .sdes | .bye | .other => pure st

/-- Handle a record with a known header; `none` when the packet is given up. Allocations succeed.
Source: `ast_rtcp_interpret` (the body of the record loop) -/
def handleHeader (env : RtcpInstances) (mem : ℕ → ℕ) (st : RtcpState) (position : ℕ) (h : RtcpHeader) :
    Traced ℕ (Option RtcpState) :=
  match minLength h with
  | none => pure (some st)
  | some minimum =>
    if h.length < minimum then pure none
    else do
      let ssrc? ← readSsrc mem h.type position
      match ssrc? with
      | none => pure (some st)
      | some ssrc =>
        let child := env.child (usePacketSource h.type) ssrc
        let rtp := child.getD env.transport
        let st := { st with inst := child.getD st.inst }
        if skipsRecord rtp h ssrc then pure (some st)
        else do
          let st ← handleBody mem rtp st h ssrc position
          pure (some st)

/-- Source: `ast_rtcp_interpret` (the body of the record loop) -/
def handleRecord (env : RtcpInstances) (mem : ℕ → ℕ) (st : RtcpState) (position : ℕ) :
    Traced ℕ (Option RtcpState) := do
  let word ← Traced.read mem position
  handleHeader env mem st position (rtcpHeader word)

/-! ## The two loops -/

/-- One round of the check of versions and lengths: from a position and the first word there to the
next, or to the position where the check ends.
Source: `ast_rtcp_interpret` (`do { … } while`) -/
def checkStep (mem : ℕ → ℕ) (packetwords : ℕ) (s : ℕ × ℕ) : Option ((ℕ × ℕ) ⊕ ℕ) :=
  let position := s.1 + (rtcpHeader s.2).length
  if packetwords ≤ position then some (.inr position)
  else if rtcpVersion (mem position) = 2 then some (.inl (position, mem position))
  else some (.inr position)

/-- Whether the packet passes validation: the first record is a sender or receiver report of version
2, and the lengths add up.
Source: `ast_rtcp_interpret` (`RTCP_VALID_MASK`, `RTCP_VALID_VALUE`) -/
def rtcpValid (mem : ℕ → ℕ) (packetwords : ℕ) : Bool :=
  2 ≤ packetwords && rtcpVersion (mem 0) = 2 && (mem 0 >>> 16 &&& 0xFE) = 200 &&
    iterate (checkStep mem packetwords) (packetwords + 1) (0, mem 0) = some packetwords

structure HandledRecord where
  position : ℕ
  length : ℕ
  reads : List ℕ
  deriving DecidableEq, Repr

/-- Source: `ast_rtcp_interpret` (`position`) -/
structure RtcpLoop where
  position : ℕ
  state : RtcpState
  handled : List HandledRecord
  deriving DecidableEq, Repr

/-- Source: `ast_rtcp_interpret` (`while (position < packetwords)`) -/
def rtcpStep (env : RtcpInstances) (mem : ℕ → ℕ) (packetwords : ℕ) (s : RtcpLoop) : Option (RtcpLoop ⊕ RtcpLoop) :=
  if s.position < packetwords then
    let record := handleRecord env mem s.state s.position
    let length := (rtcpHeader (mem s.position)).length
    let handled := s.handled ++ [⟨s.position, length, record.reads⟩]
    match record.val with
    | none => some (.inr ⟨s.position, { s.state with frame := .null }, handled⟩)
    | some state => some (.inl ⟨s.position + length, state, handled⟩)
  else some (.inr s)

def rtcpInterpret (env : RtcpInstances) (mem : ℕ → ℕ) (packetwords : ℕ) : Option RtcpLoop :=
  iterate (rtcpStep env mem packetwords) (packetwords + 1) ⟨0, ⟨env.transport, .null, []⟩, []⟩

/-! ## Reads of one record -/

def InsideRecord (packetwords position length k : ℕ) : Prop :=
  position ≤ k ∧ k < position + length ∧ k < packetwords

instance (packetwords position length k : ℕ) : Decidable (InsideRecord packetwords position length k) :=
  inferInstanceAs (Decidable (_ ∧ _))

/-- A record of two words whose SSRC is looked for in the third: a receiver report without report
blocks, or transport feedback other than NACK.
Source: `ast_rtcp_interpret` (`ssrc = ntohl(rtcpheader[i + 2])`) -/
def RtcpHeader.Short (h : RtcpHeader) : Prop :=
  h.length = 2 ∧ (h.type = .rr ∧ h.rc = 0 ∨ h.type = .rtpfb ∧ h.rc ≠ fmtNack)

instance (h : RtcpHeader) : Decidable h.Short := inferInstanceAs (Decidable (_ ∧ _))

def RtcpHeader.Accepted (h : RtcpHeader) : Prop := ∀ m ∈ minLength h, m ≤ h.length

section Record

variable (env : RtcpInstances) (mem : ℕ → ℕ) {packetwords position : ℕ}

lemma rtcpHeader_length_pos (w : ℕ) : 0 < (rtcpHeader w).length := Nat.succ_pos _

variable {h : RtcpHeader} {minimum : ℕ}

section

variable (hmin : minLength h = some minimum) (hlen : minimum ≤ h.length) (hfit : position + h.length ≤ packetwords)
include hmin hlen hfit

lemma within_handleBody (rtp : RtcpTarget) (st : RtcpState) (ssrc : ℕ) :
    (handleBody mem rtp st h ssrc position).Within (InsideRecord packetwords position h.length) := by
  have hblk : ∀ i, position ≤ i → i + h.rc * 6 ≤ position + h.length →
      (readReportBlock mem h.rc i).Within (InsideRecord packetwords position h.length) := by
    intro i hle hend
    unfold readReportBlock InsideRecord
    split_ifs with hrc
    · simp only [within_bind, within_read, within_pure, and_true]
      omega
    · exact within_pure _
  unfold minLength at hmin
  unfold handleBody
  cases htype : h.type with
  | sr =>
    simp only [htype, Option.some.injEq] at hmin
    simp only [within_bind, within_pure, and_true]
    refine ⟨?_, hblk _ (by omega) (by omega)⟩
    simp only [readSenderInformation, InsideRecord, within_bind, within_read,
      within_pure, and_true]
    omega
  | rr =>
    simp only [htype, Option.some.injEq] at hmin
    simp only [within_bind, within_pure, and_true]
    exact hblk _ (by omega) (by omega)
  | rtpfb =>
    dsimp only
    split_ifs with hnack
    · simp only [handleNack, within_bind, Traced.within_readRange, within_pure, and_true]
      intro k hle hlt
      exact ⟨by omega, by omega, by omega⟩
    · exact within_pure _
  | psfb =>
    dsimp only
    split_ifs with hvid hremb
    · exact within_pure _
    · simp only [htype, hremb.1, if_true, Option.some.injEq] at hmin
      simp only [InsideRecord, within_bind, within_read, within_pure, and_true]
      omega
    · exact within_pure _
  | fur => exact within_pure _
  | sdes => exact within_pure _
  | bye => exact within_pure _
  | other => exact within_pure _

lemma within_readSsrc :
    (readSsrc mem h.type position).Within (InsideRecord packetwords position h.length) ↔ ¬h.Short := by
  unfold minLength at hmin
  unfold readSsrc RtcpHeader.Short
  cases htype : h.type with
  | sr | rr | fur =>
    simp only [htype, Option.some.injEq] at hmin
    simp only [InsideRecord, within_bind, within_read]
    simp
    omega
  | rtpfb =>
    simp only [htype] at hmin
    simp only [InsideRecord, within_bind, within_read]
    split_ifs at hmin with hnack <;> simp only [Option.some.injEq] at hmin <;> simp [hnack] <;> omega
  | psfb =>
    simp only [htype] at hmin
    simp only [InsideRecord, within_bind, within_read]
    split_ifs at hmin with hremb <;> simp only [Option.some.injEq] at hmin <;> simp <;> omega
  | sdes | bye | other => simp

end

lemma RtcpHeader.Short.minLength_ne_none (hsht : h.Short) : minLength h ≠ none := by
  unfold minLength
  rcases hsht.2 with ⟨htype, -⟩ | ⟨htype, -⟩
  · simp [htype]
  · simp only [htype]
    split_ifs <;> simp

lemma within_handleHeader (hfit : position + h.length ≤ packetwords) (hacc : h.Accepted) (st : RtcpState) :
    (handleHeader env mem st position h).Within (InsideRecord packetwords position h.length) ↔ ¬h.Short := by
  unfold handleHeader
  cases hmin : minLength h with
  | none => exact iff_of_true (within_pure _) fun hsht => hsht.minLength_ne_none hmin
  | some minimum =>
    have hlen : minimum ≤ h.length := hacc minimum hmin
    dsimp only
    rw [if_neg (not_lt.mpr hlen), within_bind, within_readSsrc mem hmin hlen hfit, and_iff_left_iff_imp]
    intro _
    cases (readSsrc mem h.type position).val with
    | none => exact within_pure _
    | some ssrc =>
      dsimp only
      split_ifs with hskip
      · exact within_pure _
      · rw [within_bind]
        exact ⟨within_handleBody mem hmin hlen hfit _ _ _, within_pure _⟩

lemma handleHeader_of_not_accepted (hacc : ¬h.Accepted) (st : RtcpState) :
    handleHeader env mem st position h = pure none := by
  unfold RtcpHeader.Accepted at hacc
  push Not at hacc
  obtain ⟨minimum, hmin, hlt⟩ := hacc
  rw [Option.mem_def] at hmin
  simp [handleHeader, hmin, if_pos hlt]

lemma handleHeader_of_accepted (hacc : h.Accepted) (st : RtcpState) :
    ∃ st', (handleHeader env mem st position h).val = some st' := by
  unfold handleHeader
  cases hmin : minLength h with
  | none => exact ⟨st, rfl⟩
  | some minimum =>
    dsimp only
    rw [if_neg (not_lt.mpr (hacc minimum hmin)), val_bind]
    cases (readSsrc mem h.type position).val with
    | none => exact ⟨st, rfl⟩
    | some ssrc =>
      dsimp only
      split_ifs <;> exact ⟨_, rfl⟩

end Record

/-! ## The records of a packet -/

section Packet

variable (env : RtcpInstances) {mem : ℕ → ℕ} {packetwords : ℕ}

inductive RecordChain (mem : ℕ → ℕ) (packetwords : ℕ) : ℕ → Prop where
  | last {p : ℕ} : p + (rtcpHeader (mem p)).length = packetwords → RecordChain mem packetwords p
  | more {p : ℕ} : p + (rtcpHeader (mem p)).length < packetwords →
      RecordChain mem packetwords (p + (rtcpHeader (mem p)).length) → RecordChain mem packetwords p

/-- The record at `q` is handled after the one at `p`: all records from `p` to it have the length
they need. -/
inductive Reaches (mem : ℕ → ℕ) (packetwords : ℕ) : ℕ → ℕ → Prop where
  | here (p : ℕ) : Reaches mem packetwords p p
  | next {p q : ℕ} : (rtcpHeader (mem p)).Accepted → p + (rtcpHeader (mem p)).length < packetwords →
      Reaches mem packetwords (p + (rtcpHeader (mem p)).length) q → Reaches mem packetwords p q

variable {p fuel q : ℕ}

lemma reaches_iff : Reaches mem packetwords p q ↔
    q = p ∨ (rtcpHeader (mem p)).Accepted ∧ p + (rtcpHeader (mem p)).length < packetwords ∧
      Reaches mem packetwords (p + (rtcpHeader (mem p)).length) q := by
  constructor
  · intro h
    cases h with
    | here => exact .inl rfl
    | next hacc hlt hrest => exact .inr ⟨hacc, hlt, hrest⟩
  · rintro (rfl | ⟨hacc, hlt, hrest⟩)
    · exact .here q
    · exact .next hacc hlt hrest

/-- The check of lengths ends at the end of the packet only along a chain of records. Induction on
its rounds. -/
lemma recordChain_of_check (h : iterate (checkStep mem packetwords) fuel (p, mem p) = some packetwords) :
    RecordChain mem packetwords p := by
  induction fuel generalizing p with
  | zero => simp [iterate] at h
  | succ fuel ih =>
    simp only [iterate, checkStep] at h
    split_ifs at h with hend hver
    · simp only [Option.some.injEq] at h
      exact .last h
    · exact .more (by omega) (ih h)
    · simp only [Option.some.injEq] at h
      omega

lemma recordChain_of_valid (h : rtcpValid mem packetwords = true) : RecordChain mem packetwords 0 := by
  simp only [rtcpValid, Bool.and_eq_true, decide_eq_true_eq] at h
  exact recordChain_of_check h.2

def HandledRecord.Inside (packetwords : ℕ) (r : HandledRecord) : Prop :=
  ∀ k ∈ r.reads, InsideRecord packetwords r.position r.length k

instance (packetwords : ℕ) (r : HandledRecord) : Decidable (r.Inside packetwords) :=
  inferInstanceAs (Decidable (∀ k ∈ r.reads, _))

/-- What is recorded for the record at `p` when the loop is in state `st` there. -/
def handledAt (env : RtcpInstances) (mem : ℕ → ℕ) (st : RtcpState) (p : ℕ) : HandledRecord :=
  ⟨p, (rtcpHeader (mem p)).length, (handleRecord env mem st p).reads⟩

section

variable (hfit : p + (rtcpHeader (mem p)).length ≤ packetwords)
include hfit

lemma handledAt_inside_iff (hacc : (rtcpHeader (mem p)).Accepted) (st : RtcpState) :
    (handledAt env mem st p).Inside packetwords ↔ ¬(rtcpHeader (mem p)).Short := by
  have hpos := rtcpHeader_length_pos (mem p)
  have hfst : InsideRecord packetwords p (rtcpHeader (mem p)).length p :=
    ⟨le_rfl, by omega, by omega⟩
  rw [← within_handleHeader env mem hfit hacc st]
  change (handleRecord env mem st p).Within _ ↔ _
  rw [handleRecord, within_bind, within_read]
  exact and_iff_right hfst

lemma rtcpStep_of_not_accepted (hacc : ¬(rtcpHeader (mem p)).Accepted) (st : RtcpState) (handled : List HandledRecord) :
    rtcpStep env mem packetwords ⟨p, st, handled⟩ =
        some (.inr ⟨p, { st with frame := .null }, handled ++ [handledAt env mem st p]⟩) ∧
      (handledAt env mem st p).Inside packetwords := by
  have hpos := rtcpHeader_length_pos (mem p)
  have hval : (handleRecord env mem st p).val = none := by
    rw [handleRecord, val_bind, val_read, handleHeader_of_not_accepted env mem hacc]
    rfl
  have hrds : (handleRecord env mem st p).reads = [p] := by
    rw [handleRecord, Traced.reads_bind, val_read, handleHeader_of_not_accepted env mem hacc]
    rfl
  constructor
  · simp [rtcpStep, if_pos (show p < packetwords by omega), hval, handledAt]
  · intro k hk
    simp only [handledAt, hrds, mem_singleton] at hk
    subst hk
    exact ⟨le_rfl, by simp only [handledAt]; omega, by omega⟩

end

lemma rtcpStep_of_accepted (hlt : p < packetwords) (hacc : (rtcpHeader (mem p)).Accepted) (st : RtcpState)
    (handled : List HandledRecord) :
    ∃ st', rtcpStep env mem packetwords ⟨p, st, handled⟩ =
      some (.inl ⟨p + (rtcpHeader (mem p)).length, st', handled ++ [handledAt env mem st p]⟩) := by
  obtain ⟨st', hst'⟩ := handleHeader_of_accepted env mem hacc st
  have hval : (handleRecord env mem st p).val = some st' := by
    rw [handleRecord, val_bind, val_read, hst']
  simp [rtcpStep, if_pos hlt, hval, handledAt]

lemma RtcpHeader.Short.accepted {h : RtcpHeader} (hsht : h.Short) : h.Accepted := by
  intro m hm
  rw [Option.mem_def] at hm
  unfold minLength at hm
  rcases hsht with ⟨hlen, ⟨htype, hrc⟩ | ⟨htype, hrc⟩⟩
  · simp only [htype, Option.some.injEq] at hm
    omega
  · simp only [htype, if_neg hrc, Option.some.injEq] at hm
    omega

/-- **The record loop** over a chain of records ends, and reads only inside records exactly when no
short one is reached. Induction on the chain. -/
lemma RecordChain.run (hchn : RecordChain mem packetwords p) (hfuel : packetwords + 1 ≤ p + fuel)
    (st : RtcpState) (handled : List HandledRecord) :
    ∃ out, iterate (rtcpStep env mem packetwords) fuel ⟨p, st, handled⟩ = some out ∧
      ∃ new, out.handled = handled ++ new ∧
        ((∀ r ∈ new, r.Inside packetwords) ↔ ∀ q, Reaches mem packetwords p q → ¬(rtcpHeader (mem q)).Short) := by
  induction hchn generalizing fuel st handled with
  | @last p hend =>
    have hpos := rtcpHeader_length_pos (mem p)
    obtain ⟨fuel, rfl⟩ : ∃ f, fuel = f + 2 := ⟨fuel - 2, by omega⟩
    have hrch : ∀ q, Reaches mem packetwords p q ↔ q = p := by
      intro q
      rw [reaches_iff]
      omega
    simp only [hrch, forall_eq]
    by_cases hacc : (rtcpHeader (mem p)).Accepted
    · obtain ⟨st', hstep⟩ := rtcpStep_of_accepted env (show p < packetwords by omega) hacc st handled
      have hdone : rtcpStep env mem packetwords
          ⟨p + (rtcpHeader (mem p)).length, st', handled ++ [handledAt env mem st p]⟩ = some (.inr _) :=
        if_neg (by simp only; omega)
      refine ⟨_, (iterate_next hstep _).trans (iterate_done hdone _), [handledAt env mem st p], rfl, ?_⟩
      rw [forall_mem_singleton, handledAt_inside_iff env (le_of_eq hend) hacc]
    obtain ⟨hstep, hin⟩ := rtcpStep_of_not_accepted env (le_of_eq hend) hacc st handled
    refine ⟨_, iterate_done hstep _, [handledAt env mem st p], rfl, ?_⟩
    rw [forall_mem_singleton]
    exact iff_of_true hin fun hsht => hacc hsht.accepted
  | @more p hlt hrest ih =>
    have hpos := rtcpHeader_length_pos (mem p)
    obtain ⟨fuel, rfl⟩ : ∃ f, fuel = f + 1 := ⟨fuel - 1, by omega⟩
    by_cases hacc : (rtcpHeader (mem p)).Accepted
    · obtain ⟨st', hstep⟩ := rtcpStep_of_accepted env (show p < packetwords by omega) hacc st handled
      obtain ⟨out, hout, new, hnew, hiff⟩ :=
        @ih fuel (by omega) st' (handled ++ [handledAt env mem st p])
      refine ⟨out, (iterate_next hstep _).trans hout, handledAt env mem st p :: new, ?_, ?_⟩
      · rw [hnew, append_assoc, singleton_append]
      rw [forall_mem_cons, handledAt_inside_iff env (Nat.le_of_lt hlt) hacc, hiff]
      constructor
      · rintro ⟨hfst, hlat⟩ q hq
        rcases reaches_iff.mp hq with rfl | ⟨-, -, hq'⟩
        · exact hfst
        · exact hlat q hq'
      · intro h
        exact ⟨h p (.here p), fun q hq => h q (.next hacc hlt hq)⟩
    · obtain ⟨hstep, hin⟩ := rtcpStep_of_not_accepted env (Nat.le_of_lt hlt) hacc st handled
      refine ⟨_, iterate_done hstep _, [handledAt env mem st p], rfl, ?_⟩
      rw [forall_mem_singleton]
      refine iff_of_true hin fun q hq => ?_
      rcases reaches_iff.mp hq with rfl | ⟨hacc', -, -⟩
      · exact fun hsht => hacc hsht.accepted
      · exact absurd hacc' hacc

/-- **Reading compound packets.** For every packet that passes validation the record loop ends, and
every word it reads for a record lies inside that record exactly when no record that is handled is a
receiver report of two words without report blocks, or transport feedback of two words other than
NACK. -/
theorem rtcpInterpret_stays_inside (env : RtcpInstances) (mem : ℕ → ℕ) (packetwords : ℕ)
    (hvalid : rtcpValid mem packetwords = true) :
    ∃ out, rtcpInterpret env mem packetwords = some out ∧
      ((∀ r ∈ out.handled, r.Inside packetwords) ↔
        ∀ q, Reaches mem packetwords 0 q → ¬(rtcpHeader (mem q)).Short) := by
  obtain ⟨out, hout, new, hnew, hiff⟩ := (recordChain_of_valid hvalid).run env
    (show packetwords + 1 ≤ 0 + (packetwords + 1) by omega) ⟨env.transport, .null, []⟩ []
  refine ⟨out, hout, ?_⟩
  rwa [hnew]

/-- A receiver report with one report block. -/
theorem rtcpInterpret_stays_inside_report :
    let env : RtcpInstances := ⟨⟨none, false, false⟩, fun _ _ => none⟩
    let mem : ℕ → ℕ := fun k => ([0x81C90007, 7, 8, 0, 100, 5, 0, 0] : List ℕ).getD k 0
    rtcpValid mem 8 = true ∧ ∃ out, rtcpInterpret env mem 8 = some out ∧
      ((∀ r ∈ out.handled, r.Inside 8) ↔ ∀ q, Reaches mem 8 0 q → ¬(rtcpHeader (mem q)).Short) := by
  intro env mem
  have hval : rtcpValid mem 8 = true := by decide
  exact ⟨hval, rtcpInterpret_stays_inside env mem 8 hval⟩

/-- A packet of two words that holds only a receiver report without report blocks is valid, and the
word after its end is read. -/
theorem rtcpInterpret_reads_beyond :
    let env : RtcpInstances := ⟨⟨none, false, false⟩, fun _ _ => none⟩
    let mem : ℕ → ℕ := fun k => ([0x80C90001, 7] : List ℕ).getD k 0
    rtcpValid mem 2 = true ∧
      (rtcpInterpret env mem 2).map RtcpLoop.handled = some [⟨0, 2, [0, 2]⟩] ∧
      ¬(HandledRecord.mk 0 2 [0, 2]).Inside 2 := by
  decide

end Packet

end Telephony.Rtp
