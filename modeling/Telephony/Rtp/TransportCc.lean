import Telephony.Lib.SortedVector
import Telephony.Rtp.StatusChunks

/-!
# Transport-wide congestion feedback

The packets that come in are noted with their transport sequence number and their time of arrival,
and once a second a feedback packet is made of the notes: a status for each number from the first
one on, and a receive delta for each packet that was received.

The extended numbers are not wrapped in the model: the code sees their lowest 32 bits. `lost` and
`packet_count` are `int`s of the source and are modelled by their 32 bits. When a number was
received twice, `lost` is -1, and the loop that counts it down to zero goes below the least `int`;
that is undefined in C, and wraps around in the model as it does in the compiled code.

`parseRun_given` says what the notes of a run are like, and `Describable` which of them a packet can
describe.
-/

namespace Telephony.Rtp

open Lib List

/-! ## Data model -/

structure PacketStatistics where
  seqno : ℕ
  received : ℤ
  deriving DecidableEq, Repr

/-- Source: `struct rtp_transport_wide_cc_statistics` -/
structure TransportCc where
  packetStatistics : List PacketStatistics
  lastSeqno : ℕ
  lastExtendedSeqno : ℕ
  cycles : ℕ
  deriving DecidableEq, Repr

/-- Source: `ast_rtp_new` -/
def TransportCc.start : TransportCc :=
  { packetStatistics := [], lastSeqno := 0, lastExtendedSeqno := 0, cycles := 0 }

def packetStatisticsCmp (a b : PacketStatistics) : ℤ := Int.bmod ((a.seqno : ℤ) - b.seqno) (2 ^ 32)

def parseTransportWideCc (cc : TransportCc) (seqno : ℕ) (now : ℤ) : TransportCc :=
  let cycles := if (cc.lastSeqno : ℤ) - seqno > 100 then cc.cycles + 65536 else cc.cycles
  let statistics : PacketStatistics := { seqno := cycles + seqno, received := now }
  let vec := if 1000 < cc.packetStatistics.length then [] else cc.packetStatistics
  if vec = [] ∨ cc.lastExtendedSeqno % 2 ^ 32 < statistics.seqno % 2 ^ 32 then
    { packetStatistics := vec ++ [statistics]
      lastSeqno := seqno
      lastExtendedSeqno := statistics.seqno
      cycles }
  else { cc with packetStatistics := addSorted packetStatisticsCmp statistics vec, cycles }

def parseRun (cc : TransportCc) (packets : List (ℕ × ℤ)) : TransportCc :=
  packets.foldl (fun cc p => parseTransportWideCc cc p.1 p.2) cc

/-! ## The feedback packet -/

/-- The variables of the loop over the statistics. `deltas` are those of the statistics up to
`previous`.
Source: `rtp_transport_wide_cc_feedback_produce` -/
structure FeedbackLoop where
  writer : StatusWriter
  deltaLen : ℕ
  packetCount : ℕ
  previous : PacketStatistics
  deltas : List ℤ
  deriving DecidableEq, Repr

/-- Source: `packet_len + delta_len + 20 > sizeof (bdata)` -/
def FeedbackLoop.Full (s : FeedbackLoop) : Prop := 1024 < s.writer.packetLen + s.deltaLen + 20

instance (s : FeedbackLoop) : Decidable s.Full := inferInstanceAs (Decidable (_ < _))

/-- The number of packets between two statistics, as the 32 bits of an `int`.
Source: `lost = statistics->seqno - (previous_packet->seqno + 1)` -/
def lostBetween (previous statistics : PacketStatistics) : ℕ :=
  (((statistics.seqno : ℤ) - (previous.seqno + 1)) % 2 ^ 32).toNat

/-- Source: `rtp_transport_wide_cc_feedback_produce` (`while (lost)`) -/
def FeedbackLoop.lose (s : FeedbackLoop) : FeedbackLoop :=
  { s with writer := s.writer.statusAppend 0, packetCount := (s.packetCount + 1) % 2 ^ 32 }

/-- The loop over lost packets. It ends with `true` when there is no more room.
Source: `rtp_transport_wide_cc_feedback_produce` (`while (lost)`) -/
def lostLoop : ℕ → FeedbackLoop → FeedbackLoop × Bool
  | 0, s => (s, false)
  | lost + 1, s => if s.lose.Full then (s.lose, true) else lostLoop lost s.lose

/-- Source: `statistics->delta < 0 || statistics->delta > 127` -/
def IsLarge (delta : ℤ) : Prop := delta < 0 ∨ 127 < delta

instance (delta : ℤ) : Decidable (IsLarge delta) := inferInstanceAs (Decidable (_ ∨ _))

/-- The time between two packets in units of 250 microseconds, as an `int`.
Source: `ast_tvdiff_us (statistics->received, previous_packet->received) / 250` -/
def deltaBetween (previous statistics : PacketStatistics) : ℤ :=
  Int.bmod (Int.tdiv (statistics.received - previous.received) 250) (2 ^ 32)

/-- Source: `rtp_transport_wide_cc_feedback_produce` ("Based on the delta") -/
def FeedbackLoop.receive (s : FeedbackLoop) (statistics : PacketStatistics) : FeedbackLoop :=
  let delta := deltaBetween s.previous statistics
  { s with
    writer := s.writer.statusAppend (if IsLarge delta then 2 else 1)
    deltaLen := s.deltaLen + if IsLarge delta then 2 else 1
    previous := statistics
    deltas := s.deltas ++ [delta] }

/-- The loop over the statistics after the first one.
Source: `rtp_transport_wide_cc_feedback_produce` (the first loop) -/
def statusLoop : FeedbackLoop → List PacketStatistics → FeedbackLoop
  | s, [] => s
  | s, statistics :: rest =>
    match lostLoop (lostBetween s.previous statistics) { s with packetCount := (s.packetCount + 1) % 2 ^ 32 } with
    | (s, true) => s
    | (s, false) =>
      if (s.receive statistics).Full then s.receive statistics else statusLoop (s.receive statistics) rest

/-- The loop when the first packet was handled: nothing is lost before it.
Source: `rtp_transport_wide_cc_feedback_produce` (`first_packet`, `previous_packet =
first_packet`) -/
def FeedbackLoop.start (first : PacketStatistics) : FeedbackLoop :=
  FeedbackLoop.receive
    { writer := .start, deltaLen := 0, packetCount := 1, previous := first, deltas := [] } first

/-- Source: `rtp_transport_wide_cc_feedback_produce` (the first loop) -/
def feedbackStatuses (first : PacketStatistics) (rest : List PacketStatistics) : FeedbackLoop :=
  if (FeedbackLoop.start first).Full then .start first else statusLoop (.start first) rest

/-- The feedback packet. `header` is the word with the base sequence number and the packet count,
and `deltas` has the bytes of each receive delta.
Source: `rtp_transport_wide_cc_feedback_produce` -/
structure Feedback where
  header : ℕ
  packetCount : ℕ
  chunks : List ℕ
  deltas : List (List ℕ)
  packetLen : ℕ
  deriving DecidableEq, Repr

/-- Source: `rtp_transport_wide_cc_feedback_produce` ("We iterate again to") -/
def deltaBytes (delta : ℤ) : List ℕ :=
  if IsLarge delta then [(delta % 65536).toNat / 256, (delta % 65536).toNat % 256] else [delta.toNat]

/-- The last chunk, the deltas of the statistics up to the last one that was handled, and the
padding.
Source: `rtp_transport_wide_cc_feedback_produce` -/
def FeedbackLoop.finish (first : PacketStatistics) (s : FeedbackLoop) : Feedback :=
  let deltas := s.deltas.map deltaBytes
  let packetLen := s.writer.flush.packetLen + (deltas.map List.length).sum
  { header := (first.seqno <<< 16 ||| s.packetCount) % 2 ^ 32
    packetCount := s.packetCount
    chunks := s.writer.flush.chunks
    deltas
    packetLen := packetLen + (4 - packetLen % 4) % 4 }

def feedbackProduce (first : PacketStatistics) (rest : List PacketStatistics) : Feedback :=
  (feedbackStatuses first rest).finish first

/-! ## What the packet should say -/

/-- Statistics as they are noted: ordered by number, with fewer than `2 ^ 32` numbers between any
two.
Source: `rtp_transport_wide_cc_feedback_produce` ("The vector stores statistics") -/
structure Given (stats : List PacketStatistics) : Prop where
  sorted : stats.Pairwise fun a b => a.seqno ≤ b.seqno
  span : ∀ x ∈ stats, ∀ y ∈ stats, x.seqno < y.seqno + 2 ^ 32

instance (stats : List PacketStatistics) : Decidable (Given stats) :=
  decidable_of_iff
    (stats.Pairwise (fun a b => a.seqno ≤ b.seqno) ∧ ∀ x ∈ stats, ∀ y ∈ stats, x.seqno < y.seqno + 2 ^ 32)
    ⟨fun h => ⟨h.1, h.2⟩, fun h => ⟨h.sorted, h.span⟩⟩

structure Describes (first : PacketStatistics) (stats : List PacketStatistics) (fb : Feedback) :
    Prop where
  base : fb.header / 2 ^ 16 = first.seqno % 2 ^ 16
  count : fb.header % 2 ^ 16 = fb.packetCount
  statuses : ∃ statuses, decodeStatuses fb.packetCount fb.chunks = some statuses ∧
    (∀ k < fb.packetCount, statuses.getD k 0 ≠ 0 ↔ ∃ x ∈ stats, x.seqno = first.seqno + k) ∧
    fb.deltas.length = statuses.countP (· ≠ 0)
  size : fb.packetLen ≤ 1024

/-- No number comes twice, no more than 8191 are missing in one place, and there is room for the
statuses of those that are missing. `weight` counts the statuses before the gap, of an earlier gap
no more than fourteen: seven of them take two bytes. `deltaLen` are the bytes of the deltas so
far. -/
def GapsFit : PacketStatistics → ℕ → ℕ → List PacketStatistics → Prop
  | _, _, _, [] => True
  | previous, weight, deltaLen, x :: rest =>
    let lost := x.seqno - (previous.seqno + 1)
    previous.seqno < x.seqno ∧ lost < 2 ^ 13 ∧
      (0 < lost → 2 * ((weight + min lost 14) / 7) + deltaLen ≤ 984) ∧
      GapsFit x (weight + min lost 14 + 1) (deltaLen + if IsLarge (deltaBetween previous x) then 2 else 1) rest

instance decidableGapsFit : (previous : PacketStatistics) → (weight deltaLen : ℕ) → (rest : List PacketStatistics) →
    Decidable (GapsFit previous weight deltaLen rest)
  | _, _, _, [] => isTrue trivial
  | _, _, _, x :: rest =>
    have := fun weight deltaLen => decidableGapsFit x weight deltaLen rest
    inferInstanceAs (Decidable (_ ∧ _ ∧ _ ∧ _))

/-- Fewer than 8192 packets were received, of fewer than 65536 numbers, and the gaps fit. -/
structure Describable (first : PacketStatistics) (rest : List PacketStatistics) : Prop where
  few : rest.length + 1 < 2 ^ 13
  span : ∀ x ∈ rest, x.seqno - first.seqno + 1 < 2 ^ 16
  gaps : GapsFit first 1 1 rest

/-! ## The statistics are ordered -/

/-- The notes are ordered, with numbers not above the last one that was appended, which is of the
cycles so far. There are at most 1001.
Source: `rtp_instance_parse_transport_wide_cc` -/
structure Noted (cc : TransportCc) : Prop where
  sorted : cc.packetStatistics.Pairwise fun a b => a.seqno ≤ b.seqno
  last : ∀ x ∈ cc.packetStatistics, x.seqno ≤ cc.lastExtendedSeqno
  cycle : cc.packetStatistics ≠ [] → cc.lastExtendedSeqno < cc.cycles + 65536
  length : cc.packetStatistics.length ≤ 1001

section Noted

variable {cc : TransportCc} {elem : PacketStatistics} {vec : List PacketStatistics} {packets : List (ℕ × ℤ)}

lemma packetStatisticsCmp_pos_iff {x : PacketStatistics} (hx : x.seqno < 2 ^ 31) (helem : elem.seqno < 2 ^ 31) :
    0 < packetStatisticsCmp x elem ↔ elem.seqno < x.seqno := by
  rw [packetStatisticsCmp, Int.bmod_def]
  split_ifs <;> omega

lemma parseTransportWideCc_cycles (cc : TransportCc) (seqno : ℕ) (now : ℤ) :
    cc.cycles ≤ (parseTransportWideCc cc seqno now).cycles := by
  rw [parseTransportWideCc]
  split_ifs <;> simp

lemma parseRun_cycles (cc : TransportCc) (packets : List (ℕ × ℤ)) : cc.cycles ≤ (parseRun cc packets).cycles := by
  induction packets generalizing cc with
  | nil => exact le_rfl
  | cons p packets ih => exact (parseTransportWideCc_cycles cc p.1 p.2).trans (ih _)

lemma Noted.parse {seqno : ℕ} {now : ℤ} (h : Noted cc) (hseqno : seqno < 65536)
    (hcyc : (parseTransportWideCc cc seqno now).cycles + 65536 ≤ 2 ^ 31) :
    Noted (parseTransportWideCc cc seqno now) := by
  obtain ⟨cycles, hcycles, hge⟩ : ∃ cycles, (if (cc.lastSeqno : ℤ) - seqno > 100 then cc.cycles + 65536
      else cc.cycles) = cycles ∧ cc.cycles ≤ cycles := ⟨_, rfl, by split_ifs <;> omega⟩
  -- what is kept of the vector
  obtain ⟨vec, hvec, hsrt, hbd, hlast, hlen⟩ : ∃ vec : List PacketStatistics,
      (if 1000 < cc.packetStatistics.length then [] else cc.packetStatistics) = vec ∧
      vec.Pairwise (fun a b => a.seqno ≤ b.seqno) ∧ (∀ x ∈ vec, x.seqno ≤ cc.lastExtendedSeqno) ∧
      (vec ≠ [] → cc.lastExtendedSeqno < cc.cycles + 65536) ∧ vec.length ≤ 1000 := by
    split_ifs with hmany
    · exact ⟨[], rfl, by simp⟩
    · exact ⟨_, rfl, h.sorted, h.last, h.cycle, not_lt.1 hmany⟩
  simp only [parseTransportWideCc, hcycles, hvec] at hcyc ⊢
  split_ifs at hcyc ⊢ with happ
  all_goals change cycles + 65536 ≤ 2 ^ 31 at hcyc
  · have hbel : ∀ x ∈ vec, x.seqno ≤ cycles + seqno := by
      intro x hx
      rcases happ with rfl | hlt
      · simp at hx
      · have hle := hbd x hx
        have hcc := hlast (ne_nil_of_mem hx)
        omega
    refine ⟨?_, ?_, fun _ => Nat.add_lt_add_left hseqno _, ?_⟩
    · refine pairwise_append.2 ⟨hsrt, by simp, ?_⟩
      simpa using hbel
    · intro x hx
      rcases mem_append.1 hx with hx | hx
      · exact hbel x hx
      · rw [mem_singleton.1 hx]
    · simp only [length_append, length_singleton]
      omega
  · obtain ⟨hne, hnot⟩ := not_or.1 happ
    have hcc := hlast hne
    refine ⟨?_, ?_, fun _ => hcc.trans_le (Nat.add_le_add_right hge _), ?_⟩
    · refine addSorted_sorted (fun x hx => packetStatisticsCmp_pos_iff ?_ (by dsimp only; omega)) hsrt
      have := hbd x hx
      omega
    · intro x hx
      rcases mem_cons.1 ((addSorted_perm packetStatisticsCmp _ vec).mem_iff.1 hx) with rfl | hx
      · dsimp only
        omega
      · exact hbd x hx
    · simp only [(addSorted_perm packetStatisticsCmp _ vec).length_eq, length_cons]
      omega

lemma Noted.parseRun (h : Noted cc) (hpks : ∀ p ∈ packets, p.1 < 65536)
    (hcyc : (parseRun cc packets).cycles + 65536 ≤ 2 ^ 31) : Noted (parseRun cc packets) := by
  induction packets generalizing cc with
  | nil => exact h
  | cons p packets ih =>
    have hmono := parseRun_cycles (parseTransportWideCc cc p.1 p.2) packets
    obtain ⟨hp, hrest⟩ := forall_mem_cons.1 hpks
    exact ih (h.parse hp ((Nat.add_le_add_right hmono _).trans hcyc)) hrest hcyc

/-- **The notes of a run** that starts with none, for an instance that is not bundled: they are in
order, as the feedback takes them, and few. -/
theorem parseRun_given (hemp : cc.packetStatistics = []) (hpks : ∀ p ∈ packets, p.1 < 65536)
    (hcyc : (parseRun cc packets).cycles + 65536 ≤ 2 ^ 31) :
    Given (parseRun cc packets).packetStatistics ∧ (parseRun cc packets).packetStatistics.length ≤ 1001 := by
  have hsta : Noted cc := by constructor <;> simp [hemp]
  have hnoted := hsta.parseRun hpks hcyc
  refine ⟨⟨hnoted.sorted, ?_⟩, hnoted.length⟩
  intro x hx y _
  have hlast := hnoted.last x hx
  have hcycle := hnoted.cycle (ne_nil_of_mem hx)
  omega

/-- A packet that comes late. -/
theorem parseRun_given_late : Given (parseRun .start [(1, 0), (3, 10), (2, 20)]).packetStatistics :=
  (parseRun_given rfl (by decide) (by decide)).1

end Noted

end Telephony.Rtp
