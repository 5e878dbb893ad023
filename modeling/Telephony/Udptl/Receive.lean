import Mathlib.Algebra.Order.Ring.Int
import Telephony.Lib.RingWalk
import Telephony.Udptl.Codec

/-!
# Receiving UDPTL packets

`udptl_rx_packet` of `main/udptl.c`, on the octets of one datagram. A rejected datagram (`-1`, here
`none`) may have changed the state: the source returns from the middle of the update, and so does
the model, which always gives back the state it reached.

The arrays `buf` and `fec` of a slot are functions on all indices. In the source they have
`LOCAL_FAX_MAX_DATAGRAM` octets, and an access beyond that is undefined.
-/

namespace Telephony.Udptl

open Lib Function

/-! ## Data model -/

def localFaxMaxDatagram : ℕ := 1400

def maxFecEntries : ℕ := 5

/-- Source: `udptl_fec_rx_buffer_t` -/
structure RxSlot where
  bufLen : ℤ
  buf : ℕ → UInt8
  fecLen : ℕ → ℕ
  fec : ℕ → ℕ → UInt8
  fecSpan : ℕ
  fecEntries : ℕ

/-- The receiving half of a session; `rx` is indexed modulo 16.
Source: `struct ast_udptl` (`rx_seq_no`, `rx`) -/
structure RxState where
  rxSeqNo : ℕ
  rx : ℕ → RxSlot

/-- Source: `struct ast_frame` as filled in by `udptl_rx_packet` -/
structure Frame where
  seqno : ℤ
  data : Bytes
  deriving DecidableEq, Repr

/-- Source: `ast_udptl_new_with_bindaddr` (`ast_calloc`, `rx[i].buf_len = -1`) -/
def RxState.new : RxState where
  rxSeqNo := 0
  rx _ := ⟨-1, fun _ => 0, fun _ => 0, fun _ _ => 0, 0, 0⟩

def RxState.modify (s : RxState) (x : ℕ) (f : RxSlot → RxSlot) : RxState :=
  { s with rx := update s.rx x (f (s.rx x)) }

@[simp] lemma RxState.modify_rx_self (s : RxState) (x : ℕ) (f : RxSlot → RxSlot) :
    (s.modify x f).rx x = f (s.rx x) := by
  simp [RxState.modify]

lemma RxState.modify_rx_of_ne (s : RxState) {x y : ℕ} (h : y ≠ x) (f : RxSlot → RxSlot) :
    (s.modify x f).rx y = s.rx y := by
  simp [RxState.modify, Function.update_of_ne h]

def memcpy (dst : ℕ → UInt8) (src : Bytes) : ℕ → UInt8 :=
  fun j => (src[j]?).getD (dst j)

/-! ## Sequence numbers -/

/-- The unwrapped number of the received packet and the expected one.
Source: `udptl_rx_packet` ("received seq_no has wrapped") -/
def unwrapSeqNo (rxSeqNo seqNo : ℕ) : ℕ × ℕ :=
  if seqNo < 0x000F ∧ 0xFFF0 < rxSeqNo then (seqNo + 0x10000, rxSeqNo)
  else (seqNo, rxSeqNo &&& 0xFFFF)

/-- Hand up the recovered frames and then the primary IFP, unless it was seen before.
Source: `udptl_rx_packet` (from "If packets are received") -/
def finishPacket (s : RxState) (seqNo : ℕ) (ifp : Bytes) (frames : List Frame) : Option (List Frame) × RxState :=
  (some (frames ++ if s.rxSeqNo ≤ seqNo then [⟨seqNo, ifp⟩] else []),
    { s with rxSeqNo := seqNo + 1 })

/-! ## Redundancy -/

/-- Read up to `count` secondary packets behind those already read; zero-length ones are ignored,
and the table holds fifteen.
Source: `udptl_rx_packet` (the inner `for` loop) -/
def decodeSecondaries : ℕ → List Bytes → Bytes → Option (List Bytes × Bytes)
  | 0, bufs, rest => some (bufs, rest)
  | count + 1, bufs, rest =>
    if bufs.length < 15 then
      match decodeOpenType rest with
      | none => none
      | some (b, rest) => decodeSecondaries count (if b = [] then bufs else bufs ++ [b]) rest
    else some (bufs, rest)

/-- The groups of secondary packets; a fragmented count announces a further group. A round reads at
least one octet.
Source: `udptl_rx_packet` (`do { ... } while (stat2 > 0 && total_count < ARRAY_LEN(bufs))`) -/
def decodeGroups : ℕ → List Bytes → Bytes → Option (List Bytes)
  | 0, _, _ => none
  | fuel + 1, bufs, rest =>
    match decodeLength rest with
    | .fail => none
    | .value count rest => (decodeSecondaries count bufs rest).map Prod.fst
    | .fragment count rest =>
      match decodeSecondaries count bufs rest with
      | none => none
      | some (bufs, rest) => if bufs.length < 15 then decodeGroups fuel bufs rest else some bufs

/-- Frames for the secondary packets that were not seen before, oldest first. The comparison is one
of unsigned numbers.
Source: `udptl_rx_packet` ("Step through in reverse") -/
def recoverSecondaries (rxSeqNo seqNo : ℕ) (bufs : List Bytes) : List Frame :=
  (bufs.zipIdx 1).reverse.filterMap fun p =>
    if (rxSeqNo : ℤ) ≤ ((seqNo : ℤ) - p.2) % 2 ^ 32 then some ⟨(seqNo : ℤ) - p.2, p.1⟩ else none

/-- Source: `udptl_rx_packet` ("Secondary packet mode for") -/
def rxSecondary (s : RxState) (seqNo : ℕ) (ifp rest : Bytes) : Option (List Frame) × RxState :=
  if s.rxSeqNo < seqNo then
    match decodeGroups rest.length [] rest with
    | none => (none, s)
    | some bufs => finishPacket s seqNo ifp (recoverSecondaries s.rxSeqNo seqNo bufs)
  else finishPacket s seqNo ifp []

/-! ## Forward error correction -/

/-- Source: `udptl_rx_packet` ("Update any missed slots") -/
def RxSlot.missed (slot : RxSlot) : RxSlot :=
  { slot with bufLen := -1, fecLen := update slot.fecLen 0 0, fecSpan := 0, fecEntries := 0 }

def markMissed : ℕ → RxState → RxState
  | 0, s => s
  | count + 1, s =>
    markMissed count { s.modify (s.rxSeqNo % 16) RxSlot.missed with rxSeqNo := s.rxSeqNo + 1 }

/-- Read `count` FEC entries into slot `x`, the first one as number `i`. A length is stored before
it is checked.
Source: `udptl_rx_packet` ("Decode the elements") -/
def decodeFecElements (x : ℕ) : ℕ → ℕ → RxState → Bytes → Bool × RxState
  | 0, _, s, _ => (true, s)
  | count + 1, i, s, rest =>
    match decodeOpenType rest with
    | none => (false, s)
    | some (data, rest) =>
      let s := s.modify x fun slot =>
        { slot with fecLen := update slot.fecLen i data.length }
      if localFaxMaxDatagram < data.length then (false, s)
      else
        decodeFecElements x count (i + 1)
          (s.modify x fun slot => { slot with fec := update slot.fec i (memcpy (slot.fec i) data) })
          rest

/-- The missing packets among those of one FEC entry: none, exactly one, or more.
Source: `udptl_rx_packet` (`which`: `-1`, a slot, `-2`) -/
inductive Missing
  | none
  | one (k : ℕ)
  | many
  deriving DecidableEq, Repr

def Missing.add : Missing → ℕ → Missing
  | .none, k => .one k
  | _, _ => .many

/-- Source: `udptl_rx_packet`, `udptl_build_packet` (the loops over `k` and `i`) -/
def fecWalk (l m span entries : ℕ) : List ℕ :=
  ringWalk 16 ((l + m) % 16) entries 16 ((((l + m) % 16 : ℕ) - (span * entries : ℕ) : ℤ) % 16).toNat

lemma lt_of_mem_fecWalk {l m span entries k : ℕ} (h : k ∈ fecWalk l m span entries) : k < 16 :=
  lt_of_mem_ringWalk (by omega) (by omega) h

/-- Source: `udptl_rx_packet` (`if (s->rx[k].buf_len <= 0)`) -/
def Missing.scan (rx : ℕ → RxSlot) (which : Missing) (k : ℕ) : Missing :=
  if (rx k).bufLen ≤ 0 then which.add k else which

def findMissing (rx : ℕ → RxSlot) (walk : List ℕ) : Missing := walk.foldl (Missing.scan rx) .none

/-- Source: `udptl_rx_packet` ("Repairable") -/
def repairedOctet (rx : ℕ → RxSlot) (walk : List ℕ) (parity : ℕ → UInt8) (j : ℕ) : UInt8 :=
  walk.foldl (fun b k => b ^^^ (if (j : ℤ) < (rx k).bufLen then (rx k).buf j else 0)) (parity j)

structure RepairState where
  rx : ℕ → RxSlot
  repaired : ℕ → Bool

/-- Try to repair one packet with FEC entry `m` of slot `l`. The bound on `seq_no` is a comparison
of unsigned numbers.
Source: `udptl_rx_packet` (the body of the loop over `m`) -/
def repairEntry (seqNo l : ℕ) (st : RepairState) (m : ℕ) : RepairState :=
  let slot := st.rx l
  let walk := fecWalk l m slot.fecSpan slot.fecEntries
  if (seqNo : ℤ) ≤ ((slot.fecSpan * slot.fecEntries : ℕ) - m : ℤ) % 2 ^ 32 then st
  else
    match findMissing st.rx walk with
    | .one which =>
      { rx := update st.rx which
          { st.rx which with
            buf := fun j =>
              if j < slot.fecLen m then repairedOctet st.rx walk (slot.fec m) j
              else (st.rx which).buf j
            bufLen := slot.fecLen m }
        repaired := update st.repaired which true }
    | _ => st

/-- Source: `udptl_rx_packet` (the loop over `m`) -/
def repairSlot (seqNo : ℕ) (st : RepairState) (l : ℕ) : RepairState :=
  if (st.rx l).fecLen 0 = 0 then st
  else (List.range (st.rx l).fecEntries).foldl (repairEntry seqNo l) st

/-- The slots whose FEC entries are tried, from the slot of the packet backwards.
Source: `udptl_rx_packet` ("See if we can") -/
def repairWalk (x span entries : ℕ) : List ℕ :=
  ringWalk 16 (((x : ℤ) - (16 - (span * entries : ℕ))) % 16).toNat 15 16 x

def RxSlot.data (slot : RxSlot) : Bytes := (List.range slot.bufLen.toNat).map slot.buf

/-- Frames for the repaired packets, forwards in time: the fifteen slots behind slot `x` belong to
the fifteen numbers before `seq_no`.
Source: `udptl_rx_packet` ("Now play any new") -/
def playRepaired (st : RepairState) (seqNo x : ℕ) : List Frame :=
  (List.range 15).filterMap fun t =>
    let l := (x + 1 + t) % 16
    if st.repaired l then some ⟨(seqNo : ℤ) - 15 + t, (st.rx l).data⟩ else none

/-- Store the primary IFP and read the FEC data of the packet into its slot; `none` when the packet
is rejected on the way.
Source: `udptl_rx_packet` (from "Save the new IFP packet" to "Decode the elements") -/
def storeFec (s : RxState) (x : ℕ) (ifp rest : Bytes) : Option (ℕ × ℕ) × RxState :=
  let s := s.modify x fun slot => { slot with buf := memcpy slot.buf ifp, bufLen := ifp.length }
  match rest with
  | spanLength :: span :: rest =>
    if spanLength ≠ 1 then (none, s)
    else
      let s := s.modify x fun slot => { slot with fecSpan := span.toNat }
      match rest with
      | [] => (none, s)
      | entries :: rest =>
        if maxFecEntries < entries.toNat then (none, s)
        else
          let s := s.modify x fun slot => { slot with fecEntries := entries.toNat }
          let r := decodeFecElements x entries.toNat 0 s rest
          (if r.1 then some (span.toNat, entries.toNat) else none, r.2)
  | _ => (none, s)

/-- Source: `udptl_rx_packet` ("FEC mode for error recovery") -/
def rxFec (s : RxState) (seqNo : ℕ) (ifp rest : Bytes) : Option (List Frame) × RxState :=
  if localFaxMaxDatagram < ifp.length then (none, s)
  else
    let x := seqNo % 16
    let r := storeFec (markMissed (seqNo - s.rxSeqNo) s) x ifp rest
    match r.1 with
    | none => (none, r.2)
    | some (span, entries) =>
      let st := (repairWalk x span entries).foldl (repairSlot seqNo) ⟨r.2.rx, update (fun _ => false) x true⟩
      finishPacket { r.2 with rx := st.rx } seqNo ifp (playRepaired st seqNo x)

/-! ## The packet -/

structure Header where
  seqNo : ℕ
  ifp : Bytes
  fec : Bool
  rest : Bytes

/-- Read the sequence number, the primary IFP and the error recovery mode. The expected number is
wrapped as soon as the sequence number is known.
Source: `udptl_rx_packet` (up to "Decode error_recovery") -/
def rxHeader (s : RxState) : Bytes → Option Header × RxState
  | hi :: lo :: rest =>
    let seq := unwrapSeqNo s.rxSeqNo ((hi.toNat <<< 8) ||| lo.toNat)
    let s := { s with rxSeqNo := seq.2 }
    match decodeOpenType rest with
    | some (ifp, recovery :: rest) =>
      (some ⟨seq.1, ifp, decide (recovery.toNat &&& 0x80 ≠ 0), rest⟩, s)
    | _ => (none, s)
  | _ => (none, s)

/-- Process one datagram: the frames handed up, or `none` for `-1`, and the new state. -/
def rxPacket (s : RxState) (buf : Bytes) : Option (List Frame) × RxState :=
  match rxHeader s buf with
  | (none, s) => (none, s)
  | (some h, s) => if h.fec then rxFec s h.seqNo h.ifp h.rest else rxSecondary s h.seqNo h.ifp h.rest

end Telephony.Udptl
