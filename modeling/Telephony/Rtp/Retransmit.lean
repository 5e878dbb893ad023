import Telephony.Buffer.DataBuffer
import Telephony.Rtp.Nack
import Telephony.Rtp.RawWrite

/-!
# Retransmissions

`rtp_raw_write` stores each packet in the send buffer under the number of the session, and
`ast_rtp_rtcp_handle_nack` sends what is stored under the numbers that a negative acknowledgement
asks for. A payload of the model is the first word of its packet, and memory is never exhausted.
-/

namespace Telephony.Rtp

open Buffer Lib List Nat Option

/-! ## Data model -/

def maximumRtpSendBufferSize : ℕ := 250 + 200

/-- Source: `struct ast_rtp` (`send_buffer`) -/
structure RtpStore where
  rtp : RtpSend
  sendBuffer : DataBuffer ℕ
  deriving DecidableEq, Repr

/-- The number of the session when the packet is stored.
Source: `rtp_raw_write` (`rtp->seqno += difference`) -/
def RtpSend.own (rtp : RtpSend) (f : SendFrame) : ℕ :=
  if 0 ≤ rtp.difference f then (rtp.seqno + (rtp.difference f).toNat) % 2 ^ 16 else rtp.seqno

/-- Source: `rtp_raw_write` ("If retransmissions are enabled") -/
def RtpStore.put (s : RtpStore) (f : SendFrame) : Option (Bool × DataBuffer ℕ) :=
  s.sendBuffer.put (s.rtp.own f) (rtpRawWrite s.rtp f).2

/-- The packets that are sent again, and the buffer, which grows when some were not found. -/
def rtcpHandleNack (sendBuffer : DataBuffer ℕ) (nackdata : List ℕ) : List ℕ × DataBuffer ℕ :=
  let asked := nackdata.flatMap nackRequests
  let packetsNotFound := asked.countP fun n => (sendBuffer.get n).isNone
  (asked.filterMap sendBuffer.get,
    if packetsNotFound = 0 then sendBuffer
    else sendBuffer.resize (min maximumRtpSendBufferSize (sendBuffer.max + packetsNotFound)))

inductive SendOp
  | write (f : SendFrame)
  | nack (nackdata : List ℕ)

def sendStep (s : RtpStore) : SendOp → Option RtpStore
  | .write f => (s.put f).map fun out => ⟨(rtpRawWrite s.rtp f).1, out.2⟩
  | .nack nackdata => some { s with sendBuffer := (rtcpHandleNack s.sendBuffer nackdata).2 }

/-! ## What is stored -/

/-- Every packet is stored under its own number. -/
def Numbered (sendBuffer : DataBuffer ℕ) : Prop := ∀ e ∈ sendBuffer.payloads, numberOf e.2 = e.1

/-- A frame is on time or in the future, or the buffer does not take its packet: the place is taken,
or there is no entry for it. -/
def OnTime (s : RtpStore) : SendOp → Prop
  | .write f =>
    0 ≤ s.rtp.difference f ∨ s.rtp.own f ∈ s.sendBuffer.remaining.map Prod.fst ∨ s.sendBuffer.takeEntry = none
  | .nack _ => True

instance (s : RtpStore) : DecidablePred (OnTime s)
  | .write _ => inferInstanceAs (Decidable (_ ∨ _ ∨ _))
  | .nack _ => isTrue trivial

variable {s s' : RtpStore} {buffer : DataBuffer ℕ} {op : SendOp}

lemma numberOf_headerWord (f : SendFrame) (n : ℕ) : numberOf (headerWord f n) = n % 2 ^ 16 := by
  have hshf (a : ℕ) {i : ℕ} (hi : 16 ≤ i) : a <<< i % 2 ^ 16 = 0 := by
    obtain ⟨j, rfl⟩ := Nat.exists_eq_add_of_le hi
    rw [shiftLeft_eq, Nat.pow_add, Nat.mul_left_comm, Nat.mul_mod_right]
  simp only [numberOf, headerWord, or_mod_two_pow, hshf _ (by decide : 16 ≤ 30), hshf _ (by decide : 16 ≤ 28),
    hshf _ le_rfl, hshf _ (by decide : 16 ≤ 23), Nat.zero_or, Nat.or_zero]

lemma numberOf_rtpRawWrite (rtp : RtpSend) (f : SendFrame) :
    numberOf (rtpRawWrite rtp f).2 = rtp.own f ↔ 0 ≤ rtp.difference f := by
  have hdiff := abs_le.mp (rtp.abs_difference_le f)
  simp only [rtpRawWrite, numberOf_headerWord, RtpSend.own]
  split_ifs <;> omega

lemma handleNack_payloads (buffer : DataBuffer ℕ) (nackdata : List ℕ) :
    (rtcpHandleNack buffer nackdata).2.payloads <:+ buffer.payloads := by
  unfold rtcpHandleNack
  dsimp only
  split_ifs
  · exact suffix_refl _
  · obtain ⟨j, -, hj, -⟩ := resize_payloads buffer _
    exact hj ▸ drop_suffix j _

section

variable (hinc : Increasing s.sendBuffer.payloads)
include hinc

lemma put_numbered {f : SendFrame} {ok : Bool} (h : Numbered s.sendBuffer) (hput : s.put f = some (ok, buffer)) :
    Numbered buffer ↔ 0 ≤ s.rtp.difference f ∨ ok = false := by
  obtain ⟨-, l, hsuf, hl⟩ := put_payloads hinc hput
  have hold : ∀ e ∈ l, numberOf e.2 = e.1 := fun e he => h e (hsuf.subset he)
  unfold Numbered
  cases ok with
  | false =>
    exact iff_of_true (hl ▸ hold) (.inr rfl)
  | true =>
    simp only [hl.mem_iff, forall_mem_cons, numberOf_rtpRawWrite, reduceCtorEq, or_false]
    exact and_iff_left hold

lemma sendStep_increasing (hstep : sendStep s op = some s') : Increasing s'.sendBuffer.payloads := by
  cases op with
  | write f =>
    obtain ⟨⟨ok, buffer⟩, hput, rfl⟩ := map_eq_some_iff.mp hstep
    exact (put_payloads hinc hput).1
  | nack nackdata =>
    cases hstep
    exact hinc.sublist (handleNack_payloads _ _).sublist

/-- One step: the packets keep their numbers exactly when the step is on time. -/
lemma sendStep_numbered (h : Numbered s.sendBuffer) :
    (∀ s' ∈ sendStep s op, Numbered s'.sendBuffer) ↔ OnTime s op := by
  cases op with
  | write f =>
    rw [OnTime, ← put_refused_iff hinc (rtpRawWrite s.rtp f).2]
    constructor
    · intro hstep
      refine or_iff_not_imp_right.mpr fun htk => ?_
      obtain ⟨buffer, hput⟩ := not_forall_not.mp htk
      have hnum := hstep _ (by rw [sendStep, RtpStore.put, hput]; rfl)
      exact ((put_numbered hinc h hput).mp hnum).resolve_right Bool.true_eq_false_eq_False
    · intro hon s' hstep
      obtain ⟨⟨ok, buffer⟩, hput, rfl⟩ := map_eq_some_iff.mp hstep
      refine (put_numbered hinc h hput).mpr (hon.imp_right fun hrefused => ?_)
      exact Bool.eq_false_of_not_eq_true fun hok => hrefused buffer (hok ▸ hput)
  | nack nackdata =>
    refine iff_of_true (fun s' hstep e he => ?_) trivial
    cases hstep
    exact h e ((handleNack_payloads _ _).subset he)

end

lemma handleNack_numbers (h : Numbered buffer) (nackdata : List ℕ) : (rtcpHandleNack buffer nackdata).1.map numberOf =
      (nackdata.flatMap nackRequests).filter fun n => (buffer.get n).isSome := by
  have hget {n word : ℕ} (hword : buffer.get n = some word) : numberOf word = n := by
    obtain ⟨e, hfind, rfl⟩ := map_eq_some_iff.mp hword
    rw [h e (mem_of_find?_eq_some hfind)]
    simpa using find?_some hfind
  simp only [rtcpHandleNack]
  induction nackdata.flatMap nackRequests with
  | nil => rfl
  | cons n asked ih =>
    cases hn : buffer.get n with
    | none => rw [filterMap_cons_none hn, filter_cons_of_neg (by simp [hn]), ih]
    | some word => rw [filterMap_cons_some hn, filter_cons_of_pos (by simp [hn]), map_cons, ih, hget hn]

/-- **Retransmissions are the packets asked for.** In every state of a run each packet is stored
under its own number exactly when no late frame is stored, and then the packets sent have the
numbers that are asked for and found. -/
theorem numberedRun_iff_onTime (rtp : RtpSend) (size : ℕ) (ops : List SendOp) :
    (Each sendStep (fun s op => ∀ s' ∈ sendStep s op, Numbered s'.sendBuffer) ⟨rtp, .alloc size⟩ ops ↔
      Each sendStep OnTime ⟨rtp, .alloc size⟩ ops) ∧
      ∀ buffer, Numbered buffer → ∀ nackdata,
        (rtcpHandleNack buffer nackdata).1.map numberOf =
          (nackdata.flatMap nackRequests).filter fun n => (buffer.get n).isSome := by
  refine ⟨?_, fun _ => handleNack_numbers⟩
  refine each_iff_of_inv (I := fun s => Increasing s.sendBuffer.payloads ∧ Numbered s.sendBuffer) ?_ ?_ ?_
  · exact fun s op h => sendStep_numbered h.1 h.2
  · exact fun s op h hnum s' hstep => ⟨sendStep_increasing h.1 hstep, hnum s' hstep⟩
  · exact ⟨by rw [alloc_payloads]; exact .nil, fun e he => by simp [alloc_payloads] at he⟩

/-- Frame 10, frame 12, a request for number 101, which is not there, and frame 13. -/
theorem numberedRun_iff_onTime_gap :
    Each sendStep (fun s op => ∀ s' ∈ sendStep s op, Numbered s'.sendBuffer) ⟨⟨100, by decide, 10⟩, .alloc 250⟩
      [.write ⟨some 10, false, 0, false⟩, .write ⟨some 12, false, 0, false⟩, .nack [101 <<< 16],
        .write ⟨some 13, false, 0, false⟩] :=
  (numberedRun_iff_onTime _ 250 _).1.mpr (by decide)

/-- The frames 10, 12 and 11 come: the packet of the last one, with number 101, is stored as number
103 and sent to a receiver that asks for 103. -/
theorem sendStep_stores_late :
    (([10, 12, 11].foldlM (fun s n => sendStep s (.write ⟨some n, false, 0, false⟩))
        ⟨⟨100, by decide, 10⟩, .alloc 250⟩).map
      fun s => (rtcpHandleNack s.sendBuffer [103 <<< 16]).1.map numberOf) = some [101] := by
  decide

end Telephony.Rtp
