import Telephony.Rtp.Receive

/-!
# Reordering of received packets

What one packet can do to the receive path (`Received`), and whole runs.
-/

namespace Telephony.Rtp

open Buffer Lib List Option

/-! ## One packet -/

/-- The receive path between two packets: the expected packet does not wait, and the vector of
missing numbers has no duplicates.
Source: `struct ast_rtp` -/
structure Ready (rtp : RtpRecv) : Prop where
  window : InWindow rtp rtp.next
  waits : ∀ q ∈ rtp.held, q.number ≠ rtp.next
  nodup : rtp.missingSeqno.Nodup
  missing_lt : ∀ x ∈ rtp.missingSeqno, x < 65536
  last_lt : rtp.lastrxseqno < 65536

/-- What is written down before a packet is looked at. -/
abbrev RtpRecv.noted (rtp : RtpRecv) (p : RxPacket) : RtpRecv :=
  { rtp with lastrxseqno := p.seqno, received := rtp.received ++ [p], nack := [] }

/-- The expected packet is handed up, with those that follow it in the buffer. -/
structure TookExpected (rtp : RtpRecv) (p : RxPacket) (rtp' : RtpRecv) : Prop where
  number : p.number = rtp.next
  lt : rtp.next < rtp'.next
  held : ∀ q, q ∈ rtp'.held ↔ q ∈ rtp.held ∧ rtp'.next ≤ q.number
  pulled : ∀ n, rtp.next < n → n < rtp'.next → ∃ q ∈ rtp.held, q.number = n
  missing : rtp'.missingSeqno =
    if rtp.recvBuffer.count = 0 then rtp.missingSeqno else rtp.missingSeqno.erase p.seqno
  nack : rtp'.nack = []

/-- The buffer is emptied. -/
structure Dumped (rtp : RtpRecv) (p : RxPacket) (rtp' : RtpRecv) : Prop where
  gt : rtp.next < p.number
  lt : p.number < rtp'.next
  all : ∀ q ∈ rtp.held, q.number < rtp'.next
  held : rtp'.held = []
  missing : rtp'.missingSeqno = []
  nack : rtp'.nack = []

/-- The packet waits in the buffer. -/
structure PutAside (rtp : RtpRecv) (p : RxPacket) (rtp' : RtpRecv) : Prop where
  gt : rtp.next < p.number
  notDumps : ¬ rtp.Dumps p
  new : ∀ q ∈ rtp.held, q.number ≠ p.number
  next : rtp'.next = rtp.next
  held : ∀ q, q ∈ rtp'.held ↔ q = p ∨ q ∈ rtp.held
  missing : Lists rtp.lastrxseqno p rtp'.recvBuffer rtp.missingSeqno rtp'.missingSeqno
  nack : rtp'.nack = [] ∨ rtcpGenerateNack rtp'.expectedrxseqno rtp'.missingSeqno = some rtp'.nack

inductive Received (rtp : RtpRecv) (p : RxPacket) (rtp' : RtpRecv) : Prop
  | expected (h : TookExpected rtp p rtp')
  | dumped (h : Dumped rtp p rtp')
  | dropped (why : p.number < rtp.next ∨ rtp.next + 64535 ≤ p.number ∨ ∃ q ∈ rtp.held, q.number = p.number)
      (eq : rtp' = rtp.noted p)
  | future (h : PutAside rtp p rtp')

lemma Received.next_le {rtp rtp' : RtpRecv} {p : RxPacket} (h : Received rtp p rtp') : rtp.next ≤ rtp'.next := by
  cases h with
  | expected h => exact h.lt.le
  | dumped h => exact (h.gt.trans h.lt).le
  | dropped _ eq => exact eq ▸ le_rfl
  | future h => exact h.next.ge

section Step

variable {rtp : RtpRecv} {E : ℕ}

lemma InWindow.put (h : InWindow rtp E) {p : RxPacket} (hp : E ≤ p.number ∧ p.number < E + 65536)
    (hroom : rtp.recvBuffer.count ≠ rtp.recvBuffer.max) (hnew : rtp.recvBuffer.get p.seqno = none) :
    ∃ ok recvBuffer, rtp.recvBuffer.put p.seqno p = some (ok, recvBuffer) ∧
      InWindow { rtp with recvBuffer } E ∧
      ∀ q, q ∈ ({ rtp with recvBuffer } : RtpRecv).held ↔ q = p ∨ q ∈ rtp.held := by
  have hle := h.valid.count_le
  obtain ⟨ok, recvBuffer, hput, hval, hmax, hcs⟩ := h.valid.put h.max_lt h.max_pos p.seqno p
  have hperm : recvBuffer.payloads.Perm ((p.seqno, p) :: rtp.recvBuffer.payloads) := by
    rcases hcs (by omega) with ⟨htk, -, -⟩ | ⟨-, -, hperm⟩
    · obtain ⟨e, he, hpos⟩ := mem_map.mp htk
      have hnone := find?_eq_none.mp (map_eq_none_iff.mp hnew) e he
      exact absurd hpos (by simpa using hnone)
    · exact hperm
  have hheld : ∀ q, q ∈ ({ rtp with recvBuffer } : RtpRecv).held ↔ q = p ∨ q ∈ rtp.held := by
    intro q
    rw [RtpRecv.held, (hperm.map Prod.snd).mem_iff, map_cons, mem_cons, RtpRecv.held]
  refine ⟨ok, recvBuffer, hput, ⟨hval, hmax.symm ▸ h.max_pos, hmax.symm ▸ h.max_le, h.expected,
    fun e he => ?_, fun q hq => ?_, h.before, h.order⟩, hheld⟩
  · rcases mem_cons.mp (hperm.mem_iff.mp he) with rfl | he
    · rfl
    · exact h.position e he
  · rcases (hheld q).mp hq with rfl | hq
    · exact hp
    · exact h.window q hq

section

variable (hexp : rtp.expectedrxseqno = ((E % 65536 : ℕ) : ℤ))
include hexp

lemma sendNack_spec (hnd : rtp.missingSeqno.Nodup) (hlt : ∀ x ∈ rtp.missingSeqno, x < 65536) (added : ℕ) :
    ∃ nack, rtp.sendNack added = some { rtp with nack } ∧
      (nack = rtp.nack ∨ rtcpGenerateNack rtp.expectedrxseqno rtp.missingSeqno = some nack) := by
  obtain ⟨words, hwds, -⟩ :=
    rtcpGenerateNack_requests (Nat.mod_lt E (by decide : 65536 > 0)) hnd hlt
  rw [← hexp] at hwds
  unfold RtpRecv.sendNack
  split_ifs with htrigger
  · exact ⟨words, by rw [hwds, map_some], .inr hwds⟩
  · exact ⟨rtp.nack, rfl, .inl rfl⟩

lemma isOld_of_window {p : RxPacket} : (p.number < E → E ≤ p.number + 1000 → rtp.IsOld p) ∧
      (E ≤ p.number → p.number < E + 64535 → ¬ rtp.IsOld p) := by
  unfold RtpRecv.IsOld oldPacketCount RxPacket.seqno
  constructor <;> omega

end

lemma readFuture_spec (h : Ready rtp) {p : RxPacket} (gt : rtp.next < p.number) (hlt : p.number < rtp.next + 65536)
    (hdumps : ¬ rtp.Dumps p) (hget : rtp.recvBuffer.get p.seqno = none) :
    ∃ rtp', (rtp.noted p).readFuture rtp.lastrxseqno p = some rtp' ∧ Ready rtp' ∧
      rtp'.lastrxseqno = p.seqno ∧ rtp'.received = rtp.received ++ [p] ∧ Received rtp p rtp' := by
  obtain ⟨ok, recvBuffer, hput, hwin, hheld⟩ := h.window.put ⟨gt.le, hlt⟩ (fun hfull => hdumps (.inr hfull)) hget
  obtain ⟨vec, added, hlist, hvec, hveclt, hls⟩ :=
    @listMissing_spec { rtp.noted p with recvBuffer } _ h.last_lt p h.nodup h.missing_lt
  obtain ⟨nack, hsend, hnack⟩ :=
    @sendNack_spec { rtp.noted p with recvBuffer, missingSeqno := vec } rtp.next h.window.expected hvec hveclt added
  refine ⟨{ rtp.noted p with recvBuffer, missingSeqno := vec, nack }, ?_,
    ⟨{ hwin with }, fun q hq => ?_, hvec, hveclt, seqno_lt p⟩, rfl, rfl,
    .future ⟨gt, hdumps, fun q hq => h.window.get_eq_none hget hq, rfl, hheld, hls, hnack⟩⟩
  · rw [RtpRecv.readFuture, hput, bind_some]
    dsimp only
    rwa [hlist]
  · rcases (hheld q).mp hq with rfl | hq
    · exact gt.ne'
    · exact h.waits q hq

/-- A packet of the cycle that starts with the expected one, or one of the 1000 before, which must
not pass for a wild gap or for one packet too many. -/
def InReach (rtp : RtpRecv) (p : RxPacket) : Prop :=
  rtp.next ≤ p.number ∧ p.number < rtp.next + 65536 ∨ p.number < rtp.next ∧ rtp.next ≤ p.number + 1000 ∧ ¬ rtp.Dumps p

instance (rtp : RtpRecv) (p : RxPacket) : Decidable (InReach rtp p) :=
  inferInstanceAs (Decidable (_ ∨ _))

lemma rtpRead_received (h : Ready rtp) {p : RxPacket} (hp : InReach rtp p) :
    ∃ rtp', rtpRead rtp p = some rtp' ∧ Ready rtp' ∧ rtp'.lastrxseqno = p.seqno ∧
      rtp'.received = rtp.received ++ [p] ∧ Received rtp p rtp' := by
  have hlast := seqno_lt p
  have hwin : InWindow (rtp.noted p) rtp.next := { h.window with }
  have hexp := h.window.expected
  unfold rtpRead
  by_cases hhere : p.number = rtp.next
  · rw [if_pos (.inr (by rw [hexp, ← hhere, RxPacket.seqno]))]
    obtain ⟨rtp', E', hread, hpul⟩ := readExpected_spec hwin hhere h.waits
    have hnext := hpul.next
    have hmis := hpul.same.missingSeqno
    have hle := hpul.le
    have hlrx : rtp'.lastrxseqno = p.seqno := hpul.same.lastrxseqno
    subst hnext
    refine ⟨rtp', hread, ⟨hpul.window, hpul.waits, ?_, ?_, hlrx ▸ hlast⟩, hlrx,
      hpul.same.received, .expected ⟨hhere, hle, hpul.held, hpul.pulled, hmis, hpul.same.nack⟩⟩
    · rw [hmis]
      split_ifs
      · exact h.nodup
      · exact h.nodup.erase _
    · rw [hmis]
      split_ifs
      · exact h.missing_lt
      · exact fun x hx => h.missing_lt x (mem_of_mem_erase hx)
  have hoth : ¬ (rtp.expectedrxseqno = -1 ∨ (p.seqno : ℤ) = rtp.expectedrxseqno) := by
    rw [RxPacket.seqno]
    unfold InReach at hp
    omega
  rw [if_neg hoth]
  by_cases hdumps : (rtp.noted p).Dumps p
  · rw [if_pos hdumps]
    obtain ⟨hle, hlt⟩ := hp.resolve_right fun hpast => hpast.2.2 hdumps
    obtain ⟨rtp', E', hread, hwin', hnext, hheld, hmis, hlrx, hrcv, hnack, hp', hall⟩ :=
      readDump_spec hwin rfl hle hlt
    subst hnext
    refine ⟨rtp', hread, ⟨hwin', ?_, ?_, ?_, hlrx ▸ hlast⟩, hlrx, hrcv,
      .dumped ⟨by omega, hp', hall, hheld, hmis, hnack⟩⟩
    · simp [hheld]
    · rw [hmis]
      exact nodup_nil
    · simp [hmis]
  rw [if_neg hdumps]
  have hdrop : Ready (rtp.noted p) :=
    ⟨hwin, h.waits, h.nodup, h.missing_lt, hlast⟩
  obtain ⟨hold, hnotOld⟩ := @isOld_of_window rtp rtp.next hexp p
  by_cases hisOld : (rtp.noted p).IsOld p
  · rw [if_pos hisOld]
    refine ⟨_, rfl, hdrop, rfl, rfl, .dropped ?_ rfl⟩
    by_cases hpast : p.number < rtp.next
    · exact .inl hpast
    · exact .inr (.inl (not_lt.mp fun hnear => hnotOld (not_lt.mp hpast) hnear hisOld))
  rw [if_neg hisOld]
  have hfuture : rtp.next ≤ p.number ∧ p.number < rtp.next + 65536 :=
    hp.resolve_right fun hpast => hisOld (hold hpast.1 hpast.2.1)
  cases hget : rtp.recvBuffer.get p.seqno with
  | some q =>
    exact ⟨_, rfl, hdrop, rfl, rfl, .dropped (.inr (.inr ⟨q, h.window.get_eq_some hfuture hget⟩)) rfl⟩
  | none =>
    exact readFuture_spec h (by omega) hfuture.2 hdumps hget

lemma rtpRead_start (lastrxseqno lastividtimestamp : ℕ) (p : RxPacket) :
    ∃ rtp, rtpRead (RtpRecv.start lastrxseqno lastividtimestamp) p = some rtp ∧ Ready rtp ∧
      rtp.interpreted = [p] ∧ rtp.held = [] ∧ rtp.missingSeqno = [] ∧ rtp.nack = [] ∧
      rtp.lastrxseqno = p.seqno ∧ rtp.received = [p] := by
  obtain ⟨hval, hmax⟩ := @alloc_valid RxPacket 20 (by decide)
  have hemp : (DataBuffer.alloc 20 : DataBuffer RxPacket).payloads = [] := by decide
  have hwin : InWindow
      { RtpRecv.start lastrxseqno lastividtimestamp with
        expectedrxseqno := ((p.number % 65536 : ℕ) : ℤ), lastrxseqno := p.seqno } p.number := by
    refine ⟨hval, hmax.symm ▸ by decide, hmax.symm ▸ by decide, rfl, ?_, ?_, ?_, List.Pairwise.nil⟩
    · simp [RtpRecv.start, hemp]
    · simp [RtpRecv.start, RtpRecv.held, hemp]
    · simp [RtpRecv.start]
  have hacp := hwin.accept le_rfl (by simp [RtpRecv.start, RtpRecv.held, hemp]) []
  refine ⟨_, rfl, ⟨?_, ?_, nodup_nil, ?_, seqno_lt p⟩, rfl, ?_, rfl, rfl, rfl, rfl⟩
  · exact { hacp with }
  · simp [RtpRecv.held, RtpRecv.interpret, RtpRecv.start, hemp]
  · simp [RtpRecv.interpret, RtpRecv.start]
  · simp [RtpRecv.held, RtpRecv.interpret, RtpRecv.start, hemp]

end Step

/-! ## Runs -/

def OrderOk (rtp : RtpRecv) (p : RxPacket) : Prop := rtp.interpreted = [] ∨ InReach rtp p

instance (rtp : RtpRecv) (p : RxPacket) : Decidable (OrderOk rtp p) :=
  inferInstanceAs (Decidable (_ ∨ _))

lemma Ready.read {rtp : RtpRecv} (h : Ready rtp) (hne : rtp.interpreted ≠ []) {p : RxPacket} (hp : OrderOk rtp p) :
    ∃ rtp', rtpRead rtp p = some rtp' ∧ Ready rtp' ∧ rtp'.interpreted ≠ [] := by
  obtain ⟨rtp', hread, hrdy, -, -, hrcv⟩ := rtpRead_received h (hp.resolve_left hne)
  have hpos : 0 < rtp.next := Nat.pos_of_ne_zero (mt next_eq_zero.mp hne)
  exact ⟨rtp', hread, hrdy, mt next_eq_zero.mpr (hpos.trans_le hrcv.next_le).ne'⟩

/-- **Packets are handed up in order.** In every run whose packets are within reach, each packet
that is handed up has a larger number than all before it. -/
theorem rtpReadRun_in_order (lastrxseqno lastividtimestamp : ℕ) (ps : List RxPacket)
    (hps : Each rtpRead OrderOk (RtpRecv.start lastrxseqno lastividtimestamp) ps) :
    ∃ rtp, rtpReadRun ps (RtpRecv.start lastrxseqno lastividtimestamp) = some rtp ∧
      rtp.handedUp.Pairwise fun p q => p.number < q.number := by
  cases ps with
  | nil => exact ⟨_, rfl, List.Pairwise.nil⟩
  | cons p ps =>
    obtain ⟨rtp₁, hread, hrdy, hint, -⟩ := rtpRead_start lastrxseqno lastividtimestamp p
    obtain ⟨rtp, hrun, hrdy', -⟩ := (hps.2 rtp₁ hread).foldlM_total
      (I := fun rtp => Ready rtp ∧ rtp.interpreted ≠ []) (fun _ _ h hp => h.1.read h.2 hp) ⟨hrdy, by simp [hint]⟩
    exact ⟨rtp, by rw [rtpReadRun, foldlM_cons, hread]; exact hrun, hrdy'.window.order.filter _⟩

/-- Video packets with a late one, a repeated one and a wrap. -/
theorem rtpReadRun_in_order_video :
    ∃ rtp, rtpReadRun [⟨65534, 10, some .video⟩, ⟨65536, 20, some .video⟩, ⟨65535, 10, some .video⟩,
        ⟨65535, 10, some .video⟩, ⟨65537, 30, some .video⟩] (RtpRecv.start 0 0) = some rtp ∧
      rtp.handedUp.Pairwise fun p q => p.number < q.number :=
  rtpReadRun_in_order 0 0 _ (by decide)

/-- An audio packet that comes again is a wild gap for the unsigned difference, because an audio
stream leaves no video timestamp. -/
theorem rtpReadRun_repeats :
    (rtpReadRun [⟨0, 160, some .audio⟩, ⟨1, 320, some .audio⟩, ⟨2, 480, some .audio⟩,
        ⟨1, 320, some .audio⟩] (RtpRecv.start 0 0)).map
      (fun rtp => rtp.handedUp.map RxPacket.number) = some [0, 1, 2, 1] ∧
    ¬ [0, 1, 2, 1].Pairwise (· < ·) := by
  decide

end Telephony.Rtp
