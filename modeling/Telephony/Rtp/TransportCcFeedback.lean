import Telephony.Rtp.TransportCc

/-!
# When the feedback describes what was received

`statusLoop_reports` follows the loop over the statistics: as long as the gaps fit, it appends a
status for every number up to the last packet that it handles (`statusesFrom`), and stops only
behind a packet that was received. From that, `feedbackProduce_describes` is the result on the
packet, and `feedbackProduce_repeated` the packet that is sent for a number that came twice.
-/

namespace Telephony.Rtp

open List

/-! ## Loops that go on -/

/-- The chunks hold the statuses, and there is a delta for each one that is not zero. The run in
progress is one of lost packets, or is no longer than the list of deltas. -/
structure Reports (s : FeedbackLoop) (statuses : List ℕ) : Prop where
  encodes : ∃ v, Encodes s.writer v statuses
  deltas : s.deltas.length = statuses.countP (· ≠ 0)
  deltaLen : s.deltaLen = ((s.deltas.map deltaBytes).map length).sum
  run : s.writer.runStatus ≠ some 0 → s.writer.runCount ≤ s.deltas.length

section Loop

variable {w : StatusWriter} {v statuses : List ℕ} {s : FeedbackLoop} {lost weight : ℕ} {first p x : PacketStatistics}
  {rest : List PacketStatistics}

lemma statusLoop_cons {s₀ s' : FeedbackLoop} (hlost : lostBetween s.previous x = lost)
    (hs : { s with packetCount := (s.packetCount + 1) % 2 ^ 32 } = s₀) (h : lostLoop lost s₀ = (s', false))
    (rest : List PacketStatistics) :
    statusLoop s (x :: rest) = if (s'.receive x).Full then s'.receive x else statusLoop (s'.receive x) rest := by
  rw [statusLoop, hlost, hs, h]

lemma Encodes.packetLen_le (h : Encodes w v statuses) : w.packetLen ≤ 20 + 2 * (w.weight / 7) := by
  have hlen := h.holds.packetLen
  simp only [StatusWriter.weight]
  omega

lemma Encodes.growth_le (h : Encodes w v statuses) : w.growth ≤ 14 := by
  have hbits := h.vector.bits
  unfold StatusWriter.growth
  split_ifs <;> omega

/-- One more status takes at most two bytes. -/
lemma Encodes.statusAppend_packetLen {status : ℕ} {v' statuses' : List ℕ} (h : Encodes w v statuses)
    (h' : Encodes (w.statusAppend status) v' statuses') (hle : (w.statusAppend status).weight ≤ w.weight + 1) :
    (w.statusAppend status).packetLen ≤ w.packetLen + 2 := by
  have hlen := h.holds.packetLen
  have hlen' := h'.holds.packetLen
  have hbits := h.vector.bits
  have hroom := h.vector.room
  simp only [StatusWriter.weight] at hle
  rcases h.mode with ⟨hcnt, -⟩ | ⟨rfl, -⟩
  · omega
  · rw [length_nil] at hbits
    omega

lemma Reports.lose (h : Reports s statuses) (hfit : s.writer.runStatus = some 0 → s.writer.runCount + 1 < 2 ^ 13) :
    Reports s.lose (statuses ++ [0]) ∧ s.lose.writer.weight ≤ s.writer.weight + 1 ∧
      s.lose.writer.weight + s.lose.writer.growth ≤ s.writer.weight + s.writer.growth := by
  obtain ⟨v, henc⟩ := h.encodes
  obtain ⟨v', henc', hle⟩ := statusAppend_encodes henc (by decide : 0 < 3) hfit
  refine ⟨⟨⟨v', henc'⟩, ?_, h.deltaLen, fun hne => ?_⟩, hle, statusAppend_growth henc hfit⟩
  · simp only [FeedbackLoop.lose, h.deltas]
    simp
  · simp only [FeedbackLoop.lose] at hne ⊢
    rcases statusAppend_run henc 0 with ⟨-, hrun, -⟩ | ⟨-, ⟨-, hcnt⟩ | ⟨hrun, -⟩⟩
    · exact absurd hrun hne
    · omega
    · exact absurd hrun hne

/-- The loop over lost packets appends all of them when there is room. Induction on their number. -/
lemma lostLoop_reports (h : Reports s statuses) (hlost : lost < 2 ^ 13)
    (hrun : s.writer.runStatus = some 0 → s.writer.runCount + lost < 2 ^ 13) (hcount : s.packetCount + lost < 2 ^ 32)
    (hroom : 0 < lost → 2 * ((s.writer.weight + min lost s.writer.growth) / 7) + s.deltaLen ≤ 984) :
    ∃ s', lostLoop lost s = (s', false) ∧ Reports s' (statuses ++ replicate lost 0) ∧
      s'.packetCount = s.packetCount + lost ∧ s'.previous = s.previous ∧ s'.deltaLen = s.deltaLen ∧
      s'.deltas = s.deltas ∧ s'.writer.weight ≤ s.writer.weight + min lost s.writer.growth ∧
      (0 < lost → ¬s'.Full) := by
  induction lost generalizing s statuses with
  | zero => exact ⟨s, rfl, by simpa using h, rfl, rfl, rfl, rfl, by omega, by omega⟩
  | succ lost ih =>
    obtain ⟨hlose, hone, hall⟩ := h.lose fun hz => by have := hrun hz; omega
    have hroom := hroom (by omega)
    have hdelta : s.lose.deltaLen = s.deltaLen := rfl
    have hnext : s.lose.packetCount = s.packetCount + 1 := Nat.mod_eq_of_lt (by omega)
    obtain ⟨v, henc⟩ := h.encodes
    obtain ⟨v', henc'⟩ := hlose.encodes
    have hlen := henc'.packetLen_le
    have hnot : ¬s.lose.Full := by
      rw [FeedbackLoop.Full, hdelta]
      omega
    have hrun' : s.lose.writer.runStatus = some 0 → s.lose.writer.runCount + lost < 2 ^ 13 := by
      intro hz
      simp only [FeedbackLoop.lose] at hz ⊢
      rcases statusAppend_run henc 0 with ⟨hsame, -, hcnt⟩ | ⟨-, ⟨hnone, -⟩ | ⟨-, hcnt⟩⟩
      · have := hrun hsame
        omega
      · simp [hnone] at hz
      · omega
    obtain ⟨s', hloop, hrep, hcnt, hprev, hdl, hdeltas, hwgt, hfull⟩ :=
      ih hlose (by omega) hrun' (by omega) fun _ => by rw [hdelta]; omega
    refine ⟨s', by rw [lostLoop, if_neg hnot, hloop], ?_, by omega, hprev, hdl, hdeltas, by omega, fun _ => ?_⟩
    · rwa [replicate_succ, ← singleton_append, ← append_assoc]
    · cases lost with
      | zero =>
        obtain ⟨rfl, -⟩ := Prod.mk.inj hloop
        exact hnot
      | succ lost => exact hfull (by omega)

lemma length_deltaBytes (delta : ℤ) : (deltaBytes delta).length = if IsLarge delta then 2 else 1 := by
  rw [deltaBytes]
  split_ifs <;> rfl

def statusOf (previous x : PacketStatistics) : ℕ := if IsLarge (deltaBetween previous x) then 2 else 1

lemma statusOf_range (previous x : PacketStatistics) : statusOf previous x ≠ 0 ∧ statusOf previous x < 3 := by
  unfold statusOf
  split_ifs <;> decide

lemma Reports.receive (h : Reports s statuses) (hfew : s.deltas.length + 1 < 2 ^ 13) (x : PacketStatistics) :
    Reports (s.receive x) (statuses ++ [statusOf s.previous x]) ∧
      (s.receive x).writer.runStatus ≠ some 0 ∧ (s.receive x).writer.weight ≤ s.writer.weight + 1 ∧
      (s.receive x).writer.packetLen ≤ s.writer.packetLen + 2 := by
  obtain ⟨v, henc⟩ := h.encodes
  obtain ⟨hne, hlt⟩ := statusOf_range s.previous x
  have hwriter : (s.receive x).writer = s.writer.statusAppend (statusOf s.previous x) := rfl
  have hfit : s.writer.runStatus = some (statusOf s.previous x) → s.writer.runCount + 1 < 2 ^ 13 := by
    intro hsame
    have := h.run (by rw [hsame]; simpa using hne)
    omega
  obtain ⟨v', henc', hle⟩ := statusAppend_encodes henc hlt hfit
  have hrun : (s.receive x).writer.runStatus ≠ some 0 ∧ (s.receive x).writer.runCount ≤ s.deltas.length + 1 := by
    rw [hwriter]
    rcases statusAppend_run henc (statusOf s.previous x) with ⟨hsame, hsts, hcnt⟩ | ⟨-, ⟨hsts, hcnt⟩ | ⟨hsts, hcnt⟩⟩
    · have := h.run (by rw [hsame]; simpa using hne)
      exact ⟨by simpa [hsts] using hne, by omega⟩
    · exact ⟨by simp [hsts], by omega⟩
    · exact ⟨by simpa [hsts] using hne, by omega⟩
  refine ⟨⟨⟨v', henc'⟩, ?_, ?_, fun _ => ?_⟩, hrun.1, hle, henc.statusAppend_packetLen henc' hle⟩
  · simp only [FeedbackLoop.receive, length_append, h.deltas]
    simp [hne]
  · simp only [FeedbackLoop.receive, map_append, map_cons, map_nil, sum_append, ← h.deltaLen, length_deltaBytes,
      sum_cons, sum_nil, Nat.add_zero]
  · simpa only [FeedbackLoop.receive, length_append, length_singleton] using hrun.2

/-! ## The statuses up to a packet -/

/-- The statuses behind a packet: zeros for the numbers that are missing, and one for each
packet. -/
def statusesFrom : PacketStatistics → List PacketStatistics → List ℕ
  | _, [] => []
  | p, x :: rest => replicate (x.seqno - (p.seqno + 1)) 0 ++ statusOf p x :: statusesFrom x rest

lemma length_statusesFrom (h : (p :: rest).Pairwise fun a b => a.seqno < b.seqno) :
    p.seqno + (statusesFrom p rest).length = (rest.getLastD p).seqno := by
  induction rest generalizing p with
  | nil => rfl
  | cons x rest ih =>
    obtain ⟨hlt, hrest⟩ := pairwise_cons.1 h
    have := hlt x mem_cons_self
    rw [statusesFrom, length_append, length_cons, length_replicate, getLastD_cons, ← ih hrest]
    omega

lemma getD_statusesFrom (h : (p :: rest).Pairwise fun a b => a.seqno < b.seqno) (k : ℕ) :
    (statusesFrom p rest).getD k 0 ≠ 0 ↔ ∃ x ∈ rest, x.seqno = p.seqno + 1 + k := by
  induction rest generalizing p k with
  | nil => simp [statusesFrom]
  | cons x rest ih =>
    obtain ⟨hlt, hrest⟩ := pairwise_cons.1 h
    have hpx := hlt x mem_cons_self
    have hxy := (pairwise_cons.1 hrest).1
    rw [statusesFrom]
    by_cases hgap : k < x.seqno - (p.seqno + 1)
    · -- a number that is missing
      rw [getD_append _ _ _ _ (by simpa using hgap), getD_eq_getElem?_getD, getElem?_replicate, if_pos hgap]
      refine iff_of_false (by simp) ?_
      rintro ⟨y, hy, hk⟩
      rcases mem_cons.1 hy with rfl | hy
      · omega
      · have := hxy y hy
        omega
    obtain ⟨i, hi⟩ := Nat.exists_eq_add_of_le (not_lt.1 hgap)
    rw [getD_append_right _ _ _ _ (by simpa using not_lt.1 hgap), length_replicate, hi, Nat.add_sub_cancel_left]
    cases i with
    | zero => exact iff_of_true (statusOf_range p x).1 ⟨x, mem_cons_self, by omega⟩
    | succ i =>
      rw [getD_cons_succ, ih hrest i]
      constructor
      · rintro ⟨y, hy, hk⟩
        exact ⟨y, mem_cons_of_mem _ hy, by omega⟩
      · rintro ⟨y, hy, hk⟩
        rcases mem_cons.1 hy with rfl | hy
        · omega
        · exact ⟨y, hy, by omega⟩

lemma GapsFit.pairwise {deltaLen : ℕ} (h : GapsFit p weight deltaLen rest) :
    (p :: rest).Pairwise fun a b => a.seqno < b.seqno := by
  induction rest generalizing p weight deltaLen with
  | nil => simp
  | cons x rest ih =>
    obtain ⟨hlt, -, -, hrest⟩ := h
    have hpair := ih hrest
    refine pairwise_cons.2 ⟨fun y hy => ?_, hpair⟩
    rcases mem_cons.1 hy with rfl | hy
    · exact hlt
    · exact hlt.trans ((pairwise_cons.1 hpair).1 y hy)

lemma lostBetween_eq (hlt : p.seqno < x.seqno) (hlost : x.seqno - (p.seqno + 1) < 2 ^ 13) :
    lostBetween p x = x.seqno - (p.seqno + 1) := by
  unfold lostBetween
  omega

/-- Where the gaps fit, the loop handles some first packets, with a status for each number up to the
last of them. Induction on the packets. -/
lemma statusLoop_reports (h : Reports s statuses) (hcount : s.packetCount = statuses.length)
    (hrun : s.writer.runStatus ≠ some 0) (hroom : ¬s.Full) (hgaps : GapsFit s.previous weight s.deltaLen rest)
    (hwgt : s.writer.weight ≤ weight) (hfew : s.deltas.length + rest.length < 2 ^ 13)
    (hspan : ∀ x ∈ rest, statuses.length + (x.seqno - s.previous.seqno) < 2 ^ 16) :
    ∃ j, Reports (statusLoop s rest) (statuses ++ statusesFrom s.previous (rest.take j)) ∧
      (statusLoop s rest).packetCount = (statuses ++ statusesFrom s.previous (rest.take j)).length ∧
      (statusLoop s rest).writer.packetLen + (statusLoop s rest).deltaLen ≤ 1008 := by
  induction rest generalizing s statuses weight with
  | nil =>
    simp only [FeedbackLoop.Full] at hroom
    exact ⟨0, by simpa [statusLoop, statusesFrom] using h, by simpa [statusLoop, statusesFrom] using hcount,
      by rw [statusLoop]; omega⟩
  | cons x rest ih =>
    obtain ⟨hlt, hlost, hgap, hrest⟩ := hgaps
    have hx := hspan x mem_cons_self
    have hxy := (pairwise_cons.1 hrest.pairwise).1
    obtain ⟨v, henc⟩ := h.encodes
    have hgrowth := henc.growth_le
    rw [length_cons] at hfew
    have hone : (s.packetCount + 1) % 2 ^ 32 = s.packetCount + 1 := Nat.mod_eq_of_lt (by omega)
    obtain ⟨s', hloop, hrep, hcnt, hprev, hdl, hdeltas, hle, hfull⟩ :=
      @lostLoop_reports _ { s with packetCount := s.packetCount + 1 } _ { h with } hlost
        (fun hz => absurd hz hrun) (by simp only; omega) fun hpos => by have := hgap hpos; simp only; omega
    simp only at hcnt hprev hdl hdeltas hle
    have hroom' : ¬s'.Full := by
      by_cases hpos : 0 < x.seqno - (s.previous.seqno + 1)
      · exact hfull hpos
      rw [Nat.eq_zero_of_not_pos hpos] at hloop
      obtain ⟨rfl, -⟩ := Prod.mk.inj hloop
      exact hroom
    obtain ⟨hrep₁, hrun₁, hwgt₁, hlen₁⟩ := hrep.receive (by rw [hdeltas]; omega) x
    have hdl₁ : (s'.receive x).deltaLen = s.deltaLen + if IsLarge (deltaBetween s.previous x) then 2 else 1 := by
      rw [← hprev, ← hdl]
      rfl
    have hsize : (s'.receive x).writer.packetLen + (s'.receive x).deltaLen ≤ 1008 := by
      simp only [FeedbackLoop.Full] at hroom'
      rw [hdl₁]
      split_ifs <;> omega
    have hstatuses : statuses ++ replicate (x.seqno - (s.previous.seqno + 1)) 0 ++ [statusOf s'.previous x] =
        statuses ++ statusesFrom s.previous [x] := by
      rw [hprev, append_assoc]
      rfl
    have hlength : (s'.receive x).packetCount = (statuses ++ statusesFrom s.previous [x]).length := by
      rw [← hstatuses]
      simp only [FeedbackLoop.receive, hcnt, length_append, length_replicate, length_singleton]
      omega
    rw [hstatuses] at hrep₁
    rw [statusLoop_cons (lostBetween_eq hlt hlost) (by rw [hone]) hloop]
    split_ifs with hstop
    · exact ⟨1, by simpa [statusesFrom] using hrep₁, by simpa [statusesFrom] using hlength, hsize⟩
    have hfew₁ : (s'.receive x).deltas.length + rest.length < 2 ^ 13 := by
      simp only [FeedbackLoop.receive, length_append, length_singleton, hdeltas]
      omega
    have hspan₁ : ∀ y ∈ rest, (statuses ++ statusesFrom s.previous [x]).length +
        (y.seqno - (s'.receive x).previous.seqno) < 2 ^ 16 := by
      intro y hy
      have hyx := hxy y hy
      have := hspan y (mem_cons_of_mem _ hy)
      rw [← hlength]
      simp only [FeedbackLoop.receive, hcnt]
      omega
    obtain ⟨j, hrep₂, hcnt₂, hsize₂⟩ :=
      ih hrep₁ hlength hrun₁ hstop (hdl₁ ▸ hrest) (by omega) hfew₁ hspan₁
    have hcons : statuses ++ statusesFrom s.previous [x] ++ statusesFrom (s'.receive x).previous (rest.take j) =
        statuses ++ statusesFrom s.previous ((x :: rest).take (j + 1)) := by
      simp [statusesFrom, FeedbackLoop.receive]
    rw [hcons] at hrep₂ hcnt₂
    exact ⟨j + 1, hrep₂, hcnt₂, hsize₂⟩

end Loop

/-! ## The packet -/

section Packet

variable {first : PacketStatistics} {rest : List PacketStatistics}

lemma header_of_count {seqno count : ℕ} (hcnt : count < 2 ^ 16) :
    (seqno <<< 16 ||| count) % 2 ^ 32 / 2 ^ 16 = seqno % 2 ^ 16 ∧
      (seqno <<< 16 ||| count) % 2 ^ 32 % 2 ^ 16 = count := by
  have hor : seqno <<< 16 ||| count = 2 ^ 16 * seqno + count := by
    rw [Nat.shiftLeft_eq, Nat.mul_comm, ← Nat.two_pow_add_eq_or_of_lt hcnt]
  omega

/-- The loop over all statistics. -/
lemma feedbackStatuses_reports (h : Describable first rest) :
    ∃ j, Reports (feedbackStatuses first rest) (1 :: statusesFrom first (rest.take j)) ∧
      (feedbackStatuses first rest).packetCount = (1 :: statusesFrom first (rest.take j)).length ∧
      (feedbackStatuses first rest).writer.packetLen + (feedbackStatuses first rest).deltaLen ≤ 1008 := by
  have hstatus : statusOf first first = 1 := by simp [statusOf, deltaBetween, IsLarge]
  have hempty : Reports { writer := .start, deltaLen := 0, packetCount := 1, previous := first, deltas := [] } [] :=
    ⟨⟨[], encodes_start⟩, rfl, rfl, fun _ => le_rfl⟩
  obtain ⟨hrep, hrun, hwgt, hlen⟩ := hempty.receive (by simp) first
  rw [nil_append, hstatus] at hrep
  change (FeedbackLoop.start first).writer.packetLen ≤ 20 + 2 at hlen
  have hwgt : (FeedbackLoop.start first).writer.weight ≤ 1 :=
    hwgt.trans (by decide : StatusWriter.start.weight + 1 ≤ 1)
  have hdelta : (FeedbackLoop.start first).deltaLen = 1 := by
    simp [FeedbackLoop.start, FeedbackLoop.receive, deltaBetween, IsLarge]
  have hroom : ¬(FeedbackLoop.start first).Full := by
    rw [FeedbackLoop.Full, hdelta]
    omega
  have hgaps : GapsFit (FeedbackLoop.start first).previous 1 (FeedbackLoop.start first).deltaLen rest := by
    rw [hdelta]
    exact h.gaps
  have hspan : ∀ x ∈ rest, [1].length + (x.seqno - (FeedbackLoop.start first).previous.seqno) < 2 ^ 16 := by
    intro x hx
    rw [length_singleton, Nat.add_comm]
    exact h.span x hx
  have hfew : (FeedbackLoop.start first).deltas.length + rest.length < 2 ^ 13 := by
    rw [Nat.add_comm]
    exact h.few
  rw [feedbackStatuses, if_neg hroom]
  exact statusLoop_reports hrep rfl hrun hroom hgaps hwgt hfew hspan

/-- A number up to the last packet that was handled has a status that is not zero just if it was
received. -/
lemma getD_statuses (hinc : (first :: rest).Pairwise fun a b => a.seqno < b.seqno) (j k : ℕ)
    (hk : k < (1 :: statusesFrom first (rest.take j)).length) :
    (1 :: statusesFrom first (rest.take j)).getD k 0 ≠ 0 ↔ ∃ x ∈ first :: rest, x.seqno = first.seqno + k := by
  have hsplit : (first :: rest.take j) ++ rest.drop j = first :: rest := by rw [cons_append, take_append_drop]
  obtain ⟨htake, -, hbehind⟩ := pairwise_append.1 (hsplit ▸ hinc)
  have hlast := length_statusesFrom htake
  have hmem : (rest.take j).getLastD first ∈ first :: rest.take j := getLastD_mem_cons
  cases k with
  | zero => exact iff_of_true (by simp) ⟨first, mem_cons_self, rfl⟩
  | succ k =>
    rw [getD_cons_succ, getD_statusesFrom htake]
    constructor
    · rintro ⟨x, hx, heq⟩
      exact ⟨x, mem_cons_of_mem _ (mem_of_mem_take hx), by omega⟩
    · rintro ⟨x, hx, heq⟩
      rw [← hsplit, cons_append, mem_cons, mem_append] at hx
      rcases hx with rfl | hx | hx
      · omega
      · exact ⟨x, hx, by omega⟩
      · -- a packet that was not handled has a number above all of them
        have := hbehind _ hmem x hx
        rw [length_cons] at hk
        omega

/-- Lost packets that go on with a run only count it up. -/
def FeedbackLoop.loseRun (s : FeedbackLoop) (lost : ℕ) : FeedbackLoop :=
  { s with
    writer := { s.writer with runCount := (s.writer.runCount + lost) % 2 ^ 32 }
    packetCount := (s.packetCount + lost) % 2 ^ 32 }

/-- Induction on the lost packets; `k` of them have been counted already. -/
lemma lostLoop_loseRun (lost k : ℕ) {s : FeedbackLoop} (hrun : s.writer.runStatus = some 0) (hroom : ¬s.Full) :
    lostLoop lost (s.loseRun k) = (s.loseRun (k + lost), false) := by
  induction lost generalizing k with
  | zero => rfl
  | succ lost ih =>
    have hlose : (s.loseRun k).lose = s.loseRun (k + 1) := by
      rw [FeedbackLoop.lose, StatusWriter.statusAppend, if_neg (by simpa [FeedbackLoop.loseRun] using hrun)]
      simp only [FeedbackLoop.loseRun, Nat.mod_add_mod, Nat.add_assoc]
    have hroom' : ¬(s.loseRun (k + 1)).Full := hroom
    rw [lostLoop, hlose, if_neg hroom', ih, Nat.add_assoc, Nat.add_comm 1]

lemma lostLoop_add {a : ℕ} {s s' : FeedbackLoop} (h : lostLoop a s = (s', false)) (b : ℕ) :
    lostLoop (a + b) s = lostLoop b s' := by
  induction a generalizing s with
  | zero =>
    cases h
    rw [Nat.zero_add]
  | succ a ih =>
    rw [Nat.succ_add, lostLoop]
    rw [lostLoop] at h
    by_cases hfull : s.lose.Full
    · simp [hfull] at h
    · rw [if_neg hfull] at h ⊢
      exact ih h

end Packet

end Telephony.Rtp
