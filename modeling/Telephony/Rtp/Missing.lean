import Telephony.Lib.Spaced
import Telephony.Rtp.Reorder

/-!
# The list of missing packets

`missing_seqno` is extended from the packet that just came backwards to the previous one, whatever
became of the previous one. Jumps are below 1000.
-/

namespace Telephony.Rtp

open Buffer Lib List Nat

/-! ## Skipped numbers -/

/-- A number that was skipped: it is not in the set `S` of numbers that wait, but a later one is. -/
def Skipped (S : Finset ℕ) (E m : ℕ) : Prop := E ≤ m ∧ (∃ n ∈ S, m < n) ∧ m ∉ S

def ListsSkipped (vec : List ℕ) (S : Finset ℕ) (E : ℕ) : Prop :=
  ∀ x, x ∈ vec ↔ ∃ m, x = m % 65536 ∧ Skipped S E m

section Vector

variable {vec vec' : List ℕ} {S : Finset ℕ} {E n m E' v : ℕ}

lemma Skipped.mod_ne (h : Skipped S E m) (hS : ∀ n ∈ S, n < E + 65536)
    (hn : E ≤ n ∧ n < E + 65536) (hne : m ≠ n) : m % 65536 ≠ n % 65536 := by
  obtain ⟨hle, ⟨k, hk, hlt⟩, -⟩ := h
  have := hS k hk
  exact fun heq => hne (eq_of_mod_eq ⟨hle, by omega⟩ hn heq)

section

variable (h : ListsSkipped vec S E) (hS : ∀ n ∈ S, n < E + 65536)
include h hS

lemma ListsSkipped.mem_iff (hn : E ≤ n ∧ n < E + 65536) : n % 65536 ∈ vec ↔ Skipped S E n := by
  rw [h]
  constructor
  · rintro ⟨m, hm, hskp⟩
    by_cases hne : m = n
    · exact hne ▸ hskp
    · exact absurd hm.symm (hskp.mod_ne hS hn hne)
  · exact fun hskp => ⟨n, rfl, hskp⟩

lemma ListsSkipped.drop {S' : Finset ℕ} (hnd : vec.Nodup) (hn : E ≤ n ∧ n < E + 65536)
    (hiff : ∀ m, Skipped S' E' m ↔ m ≠ n ∧ Skipped S E m) : ListsSkipped (vec.erase (n % 65536)) S' E' := by
  intro x
  rw [hnd.mem_erase_iff, h]
  simp only [hiff]
  constructor
  · rintro ⟨hx, m, rfl, hm⟩
    exact ⟨m, rfl, fun heq => hx (heq ▸ rfl), hm⟩
  · rintro ⟨m, rfl, hne, hm⟩
    exact ⟨hm.mod_ne hS hn hne, m, rfl, hm⟩

lemma ListsSkipped.advance (hnd : vec.Nodup) (hlt : E < E') (hwait : ∀ n, E < n → n < E' → n ∈ S) :
    ListsSkipped (vec.erase (E % 65536)) (S.filter (E' ≤ ·)) E' := by
  refine h.drop hS hnd ⟨le_rfl, by omega⟩ fun m => ?_
  have hm := hwait m
  simp only [Skipped, Finset.mem_filter]
  constructor
  · rintro ⟨hle, ⟨n, ⟨hn, -⟩, hmn⟩, hnot⟩
    exact ⟨by omega, by omega, ⟨n, hn, hmn⟩, fun hmem => hnot ⟨hmem, hle⟩⟩
  · rintro ⟨hne, hle, ⟨n, hn, hmn⟩, hnot⟩
    have hm' : E' ≤ m := not_lt.mp fun hless => hnot (hm (by omega) hless)
    exact ⟨hm', ⟨n, ⟨hn, by omega⟩, hmn⟩, fun hmem => hnot hmem.1⟩

lemma ListsSkipped.erase (hnd : vec.Nodup)
    (hn : Skipped S E n) : ListsSkipped (vec.erase (n % 65536)) (insert n S) E := by
  obtain ⟨hle, ⟨k, hk, hnk⟩, -⟩ := hn
  refine h.drop hS hnd ⟨hle, hnk.trans (hS k hk)⟩ fun m => ?_
  have hlat : (∃ j ∈ insert n S, m < j) ↔ ∃ j ∈ S, m < j :=
    ⟨by grind, fun ⟨j, hj, hmj⟩ => ⟨j, Finset.mem_insert_of_mem hj, hmj⟩⟩
  rw [Skipped, Skipped, hlat, Finset.mem_insert, not_or]
  tauto

lemma ListsSkipped.extend (hn : E ≤ n ∧ n < E + 65536) (hnew : n ∉ S) (hnot : n % 65536 ∉ vec)
    (hv : v + 1 = E ∨ v ∈ S) (hle : E ≤ v + 1)
    (hmem : ∀ x, x ∈ vec' ↔ x ∈ vec ∨ ∃ m, v < m ∧ m < n ∧ x = m % 65536 ∧ m ∉ S) :
    ListsSkipped vec' (insert n S) E := by
  intro x
  rw [hmem, h]
  constructor
  · rintro (⟨m, rfl, hm, ⟨j, hj, hmj⟩, hwait⟩ | ⟨m, hvm, hmn, rfl, hwait⟩)
    · refine ⟨m, rfl, hm, ⟨j, Finset.mem_insert_of_mem hj, hmj⟩, fun hin => ?_⟩
      rcases Finset.mem_insert.mp hin with rfl | hin
      · exact hnot ((h.mem_iff hS hn).mpr ⟨hm, ⟨j, hj, hmj⟩, hwait⟩)
      · exact hwait hin
    · refine ⟨m, rfl, by omega, ⟨n, Finset.mem_insert_self n S, hmn⟩, fun hin => ?_⟩
      rcases Finset.mem_insert.mp hin with rfl | hin
      · exact lt_irrefl _ hmn
      · exact hwait hin
  · rintro ⟨m, rfl, hm, ⟨j, hj, hmj⟩, hwait⟩
    have hwaitS : m ∉ S := fun hin => hwait (Finset.mem_insert_of_mem hin)
    rcases Finset.mem_insert.mp hj with rfl | hj
    · by_cases hvm : v < m
      · exact .inr ⟨m, hvm, hmj, rfl, hwaitS⟩
      · -- the previous packet waits, and the number is before it
        have hvS : v ∈ S := hv.resolve_left (by omega)
        have hne : m ≠ v := fun heq => hwaitS (heq ▸ hvS)
        exact .inl ⟨m, rfl, hm, ⟨v, hvS, by omega⟩, hwaitS⟩
    · exact .inl ⟨m, rfl, hm, ⟨j, hj, hmj⟩, hwaitS⟩

end

end Vector

/-! ## The receive path -/

def RtpRecv.heldNumbers (rtp : RtpRecv) : Finset ℕ := (rtp.held.map RxPacket.number).toFinset

lemma mem_heldNumbers {rtp : RtpRecv} {n : ℕ} : n ∈ rtp.heldNumbers ↔ ∃ q ∈ rtp.held, q.number = n := by
  rw [RtpRecv.heldNumbers, mem_toFinset, mem_map]

lemma PutAside.heldNumbers {rtp rtp' : RtpRecv} {p : RxPacket} (h : PutAside rtp p rtp') :
    rtp'.heldNumbers = insert p.number rtp.heldNumbers := by
  ext n
  simp only [Finset.mem_insert, mem_heldNumbers, h.held, exists_eq_or_imp]
  exact or_congr_left eq_comm

def Near (p q : RxPacket) : Prop := p.number < q.number + 1000 ∧ q.number < p.number + 1000

instance (p q : RxPacket) : Decidable (Near p q) := inferInstanceAs (Decidable (_ ∧ _))

/-- What came was handed up or waits, the numbers that wait have no wide gaps, the list has the
skipped numbers, and only those are asked for.
Source: `struct ast_rtp` (`missing_seqno`) -/
structure Tracked (rtp : RtpRecv) (r : RxPacket) : Prop where
  ready : Ready rtp
  pos : 0 < rtp.next
  last : rtp.received.getLast? = some r
  lastrxseqno : rtp.lastrxseqno = r.seqno
  received : ∀ p ∈ rtp.received, p.number < rtp.next ∨ p.number ∈ rtp.heldNumbers
  held : ∀ n ∈ rtp.heldNumbers, ∃ p ∈ rtp.received, p.number = n
  spaced : Spaced 999 rtp.heldNumbers (rtp.next - 1)
  lists : ListsSkipped rtp.missingSeqno rtp.heldNumbers rtp.next
  nack : ∀ x ∈ rtp.nack.flatMap nackRequests, x ∈ rtp.missingSeqno

section Tracked

variable {rtp : RtpRecv} {r p : RxPacket}

variable {n : ℕ} {rtp' : RtpRecv}

lemma Tracked.window (h : Tracked rtp r) (hn : n ∈ rtp.heldNumbers) : rtp.next < n ∧ n < rtp.next + 65536 := by
  obtain ⟨q, hq, rfl⟩ := mem_heldNumbers.mp hn
  have hwin := h.ready.window.window q hq
  have hwts := h.ready.waits q hq
  omega

lemma Tracked.reach (h : Tracked rtp r) (hn : n ∈ rtp.heldNumbers) : n < rtp.next + 39960 := by
  have hcard : rtp.heldNumbers.card ≤ 40 := by
    calc rtp.heldNumbers.card ≤ (rtp.held.map RxPacket.number).length := toFinset_card_le _
      _ = rtp.recvBuffer.count := by
        rw [length_map, RtpRecv.held, length_map, h.ready.window.valid.count_eq]
      _ ≤ rtp.recvBuffer.max := h.ready.window.valid.count_le
      _ ≤ 40 := h.ready.window.max_le
  have hle := h.spaced.le_card hn
  have hpos := h.pos
  omega

lemma Tracked.last_lt (h : Tracked rtp r) : r.number < rtp.next + 39960 := by
  rcases h.received r (mem_of_getLast? h.last) with hlt | hheld
  · omega
  · exact h.reach hheld

/-- A packet that opens a new gap: it is put into the buffer and was not listed.
Source: `ast_rtp_read` (`remove_failed`) -/
def OpensGap (rtp : RtpRecv) (p : RxPacket) : Prop :=
  rtp.next < p.number ∧ ¬ rtp.Dumps p ∧ p.number ∉ rtp.heldNumbers ∧ p.seqno ∉ rtp.missingSeqno

instance (rtp : RtpRecv) (p : RxPacket) : Decidable (OpensGap rtp p) :=
  inferInstanceAs (Decidable (_ ∧ _))

/-- A packet from the past is one of the last 1000 and does not empty the buffer, and a packet that
opens a gap does not follow a packet from before the last one that was handed up. -/
def MissingOk (rtp : RtpRecv) (p : RxPacket) : Prop :=
  rtp.interpreted = [] ∨
    (p.number < rtp.next → rtp.next ≤ p.number + 1000 ∧ ¬ rtp.Dumps p) ∧
      (OpensGap rtp p → ∀ r ∈ rtp.received.getLast?, rtp.next ≤ r.number + 1)

instance (rtp : RtpRecv) (p : RxPacket) : Decidable (MissingOk rtp p) :=
  inferInstanceAs (Decidable (_ ∨ _))

section

variable (h : Tracked rtp r)
include h

section

variable (hrdy : Ready rtp') (hlast : rtp'.lastrxseqno = p.seqno) (hrcv : rtp'.received = rtp.received ++ [p])
include hrdy hlast hrcv

lemma Tracked.step (hle : rtp.next ≤ rtp'.next) (hp : p.number < rtp'.next ∨ p.number ∈ rtp'.heldNumbers)
    (hkept : ∀ n ∈ rtp.heldNumbers, n < rtp'.next ∨ n ∈ rtp'.heldNumbers)
    (hheld : ∀ n ∈ rtp'.heldNumbers, n = p.number ∨ n ∈ rtp.heldNumbers)
    (spaced : Spaced 999 rtp'.heldNumbers (rtp'.next - 1))
    (lists : ListsSkipped rtp'.missingSeqno rtp'.heldNumbers rtp'.next)
    (nack : ∀ x ∈ rtp'.nack.flatMap nackRequests, x ∈ rtp'.missingSeqno) : Tracked rtp' p := by
  refine ⟨hrdy, h.pos.trans_le hle, by rw [hrcv]; simp, hlast, ?_, fun n hn => ?_, spaced, lists, nack⟩
  · rw [hrcv]
    refine forall_mem_append.mpr ⟨fun q hq => ?_, forall_mem_singleton.mpr hp⟩
    rcases h.received q hq with hless | hheld
    · exact .inl (hless.trans_le hle)
    · exact hkept _ hheld
  · rw [hrcv]
    rcases hheld n hn with rfl | hn
    · exact ⟨p, by simp, rfl⟩
    · obtain ⟨q, hq, hqn⟩ := h.held n hn
      exact ⟨q, mem_append_left _ hq, hqn⟩

lemma Tracked.expected (hexp : TookExpected rtp p rtp') : Tracked rtp' p := by
  obtain ⟨number, lt, held, pulled, missing, nack⟩ := hexp
  have hnums : rtp'.heldNumbers = rtp.heldNumbers.filter (rtp'.next ≤ ·) := by
    ext n
    rw [Finset.mem_filter, mem_heldNumbers, mem_heldNumbers]
    constructor
    · rintro ⟨q, hq, rfl⟩
      obtain ⟨hq, hle⟩ := (held q).mp hq
      exact ⟨⟨q, hq, rfl⟩, hle⟩
    · rintro ⟨⟨q, hq, rfl⟩, hle⟩
      exact ⟨q, (held q).mpr ⟨hq, hle⟩, rfl⟩
  have hls := h.lists.advance (fun n hn => (h.window hn).2) h.ready.nodup lt
    fun n hlow hhigh => mem_heldNumbers.mpr (pulled n hlow hhigh)
  refine h.step hrdy hlast hrcv lt.le (.inl (number ▸ lt)) (fun n hn => ?_) (fun n hn => .inr ?_) ?_ ?_ (by simp [nack])
  · rw [hnums, Finset.mem_filter]
    exact (lt_or_ge n rtp'.next).imp_right fun hle => ⟨hn, hle⟩
  · rw [hnums] at hn
    exact (Finset.mem_filter.mp hn).1
  · have hadvance := h.spaced.advance (show rtp.next - 1 ≤ rtp'.next - 1 by omega)
    have hsame : rtp.heldNumbers.filter (rtp'.next ≤ ·) = rtp.heldNumbers.filter (rtp'.next - 1 < ·) :=
      Finset.filter_congr fun n _ => by omega
    rwa [hnums, hsame]
  · rw [hnums, missing]
    split_ifs with hcnt
    · -- nothing waits, so nothing is listed
      have hnone : rtp.missingSeqno = [] := by
        refine eq_nil_iff_forall_not_mem.mpr fun x hx => ?_
        obtain ⟨m, -, -, ⟨n, hn, -⟩, -⟩ := (h.lists x).mp hx
        obtain ⟨q, hq, -⟩ := mem_heldNumbers.mp hn
        rw [h.ready.window.count_eq_zero.mp hcnt] at hq
        cases hq
      rw [hnone] at hls ⊢
      exact hls
    · rwa [RxPacket.seqno, number]

lemma Tracked.dumped (hdumped : Dumped rtp p rtp') : Tracked rtp' p := by
  obtain ⟨gt, lt, all, held, missing, nack⟩ := hdumped
  have hnums : rtp'.heldNumbers = ∅ := by simp [RtpRecv.heldNumbers, held]
  refine h.step hrdy hlast hrcv (gt.trans lt).le (.inl lt) (fun n hn => .inl ?_) ?_ ?_ ?_ (by simp [nack])
  · obtain ⟨q, hq, rfl⟩ := mem_heldNumbers.mp hn
    exact all q hq
  · simp [hnums]
  · simp [hnums, Spaced]
  · simp [hnums, missing, ListsSkipped, Skipped]

end

lemma Tracked.dropped (why : p.number < rtp.next ∨ p.number ∈ rtp.heldNumbers) :
    Tracked (rtp.noted p) p := by
  have hrdy : Ready (rtp.noted p) :=
    ⟨{ h.ready.window with }, h.ready.waits, h.ready.nodup, h.ready.missing_lt, seqno_lt p⟩
  exact h.step hrdy rfl rfl le_rfl why (fun _ => .inr) (fun _ => .inr) h.spaced h.lists (by simp)

lemma Tracked.near_held (hnear : Near r p) (gt : rtp.next < p.number) (hnew : p.number ∉ rtp.heldNumbers) :
    ∃ b, (b = rtp.next - 1 ∨ b ∈ rtp.heldNumbers) ∧ b < p.number ∧ p.number ≤ b + 999 := by
  obtain ⟨hup, hdown⟩ := hnear
  rcases lt_or_ge r.number p.number with hless | hmore
  · by_cases hpast : r.number < rtp.next
    · exact ⟨rtp.next - 1, .inl rfl, by omega, by omega⟩
    · exact ⟨r.number, .inr ((h.received r (mem_of_getLast? h.last)).resolve_left hpast), hless,
        by omega⟩
  · have hheld := (h.received r (mem_of_getLast? h.last)).resolve_left (by omega)
    have hne : p.number ≠ r.number := fun heq => hnew (heq ▸ hheld)
    exact h.spaced.below (by omega) hnew hheld (by omega)

lemma Tracked.adds_iff (hrdy : Ready rtp') (next : rtp'.next = rtp.next)
    (hnums : rtp'.heldNumbers = insert p.number rtp.heldNumbers) (hrch : p.number < rtp.next + 65536)
    (hrp : r.number < p.number) (hle : rtp.next ≤ r.number + 1) (x : ℕ) :
    (∃ i, 1 ≤ i ∧ i ≤ numbersBetween rtp.lastrxseqno p.seqno ∧ x = (rtp.lastrxseqno + i) % 65536 ∧
        rtp'.recvBuffer.get x = none) ↔
      ∃ m, r.number < m ∧ m < p.number ∧ x = m % 65536 ∧ m ∉ rtp.heldNumbers := by
  have hbtw : numbersBetween rtp.lastrxseqno p.seqno = p.number - 1 - r.number := by
    rw [h.lastrxseqno, numbersBetween, RxPacket.seqno, RxPacket.seqno]
    omega
  have hmod : ∀ i, (rtp.lastrxseqno + i) % 65536 = (r.number + i) % 65536 := by
    intro i
    rw [h.lastrxseqno, RxPacket.seqno, mod_add_mod]
  have hwin := hrdy.window
  rw [next] at hwin
  constructor
  · rintro ⟨i, hlow, hhigh, rfl, hget⟩
    rw [hmod] at hget ⊢
    refine ⟨r.number + i, by omega, by omega, rfl, fun hheld => ?_⟩
    have hheld' : r.number + i ∈ rtp'.heldNumbers := by
      rw [hnums]
      exact Finset.mem_insert_of_mem hheld
    obtain ⟨q, hq, hqn⟩ := mem_heldNumbers.mp hheld'
    exact hwin.get_eq_none hget hq hqn
  · rintro ⟨m, hrm, hmp, rfl, hnot⟩
    have hi : r.number + (m - r.number) = m := by omega
    refine ⟨m - r.number, by omega, by omega, by rw [hmod, hi], ?_⟩
    cases hget : rtp'.recvBuffer.get (m % 65536) with
    | none => rfl
    | some q =>
      obtain ⟨hq, hqm⟩ := hwin.get_eq_some (show rtp.next ≤ m ∧ m < rtp.next + 65536 by omega) hget
      have hm : m ∈ rtp'.heldNumbers := mem_heldNumbers.mpr ⟨q, hq, hqm⟩
      rw [hnums] at hm
      rcases Finset.mem_insert.mp hm with heq | hm
      · omega
      · exact absurd hm hnot

lemma Tracked.future (hrdy : Ready rtp') (hlast : rtp'.lastrxseqno = p.seqno)
    (hrcv : rtp'.received = rtp.received ++ [p]) (hnear : Near r p)
    (hgap : OpensGap rtp p → rtp.next ≤ r.number + 1) (hrch : p.number < rtp.next + 65536)
    (haside : PutAside rtp p rtp') : Tracked rtp' p := by
  have hnums := haside.heldNumbers
  obtain ⟨gt, notDumps, hnew, next, -, missing, nack⟩ := haside
  have new : p.number ∉ rtp.heldNumbers := by
    rw [mem_heldNumbers]
    exact fun ⟨q, hq, hqn⟩ => hnew q hq hqn
  have hS : ∀ n ∈ rtp.heldNumbers, n < rtp.next + 65536 := fun n hn => (h.window hn).2
  have hwin : rtp.next ≤ p.number ∧ p.number < rtp.next + 65536 := ⟨gt.le, hrch⟩
  have hls : ListsSkipped rtp'.missingSeqno rtp'.heldNumbers rtp'.next := by
    rw [next, hnums]
    rcases missing with ⟨hlst, hvec⟩ | ⟨hnot, hvec⟩
    · rw [hvec]
      exact h.lists.erase hS h.ready.nodup ((h.lists.mem_iff hS hwin).mp hlst)
    have hle := hgap ⟨gt, notDumps, new, hnot⟩
    have hprev := h.received r (mem_of_getLast? h.last)
    -- the packet is after the previous one, or else it would be listed
    have hrp : r.number < p.number := by
      by_contra haft
      have hheld := hprev.resolve_left (by omega)
      have hne : p.number ≠ r.number := fun heq => new (heq ▸ hheld)
      exact hnot ((h.lists.mem_iff hS hwin).mpr ⟨gt.le, ⟨r.number, hheld, by omega⟩, new⟩)
    refine h.lists.extend hS hwin new hnot ?_ hle fun x => ?_
    · exact hprev.imp_left fun hless => by omega
    · rw [hvec, h.adds_iff hrdy next hnums hrch hrp hle]
  have hself : p.number ∈ rtp'.heldNumbers := hnums ▸ Finset.mem_insert_self _ _
  refine h.step hrdy hlast hrcv next.ge (.inr hself) (fun n hn => .inr ?_) (fun n hn => ?_) ?_ hls ?_
  · exact hnums ▸ Finset.mem_insert_of_mem hn
  · rw [hnums] at hn
    exact Finset.mem_insert.mp hn
  · rw [next, hnums]
    obtain ⟨b, hb, hlt, hle⟩ := h.near_held hnear gt new
    exact h.spaced.insert hb hlt hle
  · rcases nack with hnil | hsent
    · simp [hnil]
    · obtain ⟨words, hwds, hasks⟩ := rtcpGenerateNack_requests
        (mod_lt rtp'.next (by decide : 65536 > 0)) hrdy.nodup hrdy.missing_lt
      rw [← hrdy.window.expected, hsent] at hwds
      rw [Option.some.inj hwds]
      have hexp : rtp'.next % 65536 ∈ rtp'.missingSeqno := by
        refine (hls _).mpr ⟨rtp'.next, rfl, le_rfl, ⟨p.number, hself, by omega⟩, fun hin => ?_⟩
        obtain ⟨q, hq, hqn⟩ := mem_heldNumbers.mp hin
        exact hrdy.waits q hq hqn
      exact fun x hx => (hasks (.inr hexp) x).mp hx

lemma rtpRead_tracked (hnear : Near r p) (hp : MissingOk rtp p) :
    ∃ rtp', rtpRead rtp p = some rtp' ∧ Tracked rtp' p ∧ rtp'.received = rtp.received ++ [p] := by
  obtain ⟨hpast, hgap⟩ := hp.resolve_left (mt next_eq_zero.mpr h.pos.ne')
  have hrlt := h.last_lt
  have hahead : p.number < rtp.next + 64535 := by
    have := hnear.2
    omega
  have hrch : InReach rtp p := by
    by_cases hless : p.number < rtp.next
    · exact .inr ⟨hless, hpast hless⟩
    · exact .inl ⟨not_lt.mp hless, by omega⟩
  obtain ⟨rtp', hread, hrdy, hlast, hrcv, hcase⟩ := rtpRead_received h.ready hrch
  refine ⟨rtp', hread, ?_, hrcv⟩
  cases hcase with
  | expected hexp => exact h.expected hrdy hlast hrcv hexp
  | dumped hdumped => exact h.dumped hrdy hlast hrcv hdumped
  | dropped why eq =>
    rw [eq]
    refine h.dropped ?_
    rcases why with hless | hfar | hheld
    · exact .inl hless
    · omega
    · exact .inr (mem_heldNumbers.mpr hheld)
  | future haside =>
    exact h.future hrdy hlast hrcv hnear (fun hopens => hgap hopens r h.last) (by omega) haside

end

end Tracked

/-! ## Runs -/

/-- No number is listed twice, the list has the numbers from the expected one to before the highest
one that did not come, and only they are asked for.
Source: `ast_rtp_read` (`missing_seqno`) -/
structure MissingExact (ps : List RxPacket) (rtp : RtpRecv) : Prop where
  nodup : rtp.missingSeqno.Nodup
  expected : ps ≠ [] → rtp.expectedrxseqno = ((rtp.next % 65536 : ℕ) : ℤ)
  exact : ∀ x, x ∈ rtp.missingSeqno ↔
    ∃ m, x = m % 65536 ∧ rtp.next ≤ m ∧ (∃ p ∈ ps, m < p.number) ∧ ∀ p ∈ ps, p.number ≠ m
  nack : ∀ x ∈ rtp.nack.flatMap nackRequests, x ∈ rtp.missingSeqno

lemma Tracked.missingExact {rtp : RtpRecv} {r : RxPacket} (h : Tracked rtp r) : MissingExact rtp.received rtp := by
  refine ⟨h.ready.nodup, fun _ => h.ready.window.expected, fun x => ?_, h.nack⟩
  rw [h.lists]
  constructor
  · rintro ⟨m, rfl, hle, ⟨n, hn, hmn⟩, hnot⟩
    obtain ⟨p, hp, rfl⟩ := h.held n hn
    refine ⟨m, rfl, hle, ⟨p, hp, hmn⟩, fun q hq hqm => ?_⟩
    rcases h.received q hq with hless | hheld
    · omega
    · exact hnot (hqm ▸ hheld)
  · rintro ⟨m, rfl, hle, ⟨p, hp, hmp⟩, hnone⟩
    refine ⟨m, rfl, hle, ⟨p.number, (h.received p hp).resolve_left (by omega), hmp⟩, fun hin => ?_⟩
    obtain ⟨q, hq, hqm⟩ := h.held m hin
    exact hnone q hq hqm

lemma rtpReadRun_tracked (ps : List RxPacket) {rtp : RtpRecv} {r : RxPacket} (h : Tracked rtp r)
    (hnear : (r :: ps).IsChain Near) (hps : Each rtpRead MissingOk rtp ps) :
    ∃ rtp' r', rtpReadRun ps rtp = some rtp' ∧ Tracked rtp' r' ∧ rtp'.received = rtp.received ++ ps := by
  induction ps generalizing rtp r with
  | nil => exact ⟨rtp, r, rfl, h, by simp⟩
  | cons p ps ih =>
    obtain ⟨hp, hnear⟩ := isChain_cons_cons.mp hnear
    obtain ⟨rtp₁, hread, htrk, hrcv₁⟩ := rtpRead_tracked h hp hps.1
    obtain ⟨rtp', r', hrun, htrk', hrcv⟩ := ih htrk hnear (hps.2 rtp₁ hread)
    refine ⟨rtp', r', by rw [rtpReadRun, foldlM_cons, hread]; exact hrun, htrk', ?_⟩
    rw [hrcv, hrcv₁, append_assoc, singleton_append]

lemma rtpRead_start_tracked (lastrxseqno lastividtimestamp : ℕ) (p : RxPacket) :
    ∃ rtp, rtpRead (RtpRecv.start lastrxseqno lastividtimestamp) p = some rtp ∧ Tracked rtp p ∧
      rtp.received = [p] := by
  obtain ⟨rtp, hread, hrdy, hint, hheld, hmis, hnack, hlast, hrcv⟩ :=
    rtpRead_start lastrxseqno lastividtimestamp p
  have hnext : rtp.next = p.number + 1 := next_of_interpreted (l := []) hint
  have hnums : rtp.heldNumbers = ∅ := by simp [RtpRecv.heldNumbers, hheld]
  refine ⟨rtp, hread, ⟨hrdy, by omega, by simp [hrcv], hlast, fun q hq => ?_, ?_, ?_, ?_, ?_⟩, hrcv⟩
  · rw [hrcv] at hq
    rw [mem_singleton.mp hq]
    exact .inl (by omega)
  · simp [hnums]
  · simp [hnums, Spaced]
  · simp [hnums, hmis, ListsSkipped, Skipped]
  · simp [hnack]

/-- **The list of missing packets is exact** after every run with jumps below 1000 whose packets
from the past are dropped, and in which no gap is opened after a packet from before the last one
handed up. -/
theorem rtpReadRun_missing_exact (lastrxseqno lastividtimestamp : ℕ) (ps : List RxPacket)
    (hnear : ps.IsChain Near)
    (hps : Each rtpRead MissingOk (RtpRecv.start lastrxseqno lastividtimestamp) ps) :
    ∃ rtp, rtpReadRun ps (RtpRecv.start lastrxseqno lastividtimestamp) = some rtp ∧ MissingExact ps rtp := by
  cases ps with
  | nil =>
    refine ⟨_, rfl, nodup_nil, fun hne => absurd rfl hne, fun x => ?_, ?_⟩
    · simp [RtpRecv.start]
    · simp [RtpRecv.start]
  | cons p ps =>
    obtain ⟨rtp₁, hread, htrk, hrcv₁⟩ := rtpRead_start_tracked lastrxseqno lastividtimestamp p
    obtain ⟨rtp, r, hrun, htrk', hrcv⟩ := rtpReadRun_tracked ps htrk hnear (hps.2 rtp₁ hread)
    refine ⟨rtp, by rw [rtpReadRun, foldlM_cons, hread]; exact hrun, ?_⟩
    have hex := htrk'.missingExact
    rwa [hrcv, hrcv₁] at hex

/-- Audio packets with two gaps, of which the first is filled in part. -/
theorem rtpReadRun_missing_exact_gaps :
    ∃ rtp, rtpReadRun [⟨65530, 160, some .audio⟩, ⟨65533, 640, some .audio⟩, ⟨65532, 480, some .audio⟩,
        ⟨65535, 960, some .audio⟩] (RtpRecv.start 0 0) = some rtp ∧
      MissingExact [⟨65530, 160, some .audio⟩, ⟨65533, 640, some .audio⟩, ⟨65532, 480, some .audio⟩,
        ⟨65535, 960, some .audio⟩] rtp :=
  rtpReadRun_missing_exact 0 0 _ (by decide) (by decide)

/-- The packets 0, 4, 2, 1 and 5 come. The packet before 5 is 1, so 2 is listed again, though it was
handed up. -/
theorem rtpReadRun_lists_received :
    (rtpReadRun [⟨0, 160, some .audio⟩, ⟨4, 800, some .audio⟩, ⟨2, 480, some .audio⟩,
        ⟨1, 320, some .audio⟩, ⟨5, 960, some .audio⟩] (RtpRecv.start 0 0)).map
      (fun rtp => (rtp.handedUp.map RxPacket.number, rtp.expectedrxseqno, rtp.missingSeqno)) =
      some ([0, 1, 2], 3, [2, 3]) := by
  decide

end Telephony.Rtp
