import Mathlib.Data.List.Chain
import Mathlib.Algebra.Order.Ring.Int

/-!
# The extended sequence number

Without a receive buffer, `ast_rtp_interpret` counts a cycle when the number of a packet is more
than 100 below that of the packet before it. A packet of the model has the number that its sender
counts without wrapping, and the code sees the lowest 16 bits; the first packet is of cycle 0.
-/

namespace Telephony.Rtp

/-- Source: `struct ast_rtp` (`unsigned int cycles`, `int lastrxseqno`) -/
structure RxSeqno where
  cycles : ℤ
  lastrxseqno : ℤ
  deriving DecidableEq, Repr

/-- Source: `ast_rtp_read` (`prev_seqno`), `ast_rtp_interpret` ("the sender cycled; allow") -/
def RxSeqno.interpret (rtp : RxSeqno) (seqno : ℤ) : RxSeqno :=
  ⟨if 100 < rtp.lastrxseqno - seqno then (rtp.cycles + 65536) % 2 ^ 32 else rtp.cycles, seqno⟩

/-- Source: `calculate_lost_packet_statistics` (`unsigned int extended_seq_no`) -/
def RxSeqno.extendedSeqNo (rtp : RxSeqno) : ℤ := (rtp.cycles + rtp.lastrxseqno) % 2 ^ 32

/-- After each packet the extended number is not past the highest number received, as 32-bit
numbers. -/
def NeverPast : RxSeqno → ℤ → List ℤ → Prop
  | _, _, [] => True
  | rtp, highest, n :: ns =>
    Int.bmod ((rtp.interpret (n % 65536)).extendedSeqNo - max highest n) (2 ^ 32) ≤ 0 ∧
      NeverPast (rtp.interpret (n % 65536)) (max highest n) ns

/-- The packets come fewer than 100 positions from where they were sent, from number `a` on. -/
def Displaced (a : ℤ) (ns : List ℤ) : Prop := ∀ (i : ℕ) n, ns[i]? = some n → n - (a + i) < 100 ∧ a + i - n < 100

/-- The second packet is not of an earlier cycle, nor more than 100 back in the same one. -/
def Steady (n n' : ℤ) : Prop := n / 65536 < n' / 65536 ∨ n / 65536 = n' / 65536 ∧ n ≤ n' + 100

instance (n n' : ℤ) : Decidable (Steady n n') := inferInstanceAs (Decidable (_ ∨ _))

variable {a n m highest : ℤ} {ns : List ℤ}

lemma Displaced.tail (h : Displaced a (n :: ns)) : Displaced (a + 1) ns := by
  intro i m hm
  have hi := h (i + 1) m hm
  omega

/-- The state after packet `n` when each wrap so far was counted once. -/
def RxSeqno.after (n : ℤ) : RxSeqno := ⟨65536 * (n / 65536) % 2 ^ 32, n % 65536⟩

lemma interpret_of_steady (hstd : Steady n m) (hnear : m < n + 200) :
    (RxSeqno.after n).interpret (m % 65536) = RxSeqno.after m := by
  unfold Steady at hstd
  simp only [RxSeqno.after, RxSeqno.interpret, RxSeqno.mk.injEq, and_true]
  split_ifs <;> omega

lemma extendedSeqNo_after (hle : m ≤ highest) (hnear : highest < m + 200) :
    Int.bmod ((RxSeqno.after m).extendedSeqNo - highest) (2 ^ 32) ≤ 0 := by
  simp only [RxSeqno.extendedSeqNo, RxSeqno.after, Int.bmod_def]
  split_ifs <;> omega

lemma past_of_not_steady (hstd : ¬Steady n m) (hback : n < m + 200) (hle : n ≤ highest)
    (hnear : highest < m + 200) :
    0 < Int.bmod (((RxSeqno.after n).interpret (m % 65536)).extendedSeqNo - highest) (2 ^ 32) := by
  unfold Steady at hstd
  simp only [RxSeqno.extendedSeqNo, RxSeqno.after, RxSeqno.interpret, Int.bmod_def]
  split_ifs <;> omega

/-- Induction on the packets after packet `n`. -/
lemma neverPast_iff (hn : n - a < 100 ∧ a - n < 100) (hle : n ≤ highest) (hhigh : highest < a + 100)
    (h : Displaced (a + 1) ns) : NeverPast (RxSeqno.after n) highest ns ↔ (n :: ns).IsChain Steady := by
  induction ns generalizing a n highest with
  | nil => simp [NeverPast]
  | cons m ns ih =>
    have hm : m - (a + 1) < 100 ∧ a + 1 - m < 100 := by simpa using h 0 m rfl
    rw [List.isChain_cons_cons, NeverPast]
    by_cases hstd : Steady n m
    · rw [interpret_of_steady hstd (by omega), ih hm (le_max_right _ _) (by omega) h.tail]
      exact and_congr_left fun _ => iff_of_true (extendedSeqNo_after (le_max_right _ _) (by omega)) hstd
    · have hpast := past_of_not_steady hstd (by omega) (hle.trans (le_max_left _ m)) (by omega)
      exact iff_of_false (fun hnever => hnever.1.not_gt hpast) fun hchn => hstd hchn.1

/-- **The extended number** never moves past the highest number received exactly when no packet
comes right after one of a later cycle, or after one that is more than 100 ahead in its own
cycle. -/
theorem extendedSeqNo_neverPast_iff (hn : 0 ≤ n ∧ n < 65536) (h : Displaced a (n :: ns)) :
    NeverPast ⟨0, 0⟩ n (n :: ns) ↔ (n :: ns).IsChain Steady := by
  have hfst : RxSeqno.interpret ⟨0, 0⟩ (n % 65536) = RxSeqno.after n := by
    simp only [RxSeqno.after, RxSeqno.interpret, RxSeqno.mk.injEq, and_true]
    split_ifs <;> omega
  have hdist : n - a < 100 ∧ a - n < 100 := by simpa using h 0 n rfl
  rw [NeverPast, hfst, max_self, neverPast_iff hdist le_rfl (by omega) h.tail]
  exact and_iff_right (extendedSeqNo_after le_rfl (by omega))

/-- A late packet within a cycle, and then the wrap. -/
theorem extendedSeqNo_neverPast_iff_wrap : NeverPast ⟨0, 0⟩ 65534 [65534, 65533, 65535, 65536] := by
  refine (extendedSeqNo_neverPast_iff (a := 65534) (by decide) fun i n hn => ?_).mpr (by decide)
  match i, hn with
  | 0, rfl | 1, rfl | 2, rfl | 3, rfl => decide

/-- The last packet of a cycle comes after the first one of the next: the wrap is counted twice. -/
theorem extendedSeqNo_past :
    Displaced 65534 [65534, 65536, 65535, 65537] ∧
      ([65534, 0, 65535, 1].foldl RxSeqno.interpret ⟨0, 0⟩).extendedSeqNo = 65537 + 65536 := by
  refine ⟨fun i n hn => ?_, by decide⟩
  match i, hn with
  | 0, rfl | 1, rfl | 2, rfl | 3, rfl => decide

end Telephony.Rtp
