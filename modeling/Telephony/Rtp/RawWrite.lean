import Mathlib.Tactic.NormNum

/-!
# The header of an outgoing packet

`rtp_raw_write` computes the sequence number of a packet in 32 bits, from the 16-bit number of the
session and the place of the frame in its own stream, and combines it with the other fields of the
first header word by bitwise or.
-/

namespace Telephony.Rtp

open Nat List

/-! ## Data model -/

/-- The sending side of a session, as far as sequence numbers go. `expectedseqno` is -1 when there
is no number to expect.
Source: `struct ast_rtp` (`seqno`, `expectedseqno`) -/
structure RtpSend where
  seqno : ℕ
  seqno_lt : seqno < 2 ^ 16
  expectedseqno : ℤ
  deriving DecidableEq, Repr

/-- A frame to send: its own sequence number, the marker bit and the payload type, and whether the
packet has a header extension.
Source: `struct ast_frame` (`AST_FRFLAG_HAS_SEQUENCE_NUMBER`, `seqno`), `rtp_raw_write` (`mark`,
`codec`, `ext`) -/
structure SendFrame where
  seqno : Option ℤ
  mark : Bool
  codec : ℕ
  ext : Bool
  deriving DecidableEq, Repr

/-- Source: `rtp_raw_write` (`(2 << 30) | (ext << 28) | (codec << 16) | (seqno) | (mark << 23)`) -/
def headerWord (f : SendFrame) (seqno : ℕ) : ℕ :=
  2 <<< 30 ||| f.ext.toNat <<< 28 ||| f.codec <<< 16 ||| seqno ||| f.mark.toNat <<< 23

/-- How far the frame is from the one expected; zero without a number to compare, or far away from
it.
Source: `rtp_raw_write` (`difference`) -/
def RtpSend.difference (rtp : RtpSend) (f : SendFrame) : ℤ :=
  match f.seqno with
  | none => 0
  | some n =>
    if rtp.expectedseqno ≠ -1 then
      if 100 < |n - rtp.expectedseqno| then 0 else n - rtp.expectedseqno
    else 0

/-- Source: `rtp_raw_write` (`rtp->expectedseqno`) -/
def RtpSend.nextExpected (rtp : RtpSend) (f : SendFrame) : ℤ :=
  match f.seqno with
  | none => -1
  | some n => if rtp.difference f < 0 then rtp.expectedseqno else n + 1

/-- The new state and the first word of the packet. The number used is an `unsigned int`, that of
the session an `unsigned short`. -/
def rtpRawWrite (rtp : RtpSend) (f : SendFrame) : RtpSend × ℕ :=
  let seqno := ((rtp.seqno + rtp.difference f) % 2 ^ 32).toNat
  let own := if 0 ≤ rtp.difference f then (rtp.seqno + (rtp.difference f).toNat) % 2 ^ 16 else rtp.seqno
  let next := if seqno = own then (own + 1) % 2 ^ 16 else own
  have hlt : next < 2 ^ 16 := by
    have := rtp.seqno_lt
    simp only [next, own]
    split_ifs <;> omega
  (⟨next, hlt, rtp.nextExpected f⟩, headerWord f seqno)

def rtpRawRun : RtpSend → List SendFrame → List ℕ
  | _, [] => []
  | rtp, f :: fs => (rtpRawWrite rtp f).2 :: rtpRawRun (rtpRawWrite rtp f).1 fs

/-! ## Reading the word back -/

/-- Source: `ast_rtp_read` (`(seqno & 0xC0000000) >> 30`) -/
def versionOf (w : ℕ) : ℕ := w / 2 ^ 30 % 4

/-- Source: `ast_rtp_interpret` (`mark = seqno & (1 << 23)`) -/
def markerOf (w : ℕ) : ℕ := w / 2 ^ 23 % 2

/-- Source: `ast_rtp_read` (`(seqno & 0x7f0000) >> 16`) -/
def payloadTypeOf (w : ℕ) : ℕ := w / 2 ^ 16 % 2 ^ 7

/-- Source: `ast_rtp_read` (`seqno &= 0xffff`) -/
def numberOf (w : ℕ) : ℕ := w % 2 ^ 16

/-- The word is read back as version 2, the marker and payload type of the frame, and the number `n`
modulo 2^16. -/
def HeaderOk (f : SendFrame) (n : ℤ) (w : ℕ) : Prop :=
  versionOf w = 2 ∧ markerOf w = f.mark.toNat ∧ payloadTypeOf w = f.codec ∧ (numberOf w : ℤ) = n % 2 ^ 16

instance (f : SendFrame) (n : ℤ) (w : ℕ) : Decidable (HeaderOk f n w) := by
  unfold HeaderOk
  infer_instance

/-! ## The fields -/

lemma shiftLeft_or_eq_add (a : ℕ) {b i : ℕ} (hb : b < 2 ^ i) : a <<< i ||| b = a * 2 ^ i + b := by
  rw [← shiftLeft_add_eq_or_of_lt hb, shiftLeft_eq]

variable {f : SendFrame} {r c k : ℕ} {rtp : RtpSend}

lemma headerWord_eq (hcod : f.codec < 2 ^ 7) (hr : r < 2 ^ 16) :
    headerWord f r = 2 * 2 ^ 30 + (f.ext.toNat * 2 ^ 28 + (f.mark.toNat * 2 ^ 23 + (f.codec * 2 ^ 16 + r))) := by
  have hmark : f.mark.toNat < 2 := f.mark.toNat_lt
  have hext : f.ext.toNat < 2 := f.ext.toNat_lt
  calc headerWord f r = 2 <<< 30 ||| (f.ext.toNat <<< 28 ||| (f.mark.toNat <<< 23 ||| (f.codec <<< 16 ||| r))) := by
        rw [headerWord, Nat.or_comm (f.mark.toNat <<< 23)]
        simp [Nat.or_assoc]
    _ = _ := by
        -- the lowest fields first, so that each bound is about a sum
        rw [shiftLeft_or_eq_add f.codec hr]
        rw [shiftLeft_or_eq_add f.mark.toNat (by omega)]
        rw [shiftLeft_or_eq_add f.ext.toNat (by omega)]
        rw [shiftLeft_or_eq_add 2 (by omega)]

lemma headerOk_of_lt (hcod : f.codec < 2 ^ 7) (hr : r < 2 ^ 16) : HeaderOk f r (headerWord f r) := by
  have hmark : f.mark.toNat < 2 := f.mark.toNat_lt
  have hext : f.ext.toNat < 2 := f.ext.toNat_lt
  unfold HeaderOk versionOf markerOf payloadTypeOf numberOf
  rw [headerWord_eq hcod hr]
  refine ⟨?_, ?_, ?_, ?_⟩ <;> omega

lemma headerWord_carry (f : SendFrame) (hr : r < 2 ^ 16) :
    headerWord f (2 ^ 16 + r) = headerWord { f with codec := f.codec ||| 1 } r := by
  have hcarry : 2 ^ 16 + r = 1 <<< 16 ||| r := by rw [shiftLeft_or_eq_add 1 hr, one_mul]
  simp only [headerWord, hcarry, shiftLeft_or_distrib, Nat.or_assoc]

lemma or_one_eq_iff (hc : c < 2 ^ 7) : c ||| 1 = c ↔ c % 2 = 1 := by
  have hall : ∀ c < 2 ^ 7, (c ||| 1 = c ↔ c % 2 = 1) := by decide
  exact hall c hc

lemma or_one_lt (hc : c < 2 ^ 7) : c ||| 1 < 2 ^ 7 := or_lt_two_pow hc (by norm_num)

lemma not_headerOk_of_neg (hk : 0 < k) (hle : k ≤ 100) (n : ℤ) : ¬HeaderOk f n (headerWord f (2 ^ 32 - k)) := by
  intro h
  have hbit : (headerWord f (2 ^ 32 - k)).testBit 30 = true := by
    have hseq : (2 ^ 32 - k).testBit 30 = true := by
      rw [testBit_eq_decide_div_mod_eq, decide_eq_true_eq]
      omega
    simp only [headerWord, testBit_or, hseq, Bool.or_true, Bool.true_or]
  rw [testBit_eq_decide_div_mod_eq, decide_eq_true_eq] at hbit
  have hver := h.1
  unfold versionOf at hver
  omega

/-! ## One packet -/

lemma RtpSend.abs_difference_le (rtp : RtpSend) (f : SendFrame) : |rtp.difference f| ≤ 100 := by
  unfold RtpSend.difference
  split
  · simp
  · split_ifs with hexp hfar
    · simp
    · omega
    · simp

lemma headerOk_iff (rtp : RtpSend) (hcod : f.codec < 2 ^ 7) :
    HeaderOk f (rtp.seqno + rtp.difference f) (rtpRawWrite rtp f).2 ↔
      0 ≤ rtp.seqno + rtp.difference f ∧ (rtp.seqno + rtp.difference f < 2 ^ 16 ∨ f.codec % 2 = 1) := by
  have hlt := rtp.seqno_lt
  have hdiff := abs_le.mp (rtp.abs_difference_le f)
  simp only [rtpRawWrite]
  set n : ℤ := rtp.seqno + rtp.difference f with hn
  rcases lt_or_ge n 0 with hneg | hpos
  · have hword : (n % 2 ^ 32).toNat = 2 ^ 32 - (-n).toNat := by omega
    rw [hword]
    refine iff_of_false (not_headerOk_of_neg (by omega) (by omega) n) fun h => ?_
    omega
  rcases lt_or_ge n (2 ^ 16) with hsml | hbig
  · obtain ⟨r, hr⟩ := Int.eq_ofNat_of_zero_le hpos
    have hword : (n % 2 ^ 32).toNat = r := by omega
    rw [hword, hr]
    exact iff_of_true (headerOk_of_lt hcod (by omega)) ⟨by omega, .inl (by omega)⟩
  obtain ⟨r, hr⟩ := Int.eq_ofNat_of_zero_le (show 0 ≤ n - 2 ^ 16 by omega)
  have hword : (n % 2 ^ 32).toNat = 2 ^ 16 + r := by omega
  have hrlt : r < 2 ^ 16 := by omega
  rw [hword, headerWord_carry f hrlt]
  obtain ⟨hver, hmark, htype, hnum⟩ :=
    headerOk_of_lt (f := { f with codec := f.codec ||| 1 }) (or_one_lt hcod) hrlt
  rw [← or_one_eq_iff hcod]
  constructor
  · rintro ⟨-, -, htype', -⟩
    exact ⟨hpos, .inr (htype.symm.trans htype')⟩
  · rintro ⟨-, hbad | hodd⟩
    · omega
    · exact ⟨hver, hmark, htype.trans hodd, by omega⟩

/-! ## Frames in order -/

/-- A frame that continues its stream: it has no number, there is none to compare with, or its
number is the next one, which may have wrapped around. -/
def Follows (expected : ℤ) (f : SendFrame) : Prop :=
  f.seqno = none ∨ expected = -1 ∨ f.seqno = some expected ∨ f.seqno = some (expected - 2 ^ 16)

def InOrder : ℤ → List SendFrame → Prop
  | _, [] => True
  | expected, f :: fs =>
    Follows expected f ∧ InOrder (match f.seqno with | none => -1 | some n => n + 1) fs

lemma difference_of_follows (h : Follows rtp.expectedseqno f) : rtp.difference f = 0 := by
  unfold RtpSend.difference
  rcases h with hnone | hsta | hnext | hwrap
  · rw [hnone]
  · split
    · rfl
    · rw [if_neg (not_not.mpr hsta)]
  · rw [hnext]
    simp
  · rw [hwrap]
    simp

lemma rtpRawWrite_of_follows (h : Follows rtp.expectedseqno f) :
    (rtpRawWrite rtp f).2 = headerWord f rtp.seqno ∧
      (rtpRawWrite rtp f).1.seqno = (rtp.seqno + 1) % 2 ^ 16 ∧
      (rtpRawWrite rtp f).1.expectedseqno = match f.seqno with | none => -1 | some n => n + 1 := by
  have hlt := rtp.seqno_lt
  have hdiff := difference_of_follows h
  have hword : (((rtp.seqno : ℤ) + 0) % 2 ^ 32).toNat = rtp.seqno := by omega
  refine ⟨?_, ?_, ?_⟩
  · simp only [rtpRawWrite, hdiff, hword]
  · simp only [rtpRawWrite, hdiff, hword, le_refl, if_true, Int.toNat_zero, Nat.add_zero,
      mod_eq_of_lt hlt]
  · simp [rtpRawWrite, RtpSend.nextExpected, hdiff]

lemma rtpRawRun_numbers (fs : List SendFrame) (h : InOrder rtp.expectedseqno fs)
    (hcod : ∀ f ∈ fs, f.codec < 2 ^ 7) :
    (rtpRawRun rtp fs).length = fs.length ∧
      ∀ (i : ℕ) f w, fs[i]? = some f → (rtpRawRun rtp fs)[i]? = some w → HeaderOk f (rtp.seqno + i) w := by
  induction fs generalizing rtp with
  | nil => exact ⟨rfl, by simp⟩
  | cons f fs ih =>
    rw [forall_mem_cons] at hcod
    obtain ⟨hword, hseq, hexp⟩ := rtpRawWrite_of_follows h.1
    obtain ⟨hlen, hrest⟩ := ih (hexp ▸ h.2) hcod.2
    refine ⟨by rw [rtpRawRun, length_cons, hlen, length_cons], fun i g w hg hw => ?_⟩
    cases i with
    | zero =>
      simp only [getElem?_cons_zero, Option.some.injEq, rtpRawRun] at hg hw
      subst hg hw
      rw [hword]
      simpa using headerOk_of_lt hcod.1 rtp.seqno_lt
    | succ i =>
      obtain ⟨hver, hmark, htype, hnum⟩ := hrest i g w hg hw
      refine ⟨hver, hmark, htype, ?_⟩
      omega

/-- **The headers of outgoing packets.** The first word is read back as version 2, the marker and
payload type of the frame and its number exactly when the number is not negative and stays below
2^16, or the payload type is odd. Frames in order get consecutive numbers modulo 2^16 and right
headers. -/
theorem rtpRawWrite_headers (rtp : RtpSend) (f : SendFrame) (fs : List SendFrame) :
    (f.codec < 2 ^ 7 →
      (HeaderOk f (rtp.seqno + rtp.difference f) (rtpRawWrite rtp f).2 ↔
        0 ≤ rtp.seqno + rtp.difference f ∧
          (rtp.seqno + rtp.difference f < 2 ^ 16 ∨ f.codec % 2 = 1))) ∧
    (InOrder rtp.expectedseqno fs → (∀ g ∈ fs, g.codec < 2 ^ 7) →
      (rtpRawRun rtp fs).length = fs.length ∧
        ∀ (i : ℕ) g w, fs[i]? = some g → (rtpRawRun rtp fs)[i]? = some w → HeaderOk g (rtp.seqno + i) w) :=
  ⟨fun hcod => headerOk_iff rtp hcod, fun h hcod => rtpRawRun_numbers fs h hcod⟩

/-- Three frames in order around the wrap of both numbers. -/
theorem rtpRawWrite_headers_wrap :
    let rtp : RtpSend := ⟨65535, by decide, 65535⟩
    let fs : List SendFrame := [⟨some 65535, true, 8, false⟩, ⟨some 0, false, 8, false⟩, ⟨none, false, 0, true⟩]
    (rtpRawRun rtp fs).length = 3 ∧
      ∀ (i : ℕ) g w, fs[i]? = some g → (rtpRawRun rtp fs)[i]? = some w → HeaderOk g (65535 + i) w := by
  intro rtp fs
  have hord : InOrder rtp.expectedseqno fs :=
    ⟨.inr (.inr (.inl rfl)), .inr (.inr (.inr rfl)), .inl rfl, trivial⟩
  exact (rtpRawWrite_headers rtp ⟨none, false, 0, false⟩ fs).2 hord (by decide)

/-- The session is at number 65535, and a frame that is one ahead is sent with payload type 0: the
packet has payload type 1. -/
theorem rtpRawWrite_carries :
    let rtp : RtpSend := ⟨65535, by decide, 10⟩
    let f : SendFrame := ⟨some 11, false, 0, false⟩
    rtp.difference f = 1 ∧ payloadTypeOf (rtpRawWrite rtp f).2 = 1 ∧
      ¬HeaderOk f (rtp.seqno + rtp.difference f) (rtpRawWrite rtp f).2 := by
  decide

end Telephony.Rtp
