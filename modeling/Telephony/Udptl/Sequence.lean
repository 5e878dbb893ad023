import Telephony.Lib.Runs
import Telephony.Udptl.Transmit

/-!
# Sequence numbers over many wraps

The packets of a session are numbered 0, 1, 2, …; a packet carries its number modulo `2 ^ 16`, and
the receiver keeps the number it expects next, which may be beyond `0xFFFF` for sixteen packets
after a wrap.
-/

namespace Telephony.Udptl

open Lib Nat

/-! ## Unwrapping -/

/-- The receiver, expecting number `expected`, unwraps number `n` rightly.
Source: `udptl_rx_packet` (`seq_no < 0x000F && s->rx_seq_no > 0xFFF0`) -/
def Unwraps (expected n : ℕ) : Prop :=
  n / 65536 = expected / 65536 ∨ n / 65536 = expected / 65536 + 1 ∧ 0xFFF0 < expected % 65536 ∧ n % 65536 < 0x000F

instance (expected n : ℕ) : Decidable (Unwraps expected n) := by
  unfold Unwraps
  infer_instance

/-- Source: `udptl_rx_packet` ("After a 16 packet") -/
def TracksExpected (rxSeqNo expected : ℕ) : Prop :=
  rxSeqNo = if 65536 ≤ expected ∧ expected % 65536 ≤ 15 then expected % 65536 + 65536 else expected % 65536

/-- A new packet that is unwrapped rightly, or the last one once more. The copy of a packet numbered
`0xFFFF` is taken for a new one, because the expected number is wrapped first.
Source: `udptl_rx_packet` -/
def InStep (expected n : ℕ) : Prop :=
  expected ≤ n ∧ Unwraps expected n ∨ n + 1 = expected ∧ n % 65536 ≠ 0xFFFF

instance (expected n : ℕ) : Decidable (InStep expected n) := by
  unfold InStep
  infer_instance

lemma unwrapSeqNo_eq (rxSeqNo seqNo : ℕ) :
    unwrapSeqNo rxSeqNo seqNo =
      if seqNo < 15 ∧ 65520 < rxSeqNo then (seqNo + 65536, rxSeqNo)
      else (seqNo, rxSeqNo % 65536) := by
  unfold unwrapSeqNo
  rw [show rxSeqNo &&& 0xFFFF = rxSeqNo % 65536 from and_two_pow_sub_one_eq_mod rxSeqNo 16]

lemma unwrapSeqNo_spec {rxSeqNo expected n : ℕ} (ht : TracksExpected rxSeqNo expected)
    (hin : InStep expected n) :
    ((unwrapSeqNo rxSeqNo (n % 65536)).1 : ℤ) - (unwrapSeqNo rxSeqNo (n % 65536)).2 =
        n - expected ∧
      (unwrapSeqNo rxSeqNo (n % 65536)).1 % 65536 = n % 65536 ∧
      min n 15 ≤ (unwrapSeqNo rxSeqNo (n % 65536)).1 ∧
      TracksExpected ((unwrapSeqNo rxSeqNo (n % 65536)).1 + 1) (n + 1) := by
  unfold TracksExpected at ht ⊢
  unfold InStep Unwraps at hin
  rw [unwrapSeqNo_eq]
  by_cases hgrace : 65536 ≤ expected ∧ expected % 65536 ≤ 15
  all_goals
    subst ht
    split_ifs <;> refine ⟨?_, ?_, ?_, ?_⟩ <;> simp only <;> omega

/-! ## The header of a packet -/

lemma seqOctets_value {n : ℕ} (h : n < 65536) :
    ((UInt8.ofNat ((n >>> 8) &&& 0xFF)).toNat <<< 8) ||| (UInt8.ofNat (n &&& 0xFF)).toNat = n := by
  have hhi : (n >>> 8) &&& 0xFF = n / 256 := by
    rw [and_two_pow_sub_one_eq_mod _ 8]
    omega
  have hlo : n &&& 0xFF = n % 256 := and_two_pow_sub_one_eq_mod n 8
  rw [hhi, hlo, UInt8.toNat_ofNat', UInt8.toNat_ofNat', mod_eq_of_lt (show n % 256 < 2 ^ 8 by omega),
    ← shiftLeft_add_eq_or_of_lt (show n % 256 < 2 ^ 8 by omega)]
  omega

lemma rxHeader_packet (s : RxState) {n : ℕ} (hn : n < 65536) {ifp : Bytes}
    (hifp : ifp.length ≤ localFaxMaxDatagram) (recovery : UInt8) (rest : Bytes) :
    rxHeader s (seqOctets n ++ openType ifp ++ recovery :: rest) =
      (some ⟨(unwrapSeqNo s.rxSeqNo n).1, ifp, decide (recovery.toNat &&& 0x80 ≠ 0), rest⟩,
        { s with rxSeqNo := (unwrapSeqNo s.rxSeqNo n).2 }) := by
  have hlt : ifp.length < 0x4000 := lt_of_le_of_lt hifp (by decide)
  simp only [seqOctets, List.cons_append, List.nil_append, rxHeader, seqOctets_value hn, decodeOpenType_openType hlt]

/-! ## The numbers of the frames -/

/-- The number of a frame that was handed up when packet `n` arrived: the latest one up to `n` whose
sequence number it carries. -/
def Frame.number (n : ℕ) (f : Frame) : ℤ := n - ((n : ℤ) - f.seqno) % 65536

def handedUp (n : ℕ) (frames : Option (List Frame)) : List (ℤ × Bytes) :=
  (frames.getD []).map fun f => (f.number n, f.data)

/-- What is handed up over a run of datagrams, each with the number of its packet. -/
def deliveries : RxState → List (ℕ × Bytes) → List (ℤ × Bytes)
  | _, [] => []
  | s, (n, d) :: ds => handedUp n (rxPacket s d).1 ++ deliveries (rxPacket s d).2 ds

/-- Every packet of a run is unwrapped rightly: around a wrap, not too many packets in a row are
lost. -/
abbrev UnwrapsRun : ℕ → List ℕ → Prop := Each (total fun _ n => n + 1) Unwraps

end Telephony.Udptl
