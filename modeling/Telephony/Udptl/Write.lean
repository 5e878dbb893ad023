import Telephony.Lib.Runs
import Telephony.Udptl.Transmit

/-!
# Sending UDPTL packets within the buffers

`ast_udptl_write` builds a packet in a buffer of the size that the far end accepts.
`encode_open_type` compares a string with the buffer after it has written the length of the string,
and the sequence number and the octets that announce the error recovery data are written without a
comparison. The IFP is copied to the ring before all this, cut only to a limit that may be unset.
-/

namespace Telephony.Udptl

open Lib List Function Option

/-! ## Sessions -/

def defaultFaxMaxDatagram : ℕ := 400

def faxMaxDatagramLimit : ℕ := 1400

/-- Source: `struct ast_udptl`, as far as sending uses it. `peer` says whether `them` is set. -/
structure Session where
  peer : Bool
  conf : EcConf
  farMaxDatagram : ℤ
  farMaxIfp : ℤ
  tx : TxState

/-- Source: `ast_udptl_new_with_bindaddr` -/
def Session.new (fecentries fecspan : ℕ) : Session := ⟨false, ⟨.none, fecentries, fecspan⟩, -1, -1, .new⟩

def setErrorCorrectionScheme (ec : EcScheme) (s : Session) : Session :=
  let conf := { s.conf with scheme := ec }
  let conf := match ec with
    | .fec => { conf with
        entries := if conf.entries = 0 then 3 else conf.entries
        span := if conf.span = 0 then 3 else conf.span }
    | .redundancy => { conf with entries := if conf.entries = 0 then 3 else conf.entries }
    | .none => conf
  { s with conf := conf, farMaxIfp := -1 }

def setFarMaxDatagram (maxDatagram : ℕ) (s : Session) : Session :=
  { s with
    farMaxDatagram := if maxDatagram = 0 ∨ faxMaxDatagramLimit < maxDatagram then defaultFaxMaxDatagram else maxDatagram
    farMaxIfp := -1 }

/-- The largest IFP with as many entries as are possible, and their number; `room` is
`far_max_datagram - 8`.
Source: `calculate_far_max_ifp` ("for (;;)") -/
def redundancyLimit (room : ℕ) : ℕ → ℕ × ℕ
  | 0 => (room, 0)
  | e + 1 => if room / (e + 2) < 80 ∧ 1 < e + 1 then redundancyLimit room e else (room / (e + 2), e + 1)

/-- 95% of a number as an `int`; what becomes of a number that is no `int` is not defined. The
product with `0.95` is rounded to a whole number when it is one, so that the fraction is cut off as
it should be.
Source: `calculate_far_max_ifp` ("subtract 5% of space") -/
def lessInsurance (wild : ℕ → ℤ) (newMax : ℕ) : ℤ :=
  if 19 * newMax / 20 < 2 ^ 31 then ((19 * newMax / 20 : ℕ) : ℤ) else wild newMax

def calculateFarMaxIfp (wild : ℕ → ℤ) (s : Session) : Session :=
  if s.farMaxDatagram = -1 then { s with farMaxIfp := -1 }
  else
    match s.conf.scheme with
    | .none => { s with farMaxIfp := lessInsurance wild ((s.farMaxDatagram - 5) % 2 ^ 32).toNat }
    | .redundancy =>
      let limit := redundancyLimit ((s.farMaxDatagram - 8) % 2 ^ 32).toNat s.conf.entries
      { s with conf := { s.conf with entries := limit.2 }, farMaxIfp := lessInsurance wild limit.1 }
    | .fec => { s with farMaxIfp := lessInsurance wild (((s.farMaxDatagram - 10).tdiv 2) % 2 ^ 32).toNat }

def getFarMaxIfp (wild : ℕ → ℤ) (s : Session) : Session :=
  if s.farMaxIfp = -1 then calculateFarMaxIfp wild s else s

/-! ## Writing -/

/-- Source: `struct ast_frame` (`frametype` and `subclass`, `datalen`, `data`) -/
structure AstFrame where
  isT38 : Bool
  data : Bytes
  length_lt : data.length < 2 ^ 31

/-- Source: `ast_udptl_write` (`bufsize`) -/
def Session.bufsize (s : Session) : ℕ :=
  if 0 < s.farMaxDatagram then s.farMaxDatagram.toNat else defaultFaxMaxDatagram

/-- The IFP that is sent; the limit is compared and used as an `unsigned int`.
Source: `ast_udptl_write` (`if (len > s->far_max_ifp)`) -/
def Session.ifp (s : Session) (f : AstFrame) : Bytes :=
  let limit := (s.farMaxIfp % 2 ^ 32).toNat
  f.data.take (if limit < f.data.length then limit else f.data.length)

def astUdptlWrite (s : Session) (f : AstFrame) : Option Built × Session :=
  if s.peer = false then (none, s)
  else if f.data.length = 0 then (none, s)
  else if f.isT38 = false then (none, s)
  else
    let b := buildPacket s.conf s.bufsize s.tx (s.ifp f)
    (some b, { s with tx := b.tx })

inductive Call
  | setErrorCorrectionScheme (ec : EcScheme)
  | setFarMaxDatagram (maxDatagram : ℕ)
  | getFarMaxIfp
  | setPeer
  | stop
  | write (f : AstFrame)

def Session.call (wild : ℕ → ℤ) (s : Session) : Call → Session
  | .setErrorCorrectionScheme ec => Udptl.setErrorCorrectionScheme ec s
  | .setFarMaxDatagram maxDatagram => Udptl.setFarMaxDatagram maxDatagram s
  | .getFarMaxIfp => Udptl.getFarMaxIfp wild s
  | .setPeer => { s with peer := true }
  | .stop => { s with peer := false }
  | .write f => (astUdptlWrite s f).2

structure Built.InBounds (b : Built) (buflen : ℕ) : Prop where
  out : b.out.length ≤ buflen
  stored : b.stored ≤ localFaxMaxDatagram
  res : b.res = -1 ∨ b.res ≤ buflen

def Call.InBounds (s : Session) : Call → Prop
  | .write f => ∀ b, (astUdptlWrite s f).1 = some b → b.InBounds s.bufsize
  | _ => True

/-! ## Room for what is written without a comparison -/

def lengthOctets (n : ℕ) : ℕ := (encodeLength n).1.length

/-- The lengths of the elements have room behind `len` octets, as far as the elements before them
fit. -/
def RoomFor (buflen : ℕ) : ℕ → List (Option Bytes) → Prop
  | _, [] => True
  | len, none :: _ => len + 1 ≤ buflen
  | len, some data :: elements =>
    len + lengthOctets (wire data).length ≤ buflen ∧
      (len + (openType (wire data)).length ≤ buflen → RoomFor buflen (len + (openType (wire data)).length) elements)

structure Roomy (buflen : ℕ) (ifp : Bytes) (recovery : Bytes × List (Option Bytes)) : Prop where
  slot : ifp.length ≤ localFaxMaxDatagram
  primary : 2 + lengthOctets (wire ifp).length ≤ buflen
  recovery : 2 + (openType (wire ifp)).length ≤ buflen →
    2 + (openType (wire ifp)).length + recovery.1.length ≤ buflen ∧
      RoomFor buflen (2 + (openType (wire ifp)).length + recovery.1.length) recovery.2

/-- The error recovery data of the packet of an IFP, which is in the ring by then.
Source: `udptl_build_packet` -/
def TxState.recovery (c : EcConf) (s : TxState) (ifp : Bytes) : Bytes × List (Option Bytes) :=
  let seq := s.txSeqNo &&& 0xFFFF
  recoveryData c (update s.tx (seq % 16) (some ifp)) s.txSeqNo seq

def Call.Roomy (s : Session) : Call → Prop
  | .write f =>
    s.peer = true → f.data ≠ [] → f.isT38 = true → Udptl.Roomy s.bufsize (s.ifp f) (s.tx.recovery s.conf (s.ifp f))
  | _ => True

/-! ## What is written -/

lemma packOpenType_wire (buflen : ℕ) (out data : Bytes) :
    packOpenType buflen out data = packFragments ((wire data).length + 1) buflen out (wire data) := by
  unfold packOpenType wire
  simp

lemma encodeLength_announced {n : ℕ} (h : n < 0x4000) : (encodeLength n).2 = n := by
  unfold encodeLength
  split_ifs <;> rfl

variable {data ifp : Bytes} {buflen : ℕ} {s : Session}

lemma packOpenType_eq (buflen : ℕ) (out : Bytes) (h : (wire data).length < 0x4000) :
    packOpenType buflen out data =
      if buflen < out.length + (openType (wire data)).length then (out ++ (encodeLength (wire data).length).1, false)
      else (out ++ openType (wire data), true) := by
  rw [packOpenType_wire]
  simp only [packFragments, encodeLength_announced h, openType, length_append]
  have hsum : (wire data).length + (out.length + (encodeLength (wire data).length).1.length) =
      out.length + ((encodeLength (wire data).length).1.length + (wire data).length) := by omega
  rw [hsum, if_pos le_rfl, take_length, append_assoc]

lemma length_openType (data : Bytes) : (openType data).length = lengthOctets data.length + data.length := by
  rw [openType, length_append, lengthOctets]

def Short (d : Option Bytes) : Prop := (d.getD []).length ≤ localFaxMaxDatagram

lemma Short.wire (h : Short (some data)) : (wire data).length < 0x4000 := by
  have hle : (Udptl.wire data).length ≤ localFaxMaxDatagram := length_wire_le h (by decide)
  have hlim : localFaxMaxDatagram < 0x4000 := by decide
  omega

/-- Induction on the elements: a string that does not fit ends the packet behind its length. -/
lemma packAll_inside_iff {elements : List (Option Bytes)} (h : ∀ d ∈ elements, Short d) (out : Bytes) :
    (packAll buflen out elements).1.length ≤ buflen ↔ out.length ≤ buflen ∧ RoomFor buflen out.length elements := by
  induction elements generalizing out with
  | nil => exact (and_iff_left trivial).symm
  | cons element elements ih =>
    cases element with
    | none =>
      simp only [packAll, RoomFor, length_append, length_singleton]
      omega
    | some data =>
      have hsht : (wire data).length < 0x4000 := (h _ mem_cons_self).wire
      have ih := ih fun d hd => h d (mem_cons_of_mem _ hd)
      have hlen := length_openType (wire data)
      simp only [packAll, packOpenType_eq buflen out hsht, RoomFor]
      by_cases hbig : buflen < out.length + (openType (wire data)).length
      · rw [if_pos hbig, if_neg Bool.false_ne_true, length_append]
        change out.length + lengthOctets (wire data).length ≤ buflen ↔ _
        omega
      rw [if_neg hbig, if_pos rfl, ih, length_append]
      constructor
      · rintro ⟨-, hroom⟩
        exact ⟨by omega, by omega, fun _ => hroom⟩
      · rintro ⟨-, -, hroom⟩
        exact ⟨by omega, hroom (by omega)⟩

lemma Built.inBounds_iff {b : Built} :
    b.InBounds buflen ↔ b.stored ≤ localFaxMaxDatagram ∧ b.out.length ≤ buflen := by
  constructor
  · intro h
    exact ⟨h.stored, h.out⟩
  · rintro ⟨hstored, hout⟩
    refine ⟨hout, hstored, ?_⟩
    unfold Built.res
    split_ifs
    · exact .inr (by exact_mod_cast hout)
    · exact .inl rfl

lemma roomy_iff {recovery : Bytes × List (Option Bytes)} :
    Roomy buflen ifp recovery ↔ ifp.length ≤ localFaxMaxDatagram ∧ 2 + lengthOctets (wire ifp).length ≤ buflen ∧
      (2 + (openType (wire ifp)).length ≤ buflen →
        2 + (openType (wire ifp)).length + recovery.1.length ≤ buflen ∧
          RoomFor buflen (2 + (openType (wire ifp)).length + recovery.1.length) recovery.2) :=
  ⟨fun h => ⟨h.slot, h.primary, h.recovery⟩, fun h => ⟨h.1, h.2.1, h.2.2⟩⟩

lemma short_update {tx : ℕ → Option Bytes} (htx : ∀ i < 16, Short (tx i))
    (hifp : ifp.length ≤ localFaxMaxDatagram) (k : ℕ) : ∀ i < 16, Short (update tx k (some ifp) i) := by
  intro i hi
  rw [update_apply]
  split_ifs
  · exact hifp
  · exact htx i hi

lemma buildPacket_inBounds_iff (c : EcConf) (buflen : ℕ) {s : TxState} (ifp : Bytes)
    (htx : ∀ i < 16, Short (s.tx i)) :
    (buildPacket c buflen s ifp).InBounds buflen ↔ Roomy buflen ifp (s.recovery c ifp) := by
  rw [Built.inBounds_iff, roomy_iff]
  have hstored : (buildPacket c buflen s ifp).stored = ifp.length := by
    unfold buildPacket
    dsimp only
    split_ifs <;> rfl
  rw [hstored]
  refine and_congr_right fun hslot => ?_
  have hsht : Short (some ifp) := hslot
  have hels : ∀ d ∈ (s.recovery c ifp).2, Short d := fun d hd =>
    length_recoveryData_le (short_update htx hslot _) hd
  have hlen := length_openType (wire ifp)
  have hseq : (seqOctets (s.txSeqNo &&& 0xFFFF)).length = 2 := rfl
  simp only [buildPacket, packOpenType_eq _ _ hsht.wire, hseq]
  by_cases hbig : buflen < 2 + (openType (wire ifp)).length
  · rw [if_pos hbig, if_neg Bool.false_ne_true, length_append]
    exact ⟨fun h => ⟨h, fun hfits => absurd hfits (by omega)⟩, And.left⟩
  rw [if_neg hbig]
  change (packAll buflen (_ ++ _ ++ (s.recovery c ifp).1) (s.recovery c ifp).2).1.length ≤ buflen ↔ _
  rw [packAll_inside_iff hels, length_append, length_append]
  exact ⟨fun h => ⟨by omega, fun _ => h⟩, fun h => h.2 (by omega)⟩

/-! ## Runs -/

def Session.Stored (s : Session) : Prop := ∀ i < 16, Short (s.tx.tx i)

lemma astUdptlWrite_cases (s : Session) (f : AstFrame) :
    (s.peer = true ∧ f.data ≠ [] ∧ f.isT38 = true ∧
      astUdptlWrite s f = (some (buildPacket s.conf s.bufsize s.tx (s.ifp f)),
        { s with tx := (buildPacket s.conf s.bufsize s.tx (s.ifp f)).tx })) ∨
    (¬ (s.peer = true ∧ f.data ≠ [] ∧ f.isT38 = true) ∧ astUdptlWrite s f = (none, s)) := by
  unfold astUdptlWrite
  simp only [length_eq_zero_iff]
  split_ifs with hpeer hdata ht38
  · exact .inr ⟨by simp [hpeer], rfl⟩
  · exact .inr ⟨by simp [hdata], rfl⟩
  · exact .inr ⟨by simp [ht38], rfl⟩
  · exact .inl ⟨by simpa using hpeer, hdata, by simpa using ht38, rfl⟩

lemma Call.inBounds_iff (h : s.Stored) (c : Call) : c.InBounds s ↔ c.Roomy s := by
  cases c with
  | write f =>
    simp only [Call.InBounds]
    rcases astUdptlWrite_cases s f with ⟨hpeer, hdata, ht38, hwr⟩ | ⟨hidle, hwr⟩
    · rw [hwr]
      constructor
      · intro hin _ _ _
        exact (buildPacket_inBounds_iff _ _ _ h).mp (hin _ rfl)
      · intro hroomy b hb
        obtain rfl := Option.some.inj hb
        exact (buildPacket_inBounds_iff _ _ _ h).mpr (hroomy hpeer hdata ht38)
    · rw [hwr]
      constructor
      · intro _ hpeer hdata ht38
        exact absurd ⟨hpeer, hdata, ht38⟩ hidle
      · intro _ b hb
        exact absurd hb.symm (some_ne_none b)
  | setErrorCorrectionScheme ec => exact Iff.rfl
  | setFarMaxDatagram maxDatagram => exact Iff.rfl
  | getFarMaxIfp => exact Iff.rfl
  | setPeer => exact Iff.rfl
  | stop => exact Iff.rfl

lemma buildPacket_tx (c : EcConf) (buflen : ℕ) (s : TxState) (ifp : Bytes) :
    (buildPacket c buflen s ifp).tx.tx = update s.tx ((s.txSeqNo &&& 0xFFFF) % 16) (some ifp) := by
  unfold buildPacket
  dsimp only
  split_ifs <;> rfl

lemma calculateFarMaxIfp_tx (wild : ℕ → ℤ) (s : Session) : (calculateFarMaxIfp wild s).tx = s.tx := by
  unfold calculateFarMaxIfp
  split_ifs
  · rfl
  · split <;> rfl

lemma Session.Stored.call (h : s.Stored) (wild : ℕ → ℤ) {c : Call} (hroomy : c.Roomy s) : (s.call wild c).Stored := by
  cases c with
  | write f =>
    change Session.Stored (astUdptlWrite s f).2
    rcases astUdptlWrite_cases s f with ⟨hpeer, hdata, ht38, hwr⟩ | ⟨-, hwr⟩
    · rw [hwr]
      intro i hi
      rw [buildPacket_tx]
      exact short_update h (hroomy hpeer hdata ht38).slot _ i hi
    · rwa [hwr]
  | getFarMaxIfp =>
    change Session.Stored (Udptl.getFarMaxIfp wild s)
    unfold Udptl.getFarMaxIfp
    split_ifs
    · intro i hi
      rw [calculateFarMaxIfp_tx]
      exact h i hi
    · exact h
  | setErrorCorrectionScheme ec => exact h
  | setFarMaxDatagram maxDatagram => exact h
  | setPeer => exact h
  | stop => exact h

/-- **Writing within the buffers**: over any calls on a new session, every packet is written inside
its buffer and the ring exactly when each write has room for what it writes without a comparison. -/
theorem writeRun_inBounds_iff (wild : ℕ → ℤ) (fecentries fecspan : ℕ) (calls : List Call) :
    Each (total (Session.call wild)) Call.InBounds (Session.new fecentries fecspan) calls ↔
      Each (total (Session.call wild)) Call.Roomy (Session.new fecentries fecspan) calls := by
  have hnew : (Session.new fecentries fecspan).Stored := fun i _ => Nat.zero_le _
  refine each_iff_of_inv (I := Session.Stored) ?_ ?_ hnew
  · intro s c hs
    exact c.inBounds_iff hs
  · rintro s c hs hin _ ⟨⟩
    exact hs.call wild ((c.inBounds_iff hs).mp hin)

def AstFrame.single (b : UInt8) : AstFrame := ⟨true, [b], by simp⟩

/-- With a far end that accepts datagrams of five octets, the limit is calculated as zero octets;
the packet of an empty IFP has six. -/
theorem writeRun_not_inBounds :
    ¬ Each (total (Session.call fun _ => 0)) Call.InBounds (Session.new 3 3)
      [.setFarMaxDatagram 5, .getFarMaxIfp, .setPeer, .write (AstFrame.single 7)] := by
  intro h
  have hwrite := (((h.2 _ rfl).2 _ rfl).2 _ rfl).1
  have hout := (hwrite _ rfl).out
  revert hout
  decide

end Telephony.Udptl
