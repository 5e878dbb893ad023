import Telephony.Udptl.Receive

/-!
# The receive buffers and hostile datagrams

The length of a FEC entry is stored in the slot before it is compared with the size of the arrays,
and a datagram that fails the comparison is rejected with the length, and the number of entries, in
place. So the bound on the lengths is not an invariant of `udptl_rx_packet`.
-/

namespace Telephony.Udptl

open Lib List Function

/-! ## The bounds -/

/-- The property asked of every reachable state: lengths fit the arrays.
Source: `udptl_fec_rx_buffer_t` (`buf[LOCAL_FAX_MAX_DATAGRAM]`, `fec[MAX_FEC_ENTRIES][...]`) -/
def InBounds (rx : ℕ → RxSlot) : Prop :=
  ∀ x < 16, (rx x).bufLen ≤ localFaxMaxDatagram ∧ ∀ m < (rx x).fecEntries, (rx x).fecLen m ≤ localFaxMaxDatagram

/-- The repair loop indexes `fec[m][j]` and `buf[j]` for every entry `m` of a slot and every `j`
below its length; both stay inside the arrays. -/
def RepairInBounds (rx : ℕ → RxSlot) : Prop :=
  ∀ l < 16, ∀ m < (rx l).fecEntries, m < maxFecEntries ∧ ∀ j < (rx l).fecLen m, j < localFaxMaxDatagram

/-- The ring the repair loop starts on, when the datagram gets that far.
Source: `udptl_rx_packet` ("See if we can") -/
def repairRing (s : RxState) (buf : Bytes) : Option (ℕ → RxSlot) :=
  match rxHeader s buf with
  | (none, _) => none
  | (some h, s) =>
    if h.fec = false ∨ localFaxMaxDatagram < h.ifp.length then none
    else
      match storeFec (markMissed (h.seqNo - s.rxSeqNo) s) (h.seqNo % 16) h.ifp h.rest with
      | (none, _) => none
      | (some _, s) => some s.rx

def rxRun (s : RxState) (ds : List Bytes) : RxState :=
  ds.foldl (fun s d => (rxPacket s d).2) s

/-! ## Datagrams with an overlong FEC entry -/

/-- One of the next `count` open types is overlong, and those before it are whole.
Source: `udptl_rx_packet` ("Decode the elements") -/
def overlongElement : ℕ → Bytes → Bool
  | 0, _ => false
  | count + 1, rest =>
    match decodeOpenType rest with
    | none => false
    | some (data, rest) => decide (localFaxMaxDatagram < data.length) || overlongElement count rest

/-- The octets behind the error recovery mode announce one octet of span and at most
`MAX_FEC_ENTRIES` entries, and an entry that gets read is overlong. -/
def overlongFec : Bytes → Bool
  | spanLength :: _ :: entries :: rest =>
    decide (spanLength = 1) && decide (entries.toNat ≤ maxFecEntries) && overlongElement entries.toNat rest
  | _ => false

def carriesOverlongFec : Bytes → Bool
  | _ :: _ :: rest =>
    match decodeOpenType rest with
    | some (ifp, recovery :: rest) =>
      decide (recovery.toNat &&& 0x80 ≠ 0) && decide (ifp.length ≤ localFaxMaxDatagram) && overlongFec rest
    | _ => false
  | _ => false

lemma rxHeader_cases (s : RxState) (d : Bytes) :
    (∃ s', rxHeader s d = (none, s') ∧ s'.rx = s.rx ∧ carriesOverlongFec d = false) ∨
      ∃ h s', rxHeader s d = (some h, s') ∧ s'.rx = s.rx ∧
        carriesOverlongFec d = (h.fec && decide (h.ifp.length ≤ localFaxMaxDatagram) && overlongFec h.rest) := by
  rcases d with _ | ⟨hi, _ | ⟨lo, rest⟩⟩
  · exact .inl ⟨s, rfl, rfl, rfl⟩
  · exact .inl ⟨s, rfl, rfl, rfl⟩
  set seq := unwrapSeqNo s.rxSeqNo ((hi.toNat <<< 8) ||| lo.toNat) with hseq
  rcases hdec : decodeOpenType rest with _ | ⟨ifp, _ | ⟨recovery, rest'⟩⟩
  · exact .inl ⟨{ s with rxSeqNo := seq.2 }, by simp [rxHeader, hdec, hseq], rfl,
      by simp [carriesOverlongFec, hdec]⟩
  · exact .inl ⟨{ s with rxSeqNo := seq.2 }, by simp [rxHeader, hdec, hseq], rfl,
      by simp [carriesOverlongFec, hdec]⟩
  · exact .inr ⟨⟨seq.1, ifp, decide (recovery.toNat &&& 0x80 ≠ 0), rest'⟩,
      { s with rxSeqNo := seq.2 }, by simp [rxHeader, hdec, hseq], rfl,
      by simp [carriesOverlongFec, hdec]⟩

/-! ## The invariant of harmless datagrams -/

def Bounded (rx : ℕ → RxSlot) : Prop :=
  ∀ x, (rx x).bufLen ≤ localFaxMaxDatagram ∧ (∀ m, (rx x).fecLen m ≤ localFaxMaxDatagram) ∧
    (rx x).fecEntries ≤ maxFecEntries

variable {rx : ℕ → RxSlot} {s : RxState} {x count i : ℕ} {rest d ifp fec : Bytes} {st : RepairState}

lemma Bounded.inBounds (h : Bounded rx) : InBounds rx :=
  fun x _ => ⟨(h x).1, fun m _ => (h x).2.1 m⟩

lemma Bounded.repairInBounds (h : Bounded rx) : RepairInBounds rx :=
  fun l _ m hm => ⟨lt_of_lt_of_le hm (h l).2.2, fun _ hj => lt_of_lt_of_le hj ((h l).2.1 m)⟩

lemma Bounded.modify (h : Bounded s.rx) (x : ℕ) {f : RxSlot → RxSlot}
    (hf : (f (s.rx x)).bufLen ≤ localFaxMaxDatagram ∧ (∀ m, (f (s.rx x)).fecLen m ≤ localFaxMaxDatagram) ∧ (f (s.rx x)).fecEntries ≤ maxFecEntries) :
    Bounded (s.modify x f).rx := by
  intro y
  by_cases hy : y = x
  · subst hy
    simpa using hf
  · rw [RxState.modify_rx_of_ne s hy]
    exact h y

lemma bounded_new : Bounded RxState.new.rx := by
  intro x
  simp [RxState.new]

/-- Marking missed slots keeps the bounds. Induction on the number of missed packets. -/
lemma Bounded.markMissed (h : Bounded s.rx) (count : ℕ) : Bounded (markMissed count s).rx := by
  induction count generalizing s with
  | zero => exact h
  | succ count ih =>
    refine ih (h.modify (s.rxSeqNo % 16) ?_)
    refine ⟨by simp [RxSlot.missed], fun m => ?_, Nat.zero_le _⟩
    by_cases hm : m = 0
    · subst hm
      simp [RxSlot.missed]
    · simpa [RxSlot.missed, update_of_ne hm] using (h (s.rxSeqNo % 16)).2.1 m

lemma Bounded.decodeFecElements (h : Bounded s.rx) (hov : overlongElement count rest = false) :
    Bounded (decodeFecElements x count i s rest).2.rx := by
  induction count generalizing s i rest with
  | zero => exact h
  | succ count ih =>
    simp only [Udptl.decodeFecElements]
    rcases hd : decodeOpenType rest with _ | ⟨data, rest'⟩
    · exact h
    simp only [overlongElement, hd, Bool.or_eq_false_iff, decide_eq_false_iff_not] at hov
    have hb : Bounded (s.modify x fun slot =>
        { slot with fecLen := update slot.fecLen i data.length }).rx := by
      refine h.modify x ⟨(h x).1, fun m => ?_, (h x).2.2⟩
      by_cases hm : m = i
      · subst hm
        simp only [update_self]
        omega
      · simpa [update_of_ne hm] using (h x).2.1 m
    simp only [if_neg hov.1]
    refine ih (hb.modify x ?_) hov.2
    exact hb x

lemma Bounded.repairEntry (h : Bounded st.rx) (seqNo l m : ℕ) : Bounded (repairEntry seqNo l st m).rx := by
  simp only [Udptl.repairEntry]
  split_ifs with hseq
  · exact h
  split
  · rename_i which hw
    intro y
    by_cases hy : y = which
    · subst hy
      simp only [update_self]
      refine ⟨?_, (h y).2.1, (h y).2.2⟩
      exact_mod_cast (h l).2.1 m
    · simp only [update_of_ne hy]
      exact h y
  · exact h

lemma Bounded.repairSlot (h : Bounded st.rx) (seqNo l : ℕ) : Bounded (repairSlot seqNo st l).rx := by
  simp only [Udptl.repairSlot]
  split_ifs with hlen
  · exact h
  · exact List.foldlRecOn (motive := fun st : RepairState => Bounded st.rx) _ _ h
      fun st hst m _ => hst.repairEntry seqNo l m

lemma Bounded.storeFec (h : Bounded s.rx) (hifp : ifp.length ≤ localFaxMaxDatagram) (hov : overlongFec rest = false) :
    Bounded (storeFec s x ifp rest).2.rx := by
  have h₁ : Bounded (s.modify x fun slot =>
      { slot with buf := memcpy slot.buf ifp, bufLen := ifp.length }).rx :=
    h.modify x ⟨by simpa using hifp, (h x).2⟩
  rcases rest with _ | ⟨spanLength, _ | ⟨span, rest⟩⟩
  · exact h₁
  · exact h₁
  by_cases hspan : spanLength = 1
  swap
  · simpa [Udptl.storeFec, hspan] using h₁
  have h₂ := h₁.modify x (f := fun slot => { slot with fecSpan := span.toNat }) (h₁ x)
  rcases rest with _ | ⟨entries, rest⟩
  · simpa [Udptl.storeFec, hspan] using h₂
  by_cases hent : maxFecEntries < entries.toNat
  · simpa [Udptl.storeFec, hspan, hent] using h₂
  simp only [overlongFec, hspan, not_lt.mp hent] at hov
  simp only [Udptl.storeFec, hspan, hent]
  refine Bounded.decodeFecElements (h₂.modify x ⟨(h₂ x).1, (h₂ x).2.1, ?_⟩) hov
  exact not_lt.mp hent

lemma Bounded.rxPacket (h : Bounded s.rx) (hov : carriesOverlongFec d = false) :
    Bounded (rxPacket s d).2.rx ∧ ∀ rx, repairRing s d = some rx → RepairInBounds rx := by
  unfold Udptl.rxPacket repairRing
  rcases rxHeader_cases s d with ⟨s', heq, hrx, -⟩ | ⟨hd, s', heq, hrx, hcarry⟩
  · rw [heq]
    simpa [hrx] using h
  rw [heq]
  rw [hcarry] at hov
  have h' : Bounded s'.rx := hrx ▸ h
  by_cases hfec : hd.fec = true
  · by_cases hifp : localFaxMaxDatagram < hd.ifp.length
    · simpa [hfec, rxFec, hifp] using h'
    · have hle : hd.ifp.length ≤ localFaxMaxDatagram := not_lt.mp hifp
      simp only [hfec, hle] at hov
      have hst : Bounded (Udptl.storeFec (Udptl.markMissed (hd.seqNo - s'.rxSeqNo) s')
          (hd.seqNo % 16) hd.ifp hd.rest).2.rx := (h'.markMissed _).storeFec hle hov
      simp only [hfec, rxFec, hifp, Bool.true_eq_false, or_self, if_false]
      generalize Udptl.storeFec (Udptl.markMissed (hd.seqNo - s'.rxSeqNo) s')
          (hd.seqNo % 16) hd.ifp hd.rest = r at hst ⊢
      obtain ⟨_ | ⟨span, entries⟩, t⟩ := r
      · exact ⟨hst, by simp⟩
      refine ⟨?_, ?_⟩
      · exact List.foldlRecOn (motive := fun st : RepairState => Bounded st.rx) _ _ hst
          fun st hb l _ => hb.repairSlot hd.seqNo l
      · intro rx hrx
        simp only [Option.some.injEq] at hrx
        exact hrx ▸ Bounded.repairInBounds hst
  · have hff : hd.fec = false := by simpa using hfec
    refine ⟨?_, by simp [hff]⟩
    simp only [rxSecondary]
    split_ifs with hlate
    · split <;> exact h'
    · exact h'

/-! ## What an overlong entry leaves behind -/

lemma decodeFecElements_overlong (hov : overlongElement count rest = true) :
    ∃ s', decodeFecElements x count i s rest = (false, s') ∧
      (s'.rx x).fecEntries = (s.rx x).fecEntries ∧ ∃ m < i + count, localFaxMaxDatagram < (s'.rx x).fecLen m := by
  induction count generalizing s i rest with
  | zero => simp [overlongElement] at hov
  | succ count ih =>
    simp only [decodeFecElements]
    rcases hd : decodeOpenType rest with _ | ⟨data, rest'⟩
    · simp [overlongElement, hd] at hov
    simp only [overlongElement, hd, Bool.or_eq_true, decide_eq_true_eq] at hov
    by_cases hlong : localFaxMaxDatagram < data.length
    · simp only [if_pos hlong]
      exact ⟨_, rfl, by simp, i, by omega, by simpa using hlong⟩
    simp only [if_neg hlong]
    obtain ⟨s', heq, hent, m, hm, hlen⟩ := ih (s := (s.modify x fun slot =>
      { slot with fecLen := update slot.fecLen i data.length }).modify x fun slot =>
        { slot with fec := update slot.fec i (memcpy (slot.fec i) data) })
      (i := i + 1) (hov.resolve_left hlong)
    exact ⟨s', heq, by simpa using hent, m, by omega, hlen⟩

lemma storeFec_overlong (s : RxState) (x : ℕ) (ifp : Bytes) (hov : overlongFec rest = true) :
    ∃ s', storeFec s x ifp rest = (none, s') ∧
      ∃ m < (s'.rx x).fecEntries, localFaxMaxDatagram < (s'.rx x).fecLen m := by
  rcases rest with _ | ⟨spanLength, _ | ⟨span, _ | ⟨entries, rest⟩⟩⟩
  · simp [overlongFec] at hov
  · simp [overlongFec] at hov
  · simp [overlongFec] at hov
  simp only [overlongFec, Bool.and_eq_true, decide_eq_true_eq] at hov
  obtain ⟨⟨hspan, hent⟩, hov⟩ := hov
  simp only [storeFec, hspan, if_neg (not_lt.mpr hent)]
  obtain ⟨s', heq, hentr, m, hm, hlen⟩ := decodeFecElements_overlong hov (x := x) (i := 0)
    (s := ((s.modify x fun slot =>
      { slot with buf := memcpy slot.buf ifp, bufLen := ifp.length }).modify x fun slot =>
        { slot with fecSpan := span.toNat }).modify x fun slot =>
          { slot with fecEntries := entries.toNat })
  refine ⟨s', by rw [heq]; rfl, m, ?_, hlen⟩
  rw [hentr]
  simpa using hm

lemma not_inBounds_of_overlong (s : RxState) (hov : carriesOverlongFec d = true) :
    ¬ InBounds (rxPacket s d).2.rx := by
  rcases rxHeader_cases s d with ⟨s', heq, hrx, hno⟩ | ⟨hd, s', heq, hrx, hcarry⟩
  · rw [hno] at hov
    cases hov
  rw [hcarry] at hov
  simp only [Bool.and_eq_true, decide_eq_true_eq] at hov
  obtain ⟨⟨hfec, hifp⟩, hrest⟩ := hov
  obtain ⟨t, hsto, m, hm, hlen⟩ := storeFec_overlong
    (markMissed (hd.seqNo - s'.rxSeqNo) s') (hd.seqNo % 16) hd.ifp hrest
  have hout : (rxPacket s d).2 = t := by simp [rxPacket, heq, hfec, rxFec, if_neg (not_lt.mpr hifp), hsto]
  intro hin
  have hle := (hin (hd.seqNo % 16) (Nat.mod_lt _ (by omega))).2 m (by rwa [hout])
  rw [hout] at hle
  omega

/-! ## Runs -/

/-- **The receive buffers stay in bounds along a run exactly when no datagram of it carries an
overlong FEC entry**: in every state the lengths fit the arrays, also where the repair loop
starts. -/
theorem rxRun_inBounds_iff (ds : List Bytes) :
    (∀ k ≤ ds.length, InBounds (rxRun RxState.new (ds.take k)).rx ∧
        ∀ d ∈ ds[k]?, ∀ rx ∈ repairRing (rxRun RxState.new (ds.take k)) d, RepairInBounds rx) ↔
      ∀ d ∈ ds, carriesOverlongFec d = false := by
  constructor
  · intro h d hd
    obtain ⟨k, hk, rfl⟩ := mem_iff_getElem.mp hd
    by_contra hover
    refine not_inBounds_of_overlong (rxRun RxState.new (ds.take k)) (by simpa using hover) ?_
    have hstep := (h (k + 1) hk).1
    rwa [take_succ_eq_append_getElem hk, rxRun, foldl_append] at hstep
  · intro h k hk
    have hb : Bounded (rxRun RxState.new (ds.take k)).rx :=
      foldlRecOn (motive := fun s : RxState => Bounded s.rx) _ _ bounded_new fun _ hs d hd =>
        (hs.rxPacket (h d (mem_of_mem_take hd))).1
    refine ⟨hb.inBounds, fun d hd rx hrx => ?_⟩
    exact (hb.rxPacket (h d (mem_of_getElem? hd))).2 rx hrx

def fecDatagram (fec : Bytes) : Bytes :=
  0 :: 0 :: (openType [0] ++ 0x80 :: 1 :: 1 :: 1 :: openType fec)

lemma carriesOverlongFec_fecDatagram (hlong : localFaxMaxDatagram < fec.length)
    (hlt : fec.length < 0x4000) : carriesOverlongFec (fecDatagram fec) = true := by
  have hfec : decodeOpenType (openType fec) = some (fec, []) := by simpa using decodeOpenType_openType hlt []
  have hifp : ∀ rest, decodeOpenType (openType [0] ++ rest) = some ([0], rest) :=
    decodeOpenType_openType (by decide)
  have hone : (1 : UInt8).toNat = 1 := rfl
  simp only [carriesOverlongFec, fecDatagram, hifp, overlongFec, hone, overlongElement, hfec, hlong]
  decide

/-- **One datagram breaks the bounds.** It is rejected, and the slot of its number is left with one
FEC entry of 1401 octets. -/
theorem rxRun_not_inBounds : ¬ InBounds (rxRun RxState.new [fecDatagram (replicate 1401 0)]).rx := by
  have hlen : (replicate 1401 (0 : UInt8)).length = 1401 := length_replicate
  generalize replicate 1401 (0 : UInt8) = fec at hlen ⊢
  refine not_inBounds_of_overlong RxState.new (carriesOverlongFec_fecDatagram ?_ ?_)
  · rw [hlen]
    decide
  · rw [hlen]
    decide

end Telephony.Udptl
