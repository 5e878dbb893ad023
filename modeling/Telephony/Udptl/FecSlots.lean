import Telephony.Lib.Parity
import Telephony.Udptl.Sequence

/-!
# The receive ring in FEC mode

What the slots of the ring hold when the packets of one sender arrive in order, with losses. Slot
`q % 16` belongs to packet `q`, for the latest sixteen numbers.
-/

namespace Telephony.Udptl

open Lib List Function

/-! ## Octets and parities -/

def octet (d : Bytes) (j : ℕ) : UInt8 := (d[j]?).getD 0

variable {d : Bytes} {j q i : ℕ} {c : EcConf} {sent : ℕ → Bytes} {slot : RxSlot}

lemma octet_eq_zero (h : d.length ≤ j) : octet d j = 0 := by
  simp [octet, getElem?_eq_none h]

lemma octet_eq_getElem (h : j < d.length) : octet d j = d[j] := by
  simp [octet, h]

lemma octet_wire (d : Bytes) (j : ℕ) : octet (wire d) j = octet d j := by
  unfold wire
  split_ifs with h
  · subst h
    cases j <;> rfl
  · rfl

lemma octet_fecMix (acc data : Bytes) (j : ℕ) : octet (fecMix acc data) j = octet acc j ^^^ octet data j := by
  have hlen : (zipWith (· ^^^ ·) acc data).length = min acc.length data.length :=
    length_zipWith
  by_cases hj : j < min acc.length data.length
  · have hl : ∀ tail, octet (zipWith (· ^^^ ·) acc data ++ tail) j =
        octet acc j ^^^ octet data j := by
      simp [octet, getElem?_append_left (hlen ▸ hj), getElem?_zipWith,
        getElem?_eq_getElem (show j < acc.length by omega), getElem?_eq_getElem (show j < data.length by omega)]
    unfold fecMix
    split_ifs <;> exact hl _
  have hge : (zipWith (· ^^^ ·) acc data).length ≤ j := by omega
  unfold fecMix
  split_ifs with h
  · have hacc : octet acc j = 0 := octet_eq_zero (by omega)
    rw [hacc, UInt8.zero_xor]
    simp only [octet, getElem?_append_right hge, getElem?_drop]
    congr 2
    omega
  have hdata : octet data j = 0 := octet_eq_zero (by omega)
  rw [hdata, UInt8.xor_zero]
  simp only [octet, getElem?_append_right hge, getElem?_drop]
  congr 2
  omega

lemma octet_fecEntry (tx : ℕ → Option Bytes) (walk : List ℕ) (j : ℕ) :
    octet (fecEntry tx walk) j = parity (· ^^^ ·) 0 (fun i => octet ((tx i).getD []) j) walk := by
  refine (foldl_hom (fun acc => octet acc j) fun acc i => ?_).symm
  exact (octet_fecMix acc _ j).symm

lemma length_le_length_fecEntry {tx : ℕ → Option Bytes} {walk : List ℕ} (hi : i ∈ walk) :
    ((tx i).getD []).length ≤ (fecEntry tx walk).length := by
  have hmono : ∀ (walk : List ℕ) (acc : Bytes), acc.length ≤
      (walk.foldl (fun acc i => fecMix acc ((tx i).getD [])) acc).length := by
    intro walk
    induction walk with
    | nil => exact fun acc => le_rfl
    | cons i walk ih =>
      refine fun acc => le_trans ?_ (ih _)
      rw [length_fecMix]
      exact le_max_left _ _
  obtain ⟨pre, post, rfl⟩ := append_of_mem hi
  simp only [fecEntry, foldl_append]
  refine le_trans ?_ (hmono post _)
  rw [length_fecMix]
  exact le_max_right _ _

/-! ## Packets with FEC entries -/

def fecShape (c : EcConf) (n : ℕ) : ℕ × ℕ := fecParams c (n % 65536)

def walkOf (c : EcConf) (n m : ℕ) : List ℕ :=
  fecWalk (n % 16) m (fecShape c n).1 (fecShape c n).2

def fecOf (c : EcConf) (sent : ℕ → Bytes) (n m : ℕ) : Bytes :=
  wire (fecEntry (ringOf sent n) (walkOf c n m))

/-- Source: `load_module` (`udptlfecentries`, `udptlfecspan`) -/
structure FecConf (c : EcConf) : Prop where
  scheme : c.scheme = .fec
  entries_pos : 0 < c.entries
  entries_le : c.entries ≤ maxFecEntries
  span_pos : 0 < c.span
  span_le : c.span ≤ 5

lemma FecConf.fecShape_le (h : FecConf c) (n : ℕ) :
    (fecShape c n).1 ≤ 5 ∧ (fecShape c n).2 ≤ maxFecEntries ∧ (fecShape c n).1 * (fecShape c n).2 ≤ n := by
  have hspan := h.span_le
  have hent := h.entries_le
  unfold fecShape fecParams
  split_ifs with hlow hzero
  · have hdiv : n % 65536 / c.span = 0 := Nat.div_eq_of_lt hzero
    simp [hdiv]
  · have hdiv : n % 65536 / c.span < c.entries := Nat.div_lt_of_lt_mul hlow
    have hmul : c.span * (n % 65536 / c.span) ≤ n % 65536 := Nat.mul_div_le _ _
    exact ⟨hspan, by omega, by simp only; omega⟩
  · exact ⟨hspan, hent, by simp only; omega⟩

lemma datagramOf_fec (hc : c.scheme = .fec) (sent : ℕ → Bytes) (n : ℕ) :
    datagramOf c sent n = seqOctets (n % 65536) ++ openType (sent n) ++
      0x80 :: 1 :: UInt8.ofNat (fecShape c n).1 :: UInt8.ofNat (fecShape c n).2 ::
        ((range (fecShape c n).2).map (fecOf c sent n)).flatMap openType := by
  simp [datagramOf, recoveryData, hc, fecShape, fecOf, walkOf, flatMap_map]

def HasFec (slot : RxSlot) (i : ℕ) (ds : List Bytes) : Prop :=
  ∀ m (h : m < ds.length), slot.fecLen (i + m) = ds[m].length ∧ ∀ j < ds[m].length, slot.fec (i + m) j = octet ds[m] j

lemma RxState.modify_modify (s : RxState) (x : ℕ) (f g : RxSlot → RxSlot) :
    (s.modify x f).modify x g = s.modify x (g ∘ f) := by
  simp [RxState.modify]

/-- Reading FEC entries as they are sent. Induction on the entries; the entries already in the slot
stay. -/
lemma decodeFecElements_flatMap {ds : List Bytes}
    (hds : ∀ d ∈ ds, d.length ≤ localFaxMaxDatagram) (x i : ℕ) (s : RxState) :
    ∃ slot : RxSlot, decodeFecElements x ds.length i s (ds.flatMap openType) =
        (true, s.modify x fun _ => slot) ∧
      slot.bufLen = (s.rx x).bufLen ∧ slot.buf = (s.rx x).buf ∧
      slot.fecSpan = (s.rx x).fecSpan ∧ slot.fecEntries = (s.rx x).fecEntries ∧
      (∀ m < i, slot.fecLen m = (s.rx x).fecLen m ∧ slot.fec m = (s.rx x).fec m) ∧
      HasFec slot i ds := by
  induction ds generalizing i s with
  | nil =>
    refine ⟨s.rx x, ?_, rfl, rfl, rfl, rfl, fun m _ => ⟨rfl, rfl⟩, fun m h => absurd h (by simp)⟩
    simp [decodeFecElements, RxState.modify]
  | cons d ds ih =>
    have hd := hds d (by simp)
    have hdec := decodeOpenType_openType (lt_of_le_of_lt hd (by decide)) (ds.flatMap openType)
    simp only [length_cons, decodeFecElements, flatMap_cons, hdec, if_neg (not_lt.mpr hd), RxState.modify_modify]
    obtain ⟨slot, heq, hlen, hbuf, hspan, hent, hold, hnew⟩ :=
      ih (fun e he => hds e (by simp [he])) (i + 1) (s.modify x
        ((fun slot => { slot with fec := update slot.fec i (memcpy (slot.fec i) d) }) ∘
          fun slot => { slot with fecLen := update slot.fecLen i d.length }))
    simp only [RxState.modify_rx_self, comp_apply] at hlen hbuf hspan hent hold
    refine ⟨slot, ?_, hlen, hbuf, hspan, hent, fun m hm => ?_, fun m hm => ?_⟩
    · rw [heq, RxState.modify_modify]
      rfl
    · obtain ⟨h1, h2⟩ := hold m (by omega)
      rw [h1, h2, update_of_ne (by omega), update_of_ne (by omega)]
      exact ⟨rfl, rfl⟩
    · cases m with
      | zero =>
        obtain ⟨h1, h2⟩ := hold i (by omega)
        simp only [Nat.add_zero, getElem_cons_zero, h1, h2, update_self, true_and]
        intro j hj
        simp [memcpy, octet, hj]
      | succ m =>
        have := hnew m (by simpa using hm)
        simpa [show i + 1 + m = i + (m + 1) by omega] using this

/-! ## What the slots hold -/

structure HoldsFec (c : EcConf) (sent : ℕ → Bytes) (q : ℕ) (slot : RxSlot) : Prop where
  fecSpan_eq : slot.fecSpan = (fecShape c q).1
  fecEntries_eq : slot.fecEntries = (fecShape c q).2
  hasFec : HasFec slot 0 ((range (fecShape c q).2).map (fecOf c sent q))

structure SlotOk (c : EcConf) (sent : ℕ → Bytes) (arrived : List ℕ) (q : ℕ) (slot : RxSlot) :
    Prop where
  length_le : 0 < slot.bufLen → ((sent q).length : ℤ) ≤ slot.bufLen
  buf_eq : 0 < slot.bufLen → ∀ j : ℕ, (j : ℤ) < slot.bufLen → slot.buf j = octet (sent q) j
  fec : slot.fecEntries = 0 ∨ q ∈ arrived ∧ HoldsFec c sent q slot
  filled : q ∈ arrived → 0 < slot.bufLen

structure RingOk (c : EcConf) (sent : ℕ → Bytes) (arrived : List ℕ) (expected : ℕ)
    (rx : ℕ → RxSlot) : Prop where
  slotOk : ∀ q < expected, expected ≤ q + 16 → SlotOk c sent arrived q (rx (q % 16))
  fresh : ∀ x < 16, expected ≤ x → (rx x).bufLen ≤ 0 ∧ (rx x).fecEntries = 0
  arrived_lt : ∀ q ∈ arrived, q < expected

lemma HoldsFec.setBuf (h : HoldsFec c sent q slot) (buf : ℕ → UInt8) (bufLen : ℤ) :
    HoldsFec c sent q { slot with buf := buf, bufLen := bufLen } :=
  { h with }

section Ring

variable {c : EcConf} {sent : ℕ → Bytes} {arrived : List ℕ} {expected : ℕ} {rx : ℕ → RxSlot}

lemma ringOk_new : RingOk c sent [] 0 RxState.new.rx :=
  ⟨fun q hq => absurd hq (Nat.not_lt_zero q), fun _ _ _ => by simp [RxState.new], by simp⟩

lemma SlotOk.mono (h : SlotOk c sent arrived q slot) {n : ℕ} (hne : q ≠ n) : SlotOk c sent (n :: arrived) q slot :=
  { h with
    fec := h.fec.imp id fun hf => ⟨mem_cons_of_mem _ hf.1, hf.2⟩
    filled := fun hq => h.filled (mem_of_ne_of_mem hne hq) }

section

variable (h : RingOk c sent arrived expected rx)
include h

/-- The slot of the expected packet, which has arrived or was missed. -/
lemma RingOk.push {arrived' : List ℕ} (hslot : SlotOk c sent arrived' expected slot)
    (harr : arrived' = arrived ∨ arrived' = expected :: arrived) :
    RingOk c sent arrived' (expected + 1) (update rx (expected % 16) slot) := by
  refine ⟨fun q hq hq' => ?_, fun x hx hex => ?_, fun q hq => ?_⟩
  · by_cases heq : q = expected
    · rwa [heq, update_self]
    · rw [update_of_ne (by omega)]
      have hold := h.slotOk q (by omega) (by omega)
      rcases harr with rfl | rfl
      · exact hold
      · exact hold.mono heq
  · rw [update_of_ne (by omega)]
    exact h.fresh x hx (by omega)
  · rcases harr with rfl | rfl
    · exact (h.arrived_lt q hq).trans (Nat.lt_succ_self _)
    · rcases mem_cons.mp hq with rfl | hq
      · exact Nat.lt_succ_self _
      · exact (h.arrived_lt q hq).trans (Nat.lt_succ_self _)

lemma RingOk.replace (hlt : q < expected) (hle : expected ≤ q + 16) (hslot : SlotOk c sent arrived q slot) :
    RingOk c sent arrived expected (update rx (q % 16) slot) := by
  refine ⟨fun q' hq hq' => ?_, fun x hx hex => ?_, h.arrived_lt⟩
  · by_cases heq : q' = q
    · rwa [heq, update_self]
    · rw [update_of_ne (by omega)]
      exact h.slotOk q' hq hq'
  · rw [update_of_ne (by omega)]
    exact h.fresh x hx hex

end

lemma RingOk.markMissed {s : RxState} (h : RingOk c sent arrived expected s.rx)
    (hmod : s.rxSeqNo % 16 = expected % 16) (count : ℕ) :
    RingOk c sent arrived (expected + count) (markMissed count s).rx ∧
      (Udptl.markMissed count s).rxSeqNo = s.rxSeqNo + count := by
  induction count generalizing s expected with
  | zero => exact ⟨h, rfl⟩
  | succ count ih =>
    have hemp : ¬ 0 < (s.rx (expected % 16)).missed.bufLen := by simp [RxSlot.missed]
    have hslot : SlotOk c sent arrived expected (s.rx (expected % 16)).missed :=
      ⟨fun hpos => absurd hpos hemp, fun hpos => absurd hpos hemp, .inl rfl,
        fun harr => absurd (h.arrived_lt _ harr) (Nat.lt_irrefl _)⟩
    have hpush := h.push hslot (.inl rfl)
    have hstep : ({ s.modify (s.rxSeqNo % 16) RxSlot.missed with
        rxSeqNo := s.rxSeqNo + 1 } : RxState).rx = update s.rx (expected % 16) (s.rx (expected % 16)).missed := by
      rw [hmod]
      rfl
    obtain ⟨hring, hseq⟩ := ih (s := { s.modify (s.rxSeqNo % 16) RxSlot.missed with
      rxSeqNo := s.rxSeqNo + 1 }) (hstep ▸ hpush) (by simp only; omega)
    refine ⟨?_, ?_⟩
    · rwa [show expected + (count + 1) = expected + 1 + count by omega]
    · rw [Udptl.markMissed, hseq]
      simp only
      omega

end Ring

lemma storeFec_packet (hc : FecConf c) (hlen : ∀ q, (sent q).length ≤ localFaxMaxDatagram) (arrived : List ℕ)
    (s : RxState) {n : ℕ} (hne : sent n ≠ []) :
    ∃ slot, storeFec s (n % 16) (sent n) (1 :: UInt8.ofNat (fecShape c n).1 ::
        UInt8.ofNat (fecShape c n).2 ::
          ((range (fecShape c n).2).map (fecOf c sent n)).flatMap openType) =
        (some (fecShape c n), s.modify (n % 16) fun _ => slot) ∧
      SlotOk c sent (n :: arrived) n slot ∧ 0 < slot.bufLen := by
  obtain ⟨hspan, hent, -⟩ := hc.fecShape_le n
  have hbyte : ∀ {m : ℕ}, m ≤ 5 → (UInt8.ofNat m).toNat = m := fun hm => by exact Nat.mod_eq_of_lt (by omega)
  have hds : ∀ d ∈ (range (fecShape c n).2).map (fecOf c sent n), d.length ≤ localFaxMaxDatagram := by
    intro d hd
    obtain ⟨m, -, rfl⟩ := mem_map.mp hd
    refine length_wire_le (length_fecEntry_le fun i _ => ?_) (by decide)
    simp only [ringOf]
    split_ifs
    · exact hlen _
    · simp
  obtain ⟨slot, heq, hbl, hbuf, hsp, hen, -, hfec⟩ := decodeFecElements_flatMap hds (n % 16) 0
    (((s.modify (n % 16) fun slot =>
      { slot with buf := memcpy slot.buf (sent n), bufLen := (sent n).length }).modify (n % 16)
        fun slot => { slot with fecSpan := (fecShape c n).1 }).modify (n % 16)
          fun slot => { slot with fecEntries := (fecShape c n).2 })
  simp only [RxState.modify_rx_self] at hbl hbuf hsp hen
  have hpos : 0 < slot.bufLen := by
    rw [hbl]
    exact_mod_cast length_pos_iff.mpr hne
  refine ⟨slot, ?_, ⟨fun _ => hbl.ge, fun _ j hj => ?_, .inr ⟨by simp, hsp, hen, hfec⟩, fun _ => hpos⟩, hpos⟩
  · rw [length_map, length_range] at heq
    simp only [storeFec, hbyte hent, hbyte hspan, if_neg (not_lt.mpr hent), heq]
    simp only [RxState.modify_modify]
    rfl
  · rw [hbl] at hj
    have hj' : j < (sent n).length := by exact_mod_cast hj
    simp [hbuf, memcpy, octet, hj']

end Telephony.Udptl
