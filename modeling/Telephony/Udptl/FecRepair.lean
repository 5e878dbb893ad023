import Mathlib
import Telephony.Udptl.FecSlots

/-!
# Forward error correction: what is repaired

The repair loop of `udptl_rx_packet` on the ring that the packets of one sender leave, arriving in
order and with losses. It consults the FEC entries of earlier packets too, and takes every slot such
an entry covers for the packet the sender had there. That is right as long as the slot has not been
given to a later packet in the meantime.
-/

namespace Telephony.Udptl

open Lib List Function Nat

/-! ## Which packet a slot belongs to -/

def holder (n x : ℕ) : ℕ := n - (((n : ℤ) - x) % 16).toNat

/-- How many slots, back from that of the arriving packet, the repair loop visits.
Source: `udptl_rx_packet` (`l != ((x - (16 - span*entries)) & UDPTL_BUF_MASK)`) -/
def repairReach (c : EcConf) (n : ℕ) : ℕ :=
  ((16 - ((fecShape c n).1 * (fecShape c n).2 : ℕ) : ℤ) % 16).toNat

/-- The sequence number of packet `n` once the receiver has unwrapped it.
Source: `udptl_rx_packet` ("received seq_no has wrapped") -/
def unwrappedSeqNo (n : ℕ) : ℕ :=
  if 65536 ≤ n ∧ n % 65536 < 0x000F then n % 65536 + 65536 else n % 65536

/-- An entry that is consulted when packet `n` arrives, and that covers the slot of a packet that
was lost, covers only the slots of packets that have kept them.
Source: `udptl_rx_packet` ("See if we can", "only repair buffers that") -/
def SafeRepair (c : EcConf) (arrived : List ℕ) (n : ℕ) : Prop :=
  ∀ p ∈ arrived, p ≤ n → n < p + repairReach c n → ∀ m < (fecShape c p).2,
    (fecShape c p).1 * (fecShape c p).2 < unwrappedSeqNo n + m → (∃ k ∈ walkOf c p m, holder n k ∉ arrived) →
      ∀ k ∈ walkOf c p m, n < holder p k + 16

instance (c : EcConf) (arrived : List ℕ) (n : ℕ) : Decidable (SafeRepair c arrived n) := by
  unfold SafeRepair
  infer_instance

lemma holder_spec {c : EcConf} (hc : FecConf c) (sent : ℕ → Bytes) {p m k : ℕ}
    (hm : m < (fecShape c p).2) (hk : k ∈ walkOf c p m) :
    holder p k ≤ p ∧ holder p k % 16 = k ∧ ringOf sent p k = some (sent (holder p k)) := by
  obtain ⟨-, -, hmul⟩ := hc.fecShape_le p
  obtain ⟨j, hj, hstop⟩ := exists_of_mem_ringWalk (by omega) hk
  generalize fecShape c p = shape at *
  -- the walk ends after as many steps as the span, so `k` is at least one step before its end
  have hjs : j < shape.1 := by
    by_contra hge
    refine hstop shape.1 (not_lt.mp hge) ?_
    omega
  have hstep : j * shape.2 + shape.2 ≤ shape.1 * shape.2 := by
    calc j * shape.2 + shape.2 = (j + 1) * shape.2 := (succ_mul j shape.2).symm
      _ ≤ shape.1 * shape.2 := mul_le_mul_right _ hjs
  have hback : (((p : ℤ) - k) % 16).toNat ≤ p := by omega
  refine ⟨sub_le _ _, by unfold holder; omega, ?_⟩
  simp only [ringOf, holder, if_pos hback]

lemma exists_of_mem_repairWalk {c : EcConf} {n l : ℕ}
    (h : l ∈ repairWalk (n % 16) (fecShape c n).1 (fecShape c n).2) :
    ∃ d < repairReach c n, l = (((n : ℤ) - d) % 16).toNat := by
  obtain ⟨j, rfl, hstop⟩ := exists_of_mem_ringWalk (mod_lt _ (by omega)) h
  refine ⟨j, ?_, by omega⟩
  by_contra hge
  refine hstop (repairReach c n) (not_lt.mp hge) ?_
  unfold repairReach
  omega

lemma FecConf.lt_of_consulted {c : EcConf} (hc : FecConf c) {p m seqNo : ℕ}
    (h : ¬ (seqNo : ℤ) ≤ (((fecShape c p).1 * (fecShape c p).2 : ℕ) - m : ℤ) % 2 ^ 32) :
    (fecShape c p).1 * (fecShape c p).2 < seqNo + m := by
  obtain ⟨hspan, hent, -⟩ := hc.fecShape_le p
  have hmul : (fecShape c p).1 * (fecShape c p).2 ≤ 5 * maxFecEntries := Nat.mul_le_mul hspan hent
  simp only [maxFecEntries] at hmul
  omega

/-! ## One repair -/

lemma foldl_scan_many (rx : ℕ → RxSlot) (walk : List ℕ) : walk.foldl (Missing.scan rx) .many = .many := by
  induction walk with
  | nil => rfl
  | cons k walk ih =>
    rw [foldl_cons, Missing.scan]
    split_ifs <;> exact ih

lemma foldl_scan_one {rx : ℕ → RxSlot} {walk : List ℕ} {v w : ℕ}
    (h : walk.foldl (Missing.scan rx) (.one v) = .one w) :
    v = w ∧ ∀ k ∈ walk, 0 < (rx k).bufLen := by
  induction walk with
  | nil => exact ⟨by simpa using h, by simp⟩
  | cons k walk ih =>
    rw [foldl_cons, Missing.scan] at h
    split_ifs at h with hk
    · rw [show Missing.add (.one v) k = .many from rfl, foldl_scan_many] at h
      simp at h
    · obtain ⟨rfl, hall⟩ := ih h
      exact ⟨rfl, by simpa [not_le.mp hk] using hall⟩

lemma findMissing_one {rx : ℕ → RxSlot} {walk : List ℕ} {w : ℕ}
    (h : findMissing rx walk = .one w) :
    ∃ pre post, walk = pre ++ w :: post ∧ (rx w).bufLen ≤ 0 ∧ ∀ k ∈ pre ++ post, 0 < (rx k).bufLen := by
  induction walk with
  | nil => simp [findMissing] at h
  | cons k walk ih =>
    rw [findMissing, foldl_cons, Missing.scan] at h
    split_ifs at h with hk
    · obtain ⟨rfl, hall⟩ := foldl_scan_one h
      exact ⟨[], walk, rfl, hk, hall⟩
    · obtain ⟨pre, post, rfl, hw, hall⟩ := ih h
      exact ⟨k :: pre, post, rfl, hw, by simpa [not_le.mp hk] using hall⟩

lemma SlotOk.contributes {c : EcConf} {sent : ℕ → Bytes} {arrived : List ℕ} {q : ℕ}
    {slot : RxSlot} (h : SlotOk c sent arrived q slot) (hpos : 0 < slot.bufLen) (j : ℕ) :
    (if (j : ℤ) < slot.bufLen then slot.buf j else 0) = octet (sent q) j := by
  split_ifs with hj
  · exact h.buf_eq hpos j hj
  · have := h.length_le hpos
    exact (octet_eq_zero (by omega)).symm

/-- The state of the repair loop: the ring is right, and a slot marked as repaired is not empty. -/
structure RepairOk (c : EcConf) (sent : ℕ → Bytes) (arrived : List ℕ) (n : ℕ) (st : RepairState) :
    Prop where
  ring : RingOk c sent arrived (n + 1) st.rx
  repaired : ∀ l, st.repaired l = true → 0 < (st.rx l).bufLen

section Repair

variable {c : EcConf} {sent : ℕ → Bytes} {arrived : List ℕ} {n l seqNo q j : ℕ} {st : RepairState}

/-- A slot is empty only if its packet was lost. -/
lemma RepairOk.lost (h : RepairOk c sent arrived n st) {k q : ℕ} (hk : k < 16) (hq : q ≤ n ∧ q % 16 = k)
    (hemp : (st.rx k).bufLen ≤ 0) : holder n k ∉ arrived := by
  intro harr
  have hslot := h.ring.slotOk (holder n k) (by unfold holder; omega) (by unfold holder; omega)
  rw [show holder n k % 16 = k by unfold holder; omega] at hslot
  have := hslot.filled harr
  omega

section

variable (hc : FecConf c) (h : RepairOk c sent arrived n st)
include hc h

lemma RepairOk.repairedOctet_eq {p m w : ℕ}
    (hpn : p ≤ n) (hm : m < (fecShape c p).2) (hsafe : ∀ k ∈ walkOf c p m, n < holder p k + 16)
    (hw : findMissing st.rx (walkOf c p m) = .one w) {fec : ℕ → UInt8}
    (hfec : fec j = octet (fecOf c sent p m) j) :
    repairedOctet st.rx (walkOf c p m) fec j = octet (sent (holder p w)) j := by
  obtain ⟨pre, post, hwalk, hemp, hall⟩ := findMissing_one hw
  have hparity : fec j = parity (· ^^^ ·) 0 (fun k => octet (sent (holder p k)) j) (walkOf c p m) := by
    rw [hfec, fecOf, octet_wire, octet_fecEntry]
    refine parity_congr _ _ fun k hk => ?_
    rw [(holder_spec hc sent hm hk).2.2, Option.getD_some]
  rw [repairedOctet, hparity, hwalk]
  refine foldl_parity_recover (· ^^^ ·) 0 (fun _ => UInt8.xor_self) (fun k hk => ?_) ?_
  · have hk' : k ∈ walkOf c p m := by
      rw [hwalk]
      simp only [mem_append] at hk ⊢
      tauto
    obtain ⟨hle, hmod, -⟩ := holder_spec hc sent hm hk'
    have hslot := h.ring.slotOk (holder p k) (by omega) (by have := hsafe k hk'; omega)
    rw [hmod] at hslot
    exact hslot.contributes (hall k hk) j
  · exact if_neg (by omega)

lemma RepairOk.entry {p m : ℕ} (hpn : p ≤ n) (hfec : HoldsFec c sent p (st.rx (p % 16))) (hm : m < (fecShape c p).2)
    (hsafe : (fecShape c p).1 * (fecShape c p).2 < unwrappedSeqNo n + m →
      (∃ k ∈ walkOf c p m, holder n k ∉ arrived) → ∀ k ∈ walkOf c p m, n < holder p k + 16) :
    RepairOk c sent arrived n (repairEntry (unwrappedSeqNo n) (p % 16) st m) ∧
      HoldsFec c sent p ((repairEntry (unwrappedSeqNo n) (p % 16) st m).rx (p % 16)) := by
  obtain ⟨hlen, hoct⟩ := hfec.hasFec m (by simpa using hm)
  simp only [Nat.zero_add, getElem_map, getElem_range] at hlen hoct
  simp only [repairEntry, hfec.fecSpan_eq, hfec.fecEntries_eq]
  split_ifs with hseq
  · exact ⟨h, hfec⟩
  rw [← walkOf]
  cases hw : findMissing st.rx (walkOf c p m) with
  | none => exact ⟨h, hfec⟩
  | many => exact ⟨h, hfec⟩
  | one w =>
    obtain ⟨pre, post, hwalk, hemp, -⟩ := findMissing_one hw
    have hmem : w ∈ walkOf c p m := by simp [hwalk]
    obtain ⟨hle, hmod, hring⟩ := holder_spec hc sent hm hmem
    have hsafe := hsafe (hc.lt_of_consulted hseq) ⟨w, hmem, h.lost (hmod ▸ mod_lt _ (by decide)) ⟨hle.trans hpn, hmod⟩ hemp⟩
    have hlong : (sent (holder p w)).length ≤ (fecOf c sent p m).length := by
      have hent : ((ringOf sent p w).getD []).length ≤
          (fecEntry (ringOf sent p) (walkOf c p m)).length := length_le_length_fecEntry hmem
      rw [hring] at hent
      refine hent.trans ?_
      unfold fecOf wire
      split_ifs with hnil
      · simp [hnil]
      · exact le_rfl
    have hpos : 0 < (fecOf c sent p m).length := length_pos_iff.mpr (wire_ne_nil _)
    have hwin : n + 1 ≤ holder p w + 16 := hsafe w hmem
    have hold := h.ring.slotOk (holder p w) (by omega) hwin
    rw [hmod] at hold
    -- the new slot: the octets of the missing packet, up to the length of the parity
    set slot : RxSlot := { st.rx w with
      buf := fun j => if j < (st.rx (p % 16)).fecLen m then
        repairedOctet st.rx (walkOf c p m) ((st.rx (p % 16)).fec m) j else (st.rx w).buf j
      bufLen := (st.rx (p % 16)).fecLen m } with hslotdef
    have hslot : SlotOk c sent arrived (holder p w) slot := by
      refine ⟨fun _ => ?_, fun _ j hj => ?_, hold.fec.imp id fun hf => ⟨hf.1, hf.2.setBuf _ _⟩, fun _ => ?_⟩
      · simp only [hslotdef, hlen]
        exact_mod_cast hlong
      · have hj' : j < (st.rx (p % 16)).fecLen m := Int.ofNat_lt.mp hj
        simp only [hslotdef, if_pos hj']
        exact h.repairedOctet_eq hc hpn hm hsafe hw (hoct j (hlen ▸ hj'))
      · simp only [hslotdef, hlen]
        exact_mod_cast hpos
    have hring' := h.ring.replace (by omega) hwin hslot
    rw [hmod] at hring'
    refine ⟨⟨hring', fun l hl => ?_⟩, ?_⟩
    · by_cases hlw : l = w
      · simp only [hlw, update_self, hlen]
        exact_mod_cast hpos
      · simp only [update_of_ne hlw] at hl ⊢
        exact h.repaired l hl
    · by_cases hpw : p % 16 = w
      · simp only [hpw, update_self]
        rw [hpw] at hfec
        exact hfec.setBuf _ _
      · simp only [update_of_ne hpw]
        exact hfec

lemma RepairOk.slot (hsafe : SafeRepair c arrived n) (hl : l ∈ repairWalk (n % 16) (fecShape c n).1 (fecShape c n).2) :
    RepairOk c sent arrived n (repairSlot (unwrappedSeqNo n) st l) := by
  have hnone : (st.rx l).fecEntries = 0 → RepairOk c sent arrived n (repairSlot (unwrappedSeqNo n) st l) := by
    intro hzero
    simpa [repairSlot, hzero] using h
  obtain ⟨d, hd, rfl⟩ := exists_of_mem_repairWalk hl
  have hd16 : d < 16 := by
    unfold repairReach at hd
    omega
  by_cases hdn : d ≤ n
  · have hmod : (((n : ℤ) - d) % 16).toNat = (n - d) % 16 := by omega
    rw [hmod] at hnone ⊢
    rcases (h.ring.slotOk (n - d) (by omega) (by omega)).fec with hzero | ⟨harr, hfec⟩
    · exact hnone hzero
    simp only [repairSlot, hfec.fecEntries_eq]
    split_ifs
    · exact h
    refine (List.foldlRecOn (motive := fun st => RepairOk c sent arrived n st ∧
      HoldsFec c sent (n - d) (st.rx ((n - d) % 16))) _ _ ⟨h, hfec⟩ fun st hst m hm => ?_).1
    have hm' : m < (fecShape c (n - d)).2 := mem_range.mp hm
    exact hst.1.entry hc (sub_le _ _) hst.2 hm' (hsafe (n - d) harr (sub_le _ _) (by omega) m hm')
  · exact hnone (h.ring.fresh _ (by omega) (by omega)).2

lemma RepairOk.walk (hsafe : SafeRepair c arrived n) :
    RepairOk c sent arrived n ((repairWalk (n % 16) (fecShape c n).1 (fecShape c n).2).foldl
      (repairSlot (unwrappedSeqNo n)) st) :=
  List.foldlRecOn (motive := fun st => RepairOk c sent arrived n st) _ _ h fun _ hst _ hl => hst.slot hc hsafe hl

end

lemma SlotOk.data_eq {slot : RxSlot} (h : SlotOk c sent arrived q slot) (hpos : 0 < slot.bufLen) :
    ∃ k, slot.data = sent q ++ replicate k 0 := by
  have hle := h.length_le hpos
  refine ⟨slot.bufLen.toNat - (sent q).length, ext_getElem ?_ fun j hj _ => ?_⟩
  · simp only [RxSlot.data, length_map, length_range, length_append,
      length_replicate]
    omega
  · simp only [RxSlot.data, length_map, length_range] at hj
    simp only [RxSlot.data, getElem_map, getElem_range, h.buf_eq hpos j (by omega)]
    by_cases hlt : j < (sent q).length
    · rw [octet_eq_getElem hlt, getElem_append_left hlt]
    · rw [octet_eq_zero (not_lt.mp hlt), getElem_append_right (not_lt.mp hlt),
        getElem_replicate]

lemma RepairOk.playRepaired (h : RepairOk c sent arrived n st)
    (hseq : seqNo % 65536 = n % 65536) {f : Frame} (hf : f ∈ playRepaired st seqNo (n % 16)) :
    ∃ q ≤ n, f.number n = q ∧ ∃ k, f.data = sent q ++ replicate k 0 := by
  simp only [Udptl.playRepaired, mem_filterMap, mem_range] at hf
  obtain ⟨t, ht, hf⟩ := hf
  split_ifs at hf with hrep
  have hpos := h.repaired _ hrep
  have hold : 15 ≤ n + t := by
    by_contra hlt
    have := (h.ring.fresh ((n % 16 + 1 + t) % 16) (by omega) (by omega)).1
    omega
  have hslot := h.ring.slotOk (n + t - 15) (by omega) (by omega)
  rw [show (n + t - 15) % 16 = (n % 16 + 1 + t) % 16 by omega] at hslot
  rw [← Option.some.inj hf]
  refine ⟨n + t - 15, by omega, ?_, hslot.data_eq hpos⟩
  simp only [Frame.number]
  omega

end Repair

/-! ## Runs -/

section Runs

variable {c : EcConf} (hc : FecConf c) {sent : ℕ → Bytes} (hlen : ∀ q, (sent q).length ≤ localFaxMaxDatagram)
  {arrived : List ℕ} {expected n : ℕ} {s : RxState}
include hc hlen

lemma rxPacket_fec (hne : sent n ≠ []) (ht : TracksExpected s.rxSeqNo expected)
    (hring : RingOk c sent arrived expected s.rx) (hle : expected ≤ n) (hun : Unwraps expected n)
    (hsafe : SafeRepair c (n :: arrived) n) :
    TracksExpected (rxPacket s (datagramOf c sent n)).2.rxSeqNo (n + 1) ∧
      RingOk c sent (n :: arrived) (n + 1) (rxPacket s (datagramOf c sent n)).2.rx ∧
      ∀ e ∈ handedUp n (rxPacket s (datagramOf c sent n)).1,
        ∃ q ≤ n, e.1 = q ∧ ∃ k, e.2 = sent q ++ replicate k 0 := by
  obtain ⟨hdiff, hseq, -, hnext⟩ := unwrapSeqNo_spec ht (.inl ⟨hle, hun⟩)
  rw [datagramOf_fec hc.scheme, rxPacket, rxHeader_packet s (mod_lt _ (by decide)) (hlen n)]
  generalize unwrapSeqNo s.rxSeqNo (n % 65536) = u at *
  have hslot : u.1 % 16 = n % 16 := by omega
  have hunwrapped : u.1 = unwrappedSeqNo n := by
    unfold TracksExpected at hnext
    unfold unwrappedSeqNo
    split_ifs at hnext ⊢ <;> omega
  -- the missed packets, then the packet itself
  obtain ⟨hmissed, hrx⟩ := hring.markMissed (s := { s with rxSeqNo := u.2 })
    (show u.2 % 16 = expected % 16 by omega) (u.1 - u.2)
  rw [show expected + (u.1 - u.2) = n by omega] at hmissed
  obtain ⟨slot, hsto, hslotOk, hpos⟩ := storeFec_packet hc hlen arrived
    (markMissed (u.1 - u.2) { s with rxSeqNo := u.2 }) hne
  have hpush := hmissed.push hslotOk (.inr rfl)
  have hsta : RepairOk c sent (n :: arrived) n
      ⟨((markMissed (u.1 - u.2) { s with rxSeqNo := u.2 }).modify (n % 16) fun _ => slot).rx,
        update (fun _ => false) (n % 16) true⟩ := by
    refine ⟨hpush, fun l hl => ?_⟩
    by_cases hln : l = n % 16
    · simpa [hln] using hpos
    · simp [update_of_ne hln] at hl
  have hdone := hsta.walk hc hsafe
  rw [← hunwrapped] at hdone
  simp only [show decide ((0x80 : UInt8).toNat &&& 0x80 ≠ 0) = true from rfl, if_true, rxFec,
    if_neg (not_lt.mpr (hlen n)), hslot, hsto, finishPacket]
  refine ⟨hnext, hdone.ring, fun e he => ?_⟩
  simp only [handedUp, Option.getD_some, map_append, mem_append, mem_map] at he
  rcases he with ⟨f, hf, rfl⟩ | ⟨f, hf, rfl⟩
  · exact hdone.playRepaired hseq hf
  split_ifs at hf
  · simp only [mem_singleton] at hf
    subst hf
    refine ⟨n, le_rfl, ?_, 0, by simp⟩
    simp only [Frame.number]
    omega
  · simp at hf

lemma deliveries_fec {all ns : List ℕ} (hsafe : ∀ n ∈ all, SafeRepair c all n) (hne : ∀ n ∈ ns, sent n ≠ [])
    (hall : ∀ n, n ∈ all ↔ n ∈ ns ++ arrived) (hsrt : ns.Pairwise (· < ·)) (hfst : ∀ n ∈ ns, expected ≤ n) (hun : UnwrapsRun expected ns)
    (ht : TracksExpected s.rxSeqNo expected) (hring : RingOk c sent arrived expected s.rx) :
    ∀ e ∈ deliveries s (ns.map fun n => (n, datagramOf c sent n)),
      ∃ n ∈ ns, ∃ q ≤ n, e.1 = q ∧ ∃ k, e.2 = sent q ++ replicate k 0 := by
  induction ns generalizing s expected arrived with
  | nil => simp [deliveries]
  | cons n ns ih =>
    obtain ⟨hlt, hsrt⟩ := pairwise_cons.mp hsrt
    have hsub : ∀ p ≤ n, p ∈ all ↔ p ∈ n :: arrived := by
      intro p hp
      have := hlt p
      simp only [hall, mem_append, mem_cons]
      grind
    have hsafe' : SafeRepair c (n :: arrived) n := by
      rintro p hp hpn hreach m hm hseq ⟨k, hk, hlost⟩
      refine hsafe n ((hsub n le_rfl).mpr mem_cons_self) p ((hsub p hpn).mpr hp) hpn hreach m hm hseq ⟨k, hk, ?_⟩
      rwa [hsub (holder n k) (sub_le _ _)]
    obtain ⟨ht', hring', hfrs⟩ := rxPacket_fec hc hlen (hne n (by simp)) ht hring (hfst n (by simp)) hun.1 hsafe'
    intro e he
    rcases mem_append.mp he with he | he
    · exact ⟨n, by simp, hfrs e he⟩
    have hall' : ∀ m, m ∈ all ↔ m ∈ ns ++ n :: arrived := by
      intro m
      rw [hall, perm_middle.mem_iff, cons_append]
    obtain ⟨m, hm, hq⟩ := ih (fun m hm => hne m (by simp [hm])) hall' hsrt
      (fun m hm => hlt m hm) (hun.2 _ rfl) ht' hring' e he
    exact ⟨m, by simp [hm], hq⟩

end Runs

/-- **FEC repairs are right** when the packets of a session arrive in the order they were sent, with
losses that the receiver unwraps rightly, and no FEC entry that the repair loop consults and that
covers the slot of a lost packet covers a packet sixteen or more behind the arriving one: every
frame handed up holds the IFP sent with its number, followed by zeros. -/
theorem fec_deliveries_right (c : EcConf) (hc : FecConf c) (buflen : ℕ) (ifps : List Ifp)
    (arrivals : List (Fin (sendAll c buflen TxState.new ifps).length))
    (hsorted : arrivals.Pairwise (· < ·)) (hunwraps : UnwrapsRun 0 (arrivals.map Fin.val))
    (hsafe : ∀ n ∈ arrivals, SafeRepair c (arrivals.map Fin.val) n) :
    ∀ q data, (q, data) ∈ deliveries RxState.new
        (received (sendAll c buflen TxState.new ifps) arrivals) →
      ∃ i : Fin (sendAll c buflen TxState.new ifps).length, q = i.val ∧
        ∃ k, data = ((sendAll c buflen TxState.new ifps).get i).1.octets ++ replicate k 0 := by
  intro q data hmem
  rw [received_sendAll] at hmem
  have hsafe' : ∀ n ∈ arrivals.map Fin.val, SafeRepair c (arrivals.map Fin.val) n := by
    intro n hn
    obtain ⟨i, hi, rfl⟩ := mem_map.mp hn
    exact hsafe i hi
  have hne : ∀ n ∈ arrivals.map Fin.val, sentOctets ((sendAll c buflen TxState.new ifps).map Prod.fst) n ≠ [] := by
    intro n hn
    obtain ⟨i, -, rfl⟩ := mem_map.mp hn
    exact sentOctets_ne_nil (by rw [length_map]; exact i.isLt)
  have hnew : TracksExpected RxState.new.rxSeqNo 0 := rfl
  obtain ⟨n, hn, q', hq', heq, k, hdata⟩ := deliveries_fec hc (length_sentOctets_le _) hsafe' hne
    (by simp) (pairwise_map.mpr hsorted) (fun _ _ => zero_le _) hunwraps hnew ringOk_new
    _ hmem
  obtain ⟨i, -, rfl⟩ := mem_map.mp hn
  refine ⟨⟨q', lt_of_le_of_lt hq' i.isLt⟩, heq, k, ?_⟩
  simpa [sentOctets, lt_of_le_of_lt hq' i.isLt] using hdata

/-- One entry with a span of two; packet 2 of four is lost, and packet 3 repairs it. -/
theorem fec_deliveries_right_repaired :
    ((2 : ℤ), [(3 : UInt8)]) ∈ deliveries RxState.new
      (received (fourSent ⟨.fec, 1, 2⟩) [⟨0, by decide⟩, ⟨1, by decide⟩, ⟨3, by decide⟩]) ∧
    ∃ i : Fin (fourSent ⟨.fec, 1, 2⟩).length, (2 : ℤ) = i.val ∧
      ∃ k, [(3 : UInt8)] = ((fourSent ⟨.fec, 1, 2⟩).get i).1.octets ++ replicate k 0 := by
  have hmem : ((2 : ℤ), [(3 : UInt8)]) ∈ deliveries RxState.new
      (received (fourSent ⟨.fec, 1, 2⟩) [⟨0, by decide⟩, ⟨1, by decide⟩, ⟨3, by decide⟩]) := by
    decide
  exact ⟨hmem, fec_deliveries_right ⟨.fec, 1, 2⟩
    ⟨rfl, by decide, by decide, by decide, by decide⟩ 100 _ _ (by decide) (by decide) (by decide) _ _ hmem⟩

/-- Of twenty-two packets 10, 15, 20 and 21 arrive. The first FEC entry of packet 20 was computed
from packets 16, 5, 10 and 15; packet 21 has taken the slot of packet 5, and packet 16 is repaired
with its octets. -/
theorem fec_repairs_wrong :
    ((16 : ℤ), [(1 : UInt8)]) ∈ deliveries RxState.new (received (sendAll ⟨.fec, 5, 4⟩ 400 TxState.new
        ((range 22).map fun i => .single (UInt8.ofNat (i + 1))))
          [⟨10, by decide⟩, ⟨15, by decide⟩, ⟨20, by decide⟩,
            ⟨21, by decide⟩]) ∧
      ((sendAll ⟨.fec, 5, 4⟩ 400 TxState.new ((range 22).map fun i =>
        .single (UInt8.ofNat (i + 1))))[16]?.map fun p => p.1.octets) = some [17] := by
  decide +kernel

end Telephony.Udptl
