import Mathlib.Algebra.Order.BigOperators.Group.List
import Mathlib.Algebra.Order.Group.Nat
import Telephony.Udptl.Write

/-!
# The largest IFP

`calculate_far_max_ifp` says how large an IFP may be such that its packet, with the error recovery
data, is a datagram that the far end accepts. The packet carries the IFPs before it again, or
parities of them, so that the IFPs sent before matter as well.
-/

namespace Telephony.Udptl

open Lib List Function Nat

/-! ## The size of a packet -/

def elementsLength (elements : List (Option Bytes)) : ℕ :=
  (elements.map fun d => (openType (wire (d.getD []))).length).sum

variable {buflen n bound : ℕ} {elements : List (Option Bytes)} {c : EcConf} {s tx : TxState} {ifp data : Bytes}

lemma packAll_done_iff (h : ∀ d ∈ elements, d.isSome ∧ Short d) (out : Bytes) :
    (packAll buflen out elements).2 = true ↔ elements = [] ∨ out.length + elementsLength elements ≤ buflen := by
  induction elements generalizing out with
  | nil => exact ⟨fun _ => .inl rfl, fun _ => rfl⟩
  | cons element elements ih =>
    obtain ⟨hsome, hsht⟩ := h element mem_cons_self
    obtain ⟨data, rfl⟩ := Option.isSome_iff_exists.mp hsome
    have ih := ih fun d hd => h d (mem_cons_of_mem _ hd)
    have hsum : elementsLength (some data :: elements) = (openType (wire data)).length + elementsLength elements := rfl
    simp only [packAll, packOpenType_eq buflen out hsht.wire, reduceCtorEq, false_or]
    by_cases hbig : buflen < out.length + (openType (wire data)).length
    · rw [if_pos hbig]
      exact ⟨Bool.noConfusion, fun hfits => by omega⟩
    rw [if_neg hbig, if_pos rfl, ih, length_append]
    constructor
    · rintro (rfl | hfits)
      · rw [hsum, show elementsLength [] = 0 from rfl]
        omega
      · omega
    · intro hfits
      exact .inr (by omega)

lemma buildPacket_done_iff (hifp : Short (some ifp))
    (hels : ∀ d ∈ (s.recovery c ifp).2, d.isSome ∧ Short d) :
    (buildPacket c buflen s ifp).done = true ↔
      2 + (openType (wire ifp)).length ≤ buflen ∧ ((s.recovery c ifp).2 = [] ∨
        2 + (openType (wire ifp)).length + (s.recovery c ifp).1.length + elementsLength (s.recovery c ifp).2 ≤
          buflen) := by
  have hseq : (seqOctets (s.txSeqNo &&& 0xFFFF)).length = 2 := rfl
  simp only [buildPacket, packOpenType_eq _ _ hifp.wire, hseq]
  by_cases hbig : buflen < 2 + (openType (wire ifp)).length
  · rw [if_pos hbig]
    exact ⟨Bool.noConfusion, fun hfits => absurd hfits.1 (by omega)⟩
  rw [if_neg hbig]
  change (packAll buflen (_ ++ _ ++ (s.recovery c ifp).1) (s.recovery c ifp).2).2 = true ↔ _
  rw [packAll_done_iff hels, length_append, length_append, hseq, and_iff_right (by omega)]

lemma lengthOctets_eq (h : n < 0x4000) : lengthOctets n = if n < 0x80 then 1 else 2 := by
  unfold lengthOctets encodeLength
  split_ifs <;> rfl

lemma lengthOctets_le (h : n < 0x4000) : lengthOctets n ≤ 2 := by
  rw [lengthOctets_eq h]
  split_ifs <;> omega

lemma length_openType_wire_le (h : data.length ≤ bound) (hpos : 0 < bound)
    (hbd : bound ≤ localFaxMaxDatagram) : (openType (wire data)).length ≤ bound + 2 := by
  have hwire : (wire data).length ≤ bound := length_wire_le h hpos
  have hlim : localFaxMaxDatagram < 0x4000 := by decide
  have hoctets : lengthOctets (wire data).length ≤ 2 := lengthOctets_le (by omega)
  rw [length_openType]
  omega

lemma le_length_openType_wire (data : Bytes) : data.length ≤ (openType (wire data)).length := by
  rw [length_openType]
  unfold wire
  split_ifs with hnil
  · rw [hnil]
    exact zero_le _
  · omega

lemma elementsLength_le (h : ∀ d ∈ elements, (d.getD []).length ≤ bound) (hpos : 0 < bound)
    (hbd : bound ≤ localFaxMaxDatagram) :
    elementsLength elements ≤ elements.length * (bound + 2) := by
  have hsum := sum_le_card_nsmul (elements.map fun d => (openType (wire (d.getD []))).length) (bound + 2) (by
    intro n hn
    obtain ⟨d, hd, rfl⟩ := mem_map.mp hn
    exact length_openType_wire_le (h d hd) hpos hbd)
  rwa [length_map, Nat.nsmul_eq_mul] at hsum

/-! ## The ring -/

/-- The IFPs in the ring have at most `bound` octets, and the slots of the packets sent are
written. -/
structure Filled (bound : ℕ) (s : TxState) : Prop where
  length_le : ∀ i < 16, ((s.tx i).getD []).length ≤ bound
  written : ∀ i < 16, i < s.txSeqNo → (s.tx i).isSome

lemma filled_new (bound : ℕ) : Filled bound .new :=
  ⟨fun _ _ => zero_le _, fun _ _ h => absurd h (not_lt_zero _)⟩

lemma slot_eq (n : ℕ) : (n &&& 0xFFFF) % 16 = n % 16 := by
  rw [show 0xFFFF = 2 ^ 16 - 1 from rfl, and_two_pow_sub_one_eq_mod]
  omega

lemma Filled.store (h : Filled bound s) (hifp : ifp.length ≤ bound) :
    (∀ i < 16, ((update s.tx ((s.txSeqNo &&& 0xFFFF) % 16) (some ifp) i).getD []).length ≤ bound) ∧
      ∀ i < 16, i < s.txSeqNo + 1 → (update s.tx ((s.txSeqNo &&& 0xFFFF) % 16) (some ifp) i).isSome := by
  rw [slot_eq]
  constructor
  · intro i hi
    rw [update_apply]
    split_ifs
    · exact hifp
    · exact h.length_le i hi
  · intro i hi hlt
    rw [update_apply]
    split_ifs with hslot
    · rfl
    · exact h.written i hi (by omega)

lemma buildPacket_txSeqNo (c : EcConf) (buflen : ℕ) (s : TxState) (ifp : Bytes) :
    (buildPacket c buflen s ifp).tx.txSeqNo =
      if (buildPacket c buflen s ifp).done then (s.txSeqNo + 1) % 2 ^ 32 else s.txSeqNo := by
  unfold buildPacket
  by_cases hpri : (packOpenType buflen (seqOctets (s.txSeqNo &&& 0xFFFF)) ifp).2 = true
  · dsimp only
    split_ifs <;> rfl
  · rw [if_neg hpri]
    rfl

lemma Filled.buildPacket (h : Filled bound s) (c : EcConf) (buflen : ℕ) (hifp : ifp.length ≤ bound) :
    Filled bound (Udptl.buildPacket c buflen s ifp).tx := by
  obtain ⟨hlen, hwr⟩ := h.store hifp
  refine ⟨?_, ?_⟩
  · rwa [buildPacket_tx]
  · rw [buildPacket_tx, buildPacket_txSeqNo]
    intro i hi hlt
    refine hwr i hi ?_
    split_ifs at hlt <;> omega

def sendHistory (c : EcConf) (buflen : ℕ) (history : List Bytes) : TxState :=
  history.foldl (fun s ifp => (buildPacket c buflen s ifp).tx) .new

lemma filled_sendHistory (c : EcConf) (buflen : ℕ) {history : List Bytes}
    (h : ∀ ifp ∈ history, ifp.length ≤ bound) : Filled bound (sendHistory c buflen history) := by
  refine List.foldlRecOn (motive := Filled bound) _ _ (filled_new bound) ?_
  intro s hs ifp hifp
  exact hs.buildPacket c buflen (h ifp hifp)

/-! ## The error recovery data -/

lemma Filled.recovery (h : Filled bound s) (hent : c.entries ≤ 5) (hifp : ifp.length ≤ bound)
    {d : Option Bytes} (hd : d ∈ (s.recovery c ifp).2) :
    d.isSome ∧ (d.getD []).length ≤ bound := by
  obtain ⟨hlen, hwr⟩ := h.store hifp
  refine ⟨?_, length_recoveryData_le hlen hd⟩
  unfold TxState.recovery recoveryData at hd
  split at hd
  · cases hd
  · obtain ⟨i, hi, rfl⟩ := mem_map.mp hd
    have hi : i < redundancyEntries c s.txSeqNo := mem_range.mp hi
    unfold redundancyEntries at hi
    refine hwr _ (by omega) ?_
    rw [slot_eq]
    split_ifs at hi <;> omega
  · obtain ⟨m, -, rfl⟩ := mem_map.mp hd
    rfl

lemma length_recovery_none (hsch : c.scheme = .none) (s : TxState) (ifp : Bytes) :
    (s.recovery c ifp).1.length = 2 ∧ (s.recovery c ifp).2.length = 0 := by
  unfold TxState.recovery recoveryData
  rw [hsch]
  exact ⟨rfl, rfl⟩

lemma length_recovery_redundancy (hsch : c.scheme = .redundancy) (hent : c.entries ≤ 5) (s : TxState)
    (ifp : Bytes) :
    (s.recovery c ifp).1.length = 2 ∧ (s.recovery c ifp).2.length ≤ c.entries := by
  have hle : redundancyEntries c s.txSeqNo ≤ c.entries := by
    unfold redundancyEntries
    split_ifs
    · exact le_rfl
    · omega
  have hannounced : lengthOctets (redundancyEntries c s.txSeqNo) = 1 := by
    rw [lengthOctets_eq (by omega), if_pos (by omega)]
  unfold TxState.recovery recoveryData
  rw [hsch]
  rw [length_cons, length_map, length_range]
  unfold lengthOctets at hannounced
  omega

lemma length_recovery_fec (hsch : c.scheme = .fec) (s : TxState) (ifp : Bytes) :
    (s.recovery c ifp).1.length = 4 ∧ (s.recovery c ifp).2.length = (fecParams c (s.txSeqNo &&& 0xFFFF)).2 := by
  unfold TxState.recovery recoveryData
  rw [hsch]
  rw [length_map, length_range]
  exact ⟨rfl, rfl⟩

lemma Filled.done (h : Filled bound s) {entries : ℕ} (hent : c.entries ≤ 5) (hifp : ifp.length ≤ bound)
    (hpos : 0 < bound) (hbd : bound ≤ localFaxMaxDatagram) (hhdr : (s.recovery c ifp).1.length ≤ 4)
    (hels : (s.recovery c ifp).2.length ≤ entries) (hroom : 6 + (entries + 1) * (bound + 2) ≤ buflen) :
    (Udptl.buildPacket c buflen s ifp).done = true := by
  have hsht : ∀ {data : Bytes}, data.length ≤ bound → Short (some data) := fun hle => hle.trans hbd
  have hall : ∀ d ∈ (s.recovery c ifp).2, d.isSome ∧ (d.getD []).length ≤ bound := fun d hd =>
    h.recovery hent hifp hd
  have hpri := length_openType_wire_le hifp hpos hbd
  have hsum := elementsLength_le (fun d hd => (hall d hd).2) hpos hbd
  have hmul : (s.recovery c ifp).2.length * (bound + 2) ≤ entries * (bound + 2) := mul_le_mul_right _ hels
  rw [buildPacket_done_iff (hsht hifp) fun d hd => ⟨(hall d hd).1, (hall d hd).2.trans hbd⟩]
  rw [succ_mul] at hroom
  exact ⟨by omega, .inr (by omega)⟩

/-! ## The limit -/

/-- A session on which the scheme and the far end's datagram size were set, and the limit asked for.
Source: `ast_udptl_set_error_correction_scheme`, `ast_udptl_set_far_max_datagram`,
`ast_udptl_get_far_max_ifp` -/
def advertised (wild : ℕ → ℤ) (c : EcConf) (maxDatagram : ℕ) : Session :=
  getFarMaxIfp wild (setFarMaxDatagram maxDatagram (setErrorCorrectionScheme c.scheme (.new c.entries c.span)))

def Sendable (s : Session) : Prop :=
  ∀ (history : List Bytes) (ifp : Bytes), (∀ sent ∈ history, (sent.length : ℤ) ≤ s.farMaxIfp) →
    (ifp.length : ℤ) ≤ s.farMaxIfp →
      (buildPacket s.conf s.bufsize (sendHistory s.conf s.bufsize history) ifp).done = true

lemma sendable_iff {s : Session} (h : s.farMaxIfp = bound) :
    Sendable s ↔ ∀ (history : List Bytes) (ifp : Bytes), (∀ sent ∈ history, sent.length ≤ bound) →
      ifp.length ≤ bound → (buildPacket s.conf s.bufsize (sendHistory s.conf s.bufsize history) ifp).done = true := by
  unfold Sendable
  simp [h]

section

variable (wild : ℕ → ℤ) {c : EcConf} {maxDatagram newMax : ℕ}

lemma lessInsurance_eq (h : newMax ≤ 1400) : lessInsurance wild newMax = (19 * newMax / 20 : ℕ) := by
  unfold lessInsurance
  rw [if_pos (by omega)]

lemma advertised_eq (hent : 1 ≤ c.entries) (hspan : 1 ≤ c.span)
    (hD : 100 ≤ maxDatagram ∧ maxDatagram ≤ 1400) :
    advertised wild c maxDatagram = calculateFarMaxIfp wild ⟨false, c, maxDatagram, -1, .new⟩ := by
  have hset : setErrorCorrectionScheme c.scheme (.new c.entries c.span) = ⟨false, c, -1, -1, .new⟩ := by
    unfold setErrorCorrectionScheme Session.new
    obtain ⟨scheme, entries, span⟩ := c
    cases scheme with
    | none => rfl
    | redundancy =>
      dsimp only at hent ⊢
      rw [if_neg (by omega)]
    | fec =>
      dsimp only at hent hspan ⊢
      rw [if_neg (by omega), if_neg (by omega)]
  have hfar : setFarMaxDatagram maxDatagram ⟨false, c, -1, -1, .new⟩ = ⟨false, c, maxDatagram, -1, .new⟩ := by
    unfold setFarMaxDatagram faxMaxDatagramLimit
    rw [if_neg (by omega)]
  unfold advertised getFarMaxIfp
  rw [hset, hfar, if_pos rfl]

variable {entries k share : ℕ} {ifp : Bytes}

lemma redundancyLimit_spec (room : ℕ) (h : 1 ≤ entries) :
    1 ≤ (redundancyLimit room entries).2 ∧ (redundancyLimit room entries).2 ≤ entries ∧
      (redundancyLimit room entries).1 = room / ((redundancyLimit room entries).2 + 1) ∧
      (80 ≤ (redundancyLimit room entries).1 ∨ (redundancyLimit room entries).2 = 1) := by
  induction entries with
  | zero => exact absurd h (by omega)
  | succ e ih =>
    unfold redundancyLimit
    by_cases hfewer : room / (e + 2) < 80 ∧ 1 < e + 1
    · rw [if_pos hfewer]
      obtain ⟨hpos, hle, hroom, hbig⟩ := ih (by omega)
      exact ⟨hpos, hle.trans (le_succ e), hroom, hbig⟩
    rw [if_neg hfewer]
    refine ⟨h, le_rfl, rfl, ?_⟩
    omega

structure Leeway (maxDatagram entries bound : ℕ) : Prop where
  pos : 0 < bound
  bound_le : bound ≤ localFaxMaxDatagram
  room : 6 + (entries + 1) * (bound + 2) ≤ maxDatagram

lemma leeway_share (hshare : 45 ≤ share) (hmax : maxDatagram ≤ 1400)
    (hroom : 6 + (entries + 1) * share ≤ maxDatagram) : Leeway maxDatagram entries (19 * share / 20) := by
  have hless : 19 * share / 20 + 2 ≤ share := by omega
  have hmul : (entries + 1) * (19 * share / 20 + 2) ≤ (entries + 1) * share := mul_le_mul_left _ hless
  have hone : 1 * share ≤ (entries + 1) * share := mul_le_mul_right _ (by omega)
  exact ⟨by omega, by unfold localFaxMaxDatagram; omega, by omega⟩

lemma advertised_none (hsch : c.scheme = .none) (hent : 1 ≤ c.entries) (hspan : 1 ≤ c.span)
    (hD : 100 ≤ maxDatagram ∧ maxDatagram ≤ 1400) :
    ∃ bound : ℕ, Leeway maxDatagram 0 bound ∧
      advertised wild c maxDatagram = ⟨false, c, maxDatagram, bound, .new⟩ := by
  have hroom : (((maxDatagram : ℤ) - 5) % 2 ^ 32).toNat = maxDatagram - 5 := by omega
  refine ⟨19 * (maxDatagram - 5) / 20, ⟨by omega, by unfold localFaxMaxDatagram; omega, by omega⟩, ?_⟩
  rw [advertised_eq wild hent hspan hD]
  unfold calculateFarMaxIfp
  dsimp only
  rw [if_neg (by omega), hsch]
  rw [hroom, lessInsurance_eq wild (by omega)]

lemma advertised_redundancy (hsch : c.scheme = .redundancy) (hent : 1 ≤ c.entries ∧ c.entries ≤ 5)
    (hspan : 1 ≤ c.span) (hD : 100 ≤ maxDatagram ∧ maxDatagram ≤ 1400) :
    ∃ entries bound : ℕ, entries ≤ 5 ∧ Leeway maxDatagram entries bound ∧
      advertised wild c maxDatagram = ⟨false, { c with entries := entries }, maxDatagram, bound, .new⟩ := by
  have hroom : (((maxDatagram : ℤ) - 8) % 2 ^ 32).toNat = maxDatagram - 8 := by omega
  obtain ⟨hpos, hle, hlim, hbig⟩ := redundancyLimit_spec (maxDatagram - 8) hent.1
  generalize hr : redundancyLimit (maxDatagram - 8) c.entries = r at hpos hle hlim hbig
  obtain ⟨share, entries⟩ := r
  dsimp only at hpos hle hlim hbig
  have hshare : 45 ≤ share := by
    rcases hbig with hbig | rfl <;> omega
  have hspl : (entries + 1) * share ≤ maxDatagram - 8 := by
    rw [hlim]
    exact mul_div_le _ _
  have hone : 1 * share ≤ (entries + 1) * share := mul_le_mul_right _ (by omega)
  refine ⟨entries, 19 * share / 20, by omega, leeway_share hshare hD.2 (by omega), ?_⟩
  rw [advertised_eq wild hent.1 hspan hD]
  unfold calculateFarMaxIfp
  dsimp only
  rw [if_neg (by omega), hsch]
  dsimp only
  rw [hroom, hr, lessInsurance_eq wild (by omega)]

lemma advertised_fec (hsch : c.scheme = .fec) (hent : 1 ≤ c.entries) (hspan : 1 ≤ c.span)
    (hD : 100 ≤ maxDatagram ∧ maxDatagram ≤ 1400) :
    advertised wild c maxDatagram = ⟨false, c, maxDatagram, (19 * ((maxDatagram - 10) / 2) / 20 : ℕ), .new⟩ := by
  have hroom : (((maxDatagram : ℤ) - 10).tdiv 2 % 2 ^ 32).toNat = (maxDatagram - 10) / 2 := by
    rw [Int.tdiv_eq_ediv_of_nonneg (by omega)]
    omega
  rw [advertised_eq wild hent hspan hD]
  unfold calculateFarMaxIfp
  dsimp only
  rw [if_neg (by omega), hsch]
  dsimp only
  rw [hroom, lessInsurance_eq wild (by omega)]

lemma leeway_fec (hD : 100 ≤ maxDatagram ∧ maxDatagram ≤ 1400) :
    Leeway maxDatagram 1 (19 * ((maxDatagram - 10) / 2) / 20) :=
  leeway_share (by omega) hD.2 (by omega)

/-! ## Winding up the parities -/

def windUp (ifp : Bytes) (k : ℕ) : TxState := ⟨k, fun i => if i < k then some ifp else none⟩

lemma filled_windUp (ifp : Bytes) (k : ℕ) : Filled ifp.length (windUp ifp k) := by
  refine ⟨?_, ?_⟩
  · intro i _
    unfold windUp
    dsimp only
    split_ifs
    · exact le_rfl
    · exact zero_le _
  · intro i _ hlt
    have hlt : i < k := hlt
    change (if i < k then some ifp else none).isSome
    rw [if_pos hlt]
    rfl

section

variable (hsch : c.scheme = .fec) (hent : 2 ≤ c.entries ∧ c.entries ≤ 5) (hspan : c.span ≤ 5)
  (hlee : Leeway maxDatagram 1 ifp.length)
include hsch hent hspan hlee

lemma windUp_succ (hk : k < 2 * c.span) : (buildPacket c maxDatagram (windUp ifp k) ifp).tx = windUp ifp (k + 1) := by
  have hseq : (windUp ifp k).txSeqNo &&& 0xFFFF = k :=
    and_two_pow_sub_one_of_lt_two_pow (show k < 2 ^ 16 by omega)
  have hfew : k < c.span * c.entries := by
    have hmul : c.span * 2 ≤ c.span * c.entries := mul_le_mul_left _ hent.1
    omega
  have hels : ((windUp ifp k).recovery c ifp).2.length ≤ 1 := by
    rw [(length_recovery_fec hsch _ _).2, hseq, fecParams, if_pos hfew]
    exact Nat.lt_succ_iff.mp ((div_lt_iff_lt_mul (by omega)).mpr hk)
  have hdone : (buildPacket c maxDatagram (windUp ifp k) ifp).done = true :=
    (filled_windUp ifp k).done hent.2 le_rfl hlee.pos hlee.bound_le (length_recovery_fec hsch _ _).1.le hels hlee.room
  have hnum := buildPacket_txSeqNo c maxDatagram (windUp ifp k) ifp
  rw [if_pos hdone] at hnum
  have hring := buildPacket_tx c maxDatagram (windUp ifp k) ifp
  rw [hseq] at hring
  generalize (buildPacket c maxDatagram (windUp ifp k) ifp).tx = after at hnum hring
  obtain ⟨txSeqNo, tx⟩ := after
  dsimp only at hnum hring
  rw [hnum, hring]
  unfold windUp
  congr 1
  · dsimp only
    omega
  · funext i
    rw [update_apply]
    by_cases hslot : i = k % 16
    · rw [if_pos hslot, if_pos (by omega)]
    rw [if_neg hslot]
    have hlt : i < k ↔ i < k + 1 := by omega
    simp [hlt]

lemma sendHistory_windUp (hk : k ≤ 2 * c.span) : sendHistory c maxDatagram (replicate k ifp) = windUp ifp k := by
  induction k with
  | zero => rfl
  | succ k ih =>
    have ih := ih (by omega)
    unfold sendHistory at ih ⊢
    rw [replicate_succ', foldl_append, ih]
    exact windUp_succ hsch hent hspan hlee (by omega)

end

lemma length_le_foldl_fecMix (tx : ℕ → Option Bytes) (walk : List ℕ) (acc : Bytes) :
    acc.length ≤ (walk.foldl (fun acc i => fecMix acc ((tx i).getD [])) acc).length := by
  refine List.foldlRecOn (motive := fun mixed : Bytes => acc.length ≤ mixed.length) _ _ le_rfl ?_
  intro mixed hmixed i _
  rw [length_fecMix]
  exact hmixed.trans (le_max_left _ _)

lemma length_le_fecEntry (tx : ℕ → Option Bytes) (i : ℕ) (walk : List ℕ) :
    ((tx i).getD []).length ≤ (fecEntry tx (i :: walk)).length := by
  have hfst : ((tx i).getD []).length ≤ (fecMix [] ((tx i).getD [])).length := by
    rw [length_fecMix]
    exact le_max_right _ _
  exact hfst.trans (length_le_foldl_fecMix tx walk _)

lemma fecWalk_first {span m : ℕ} (hspan : 1 ≤ span ∧ span ≤ 5) (hm : m < 2) :
    ∃ walk, fecWalk (2 * span) m span 2 = m :: walk := by
  have hsta : ((((2 * span + m) % 16 : ℕ) - (span * 2 : ℕ) : ℤ) % 16).toNat = m := by omega
  unfold fecWalk
  rw [hsta, ringWalk, if_neg (by omega)]
  exact ⟨_, rfl⟩

lemma fecParams_le (seq : ℕ) : (fecParams c seq).2 ≤ c.entries := by
  unfold fecParams
  split_ifs with hfew
  · exact (Nat.div_lt_of_lt_mul hfew).le
  · exact (Nat.div_lt_of_lt_mul hfew).le
  · exact le_rfl

lemma fecParams_two (hent : 2 ≤ c.entries) (hspan : 1 ≤ c.span) : fecParams c (2 * c.span) = (c.span, 2) := by
  have hmul : c.span * 2 ≤ c.span * c.entries := mul_le_mul_left _ hent
  unfold fecParams
  by_cases hmore : 2 * c.span < c.span * c.entries
  · rw [if_pos hmore, if_neg (by omega), Nat.mul_div_cancel _ hspan]
  rw [if_neg hmore]
  have htwo : c.entries = 2 := Nat.eq_of_mul_eq_mul_left hspan (by omega)
  rw [htwo]

lemma windUp_not_done (hsch : c.scheme = .fec) (hent : 2 ≤ c.entries ∧ c.entries ≤ 5)
    (hspan : 1 ≤ c.span ∧ c.span ≤ 5) (hbd : ifp.length ≤ localFaxMaxDatagram)
    (hbig : maxDatagram < 6 + 3 * ifp.length) :
    ¬ (buildPacket c maxDatagram (windUp ifp (2 * c.span)) ifp).done = true := by
  have hall : ∀ d ∈ ((windUp ifp (2 * c.span)).recovery c ifp).2, d.isSome ∧ (d.getD []).length ≤ ifp.length :=
    fun d hd => (filled_windUp ifp _).recovery hent.2 le_rfl hd
  rw [buildPacket_done_iff hbd fun d hd => ⟨(hall d hd).1, (hall d hd).2.trans hbd⟩]
  have hseq : (windUp ifp (2 * c.span)).txSeqNo &&& 0xFFFF = 2 * c.span :=
    and_two_pow_sub_one_of_lt_two_pow (show 2 * c.span < 2 ^ 16 by omega)
  have hparity : ∀ m < 2, ∀ tx : ℕ → Option Bytes, tx m = some ifp →
      ifp.length ≤ (openType (wire (fecEntry tx (fecWalk (2 * c.span) m c.span 2)))).length := by
    intro m hm tx htx
    obtain ⟨walk, hwalk⟩ := fecWalk_first hspan hm
    have hslot : ((tx m).getD []).length = ifp.length := by rw [htx, Option.getD_some]
    have hfst := length_le_fecEntry tx m walk
    have hopen := le_length_openType_wire (fecEntry tx (m :: walk))
    rw [hwalk]
    omega
  -- both parities are as long as an IFP: slots 0 and 1 are written, and the IFP of this packet is in another one
  have hring : ∀ m < 2, update (windUp ifp (2 * c.span)).tx (2 * c.span % 16) (some ifp) m = some ifp := by
    intro m hm
    rw [update_of_ne (by omega)]
    exact if_pos (show m < 2 * c.span by omega)
  have hels : 2 * ifp.length ≤ elementsLength ((windUp ifp (2 * c.span)).recovery c ifp).2 := by
    unfold TxState.recovery recoveryData
    rw [hsch]
    dsimp only
    rw [hseq, fecParams_two hent.1 hspan.1, mod_eq_of_lt (show 2 * c.span < 16 by omega)]
    have heven := hparity 0 (by omega) _ (hring 0 (by omega))
    have hodd := hparity 1 (by omega) _ (hring 1 (by omega))
    rw [mod_eq_of_lt (show 2 * c.span < 16 by omega)] at heven hodd
    simp only [range_succ, range_zero, nil_append, singleton_append, map_cons, elementsLength, Option.getD_some,
      sum_cons]
    omega
  have hcnt := (length_recovery_fec hsch (windUp ifp (2 * c.span)) ifp)
  have hpri := le_length_openType_wire ifp
  rw [hseq, fecParams_two hent.1 hspan.1] at hcnt
  rintro ⟨-, hnone | hfits⟩
  · rw [hnone, length_nil] at hcnt
    omega
  · omega

lemma bufsize_eq {peer : Bool} {far : ℤ} (h : 0 < maxDatagram) :
    Session.bufsize ⟨peer, c, (maxDatagram : ℤ), far, tx⟩ = maxDatagram := by
  unfold Session.bufsize
  dsimp only
  rw [if_pos (by omega), Int.toNat_natCast]

lemma Leeway.sendable {bound : ℕ} (h : Leeway maxDatagram entries bound) (hent : c.entries ≤ 5)
    (hrecovery : ∀ (s : TxState) (ifp : Bytes), (s.recovery c ifp).1.length ≤ 4 ∧ (s.recovery c ifp).2.length ≤ entries) :
    Sendable ⟨false, c, maxDatagram, bound, .new⟩ := by
  have hpos : 0 < maxDatagram := by
    have hroom := h.room
    omega
  rw [sendable_iff rfl]
  intro history ifp hhistory hifp
  rw [bufsize_eq hpos]
  exact (filled_sendHistory c maxDatagram hhistory).done hent hifp h.pos h.bound_le (hrecovery _ _).1
    (hrecovery _ _).2 h.room

end

/-- **The advertised IFP can be sent** after any IFPs of its size, except with parities of two
entries or more; their limit is calculated as if there was one. -/
theorem maxIfp_sendable_iff (wild : ℕ → ℤ) {c : EcConf} {maxDatagram : ℕ} (hentries : 1 ≤ c.entries ∧ c.entries ≤ 5)
    (hspan : 1 ≤ c.span ∧ c.span ≤ 5) (hD : 100 ≤ maxDatagram ∧ maxDatagram ≤ 1400) :
    Sendable (advertised wild c maxDatagram) ↔ ¬ (c.scheme = .fec ∧ 2 ≤ c.entries) := by
  cases hsch : c.scheme with
  | none =>
    obtain ⟨bound, hlee, hadv⟩ := advertised_none wild hsch hentries.1 hspan.1 hD
    rw [hadv]
    refine iff_of_true (hlee.sendable hentries.2 ?_) (fun h => EcScheme.noConfusion h.1)
    intro s ifp
    obtain ⟨hhdr, hels⟩ := length_recovery_none hsch s ifp
    omega
  | redundancy =>
    obtain ⟨entries, bound, hfew, hlee, hadv⟩ :=
      advertised_redundancy wild hsch hentries hspan.1 hD
    rw [hadv]
    refine iff_of_true (hlee.sendable hfew ?_) (fun h => EcScheme.noConfusion h.1)
    intro s ifp
    obtain ⟨hhdr, hels⟩ := length_recovery_redundancy (c := { c with entries := entries }) hsch hfew s ifp
    dsimp only at hels
    omega
  | fec =>
    rw [advertised_fec wild hsch hentries.1 hspan.1 hD]
    by_cases hone : c.entries = 1
    · refine iff_of_true ((leeway_fec hD).sendable hentries.2 ?_) (fun h => by omega)
      intro s ifp
      obtain ⟨hhdr, hels⟩ := length_recovery_fec hsch s ifp
      have hle := fecParams_le (c := c) (s.txSeqNo &&& 0xFFFF)
      omega
    refine iff_of_false ?_ (fun h => h ⟨rfl, by omega⟩)
    have hlee := leeway_fec hD
    generalize hbd : 19 * ((maxDatagram - 10) / 2) / 20 = bound at hlee ⊢
    rw [sendable_iff rfl, bufsize_eq (by omega)]
    intro hsendable
    have hlen : (replicate bound (0 : UInt8)).length = bound := length_replicate
    have hsent := hsendable (replicate (2 * c.span) (replicate bound 0)) (replicate bound 0)
      (fun ifp hifp => (eq_of_mem_replicate hifp ▸ hlen).le) hlen.le
    rw [← hlen] at hlee
    rw [sendHistory_windUp hsch (by omega) hspan.2 hlee le_rfl] at hsent
    refine windUp_not_done hsch (by omega) hspan ?_ ?_ hsent
    · exact hlee.bound_le
    · omega

/-- Three secondary packets, and datagrams of 400 octets. -/
theorem maxIfp_sendable_iff_redundancy :
    Sendable (advertised (fun _ => 0) ⟨.redundancy, 3, 3⟩ 400) ↔ ¬ (EcScheme.redundancy = .fec ∧ 2 ≤ 3) :=
  maxIfp_sendable_iff _ (by decide) (by decide) (by decide)

/-- With three parities over three packets each and datagrams of 400 octets, the limit is 185
octets; the seventh IFP of that size needs a packet of 567. -/
theorem maxIfp_not_sendable : ¬ Sendable (advertised (fun _ => 0) ⟨.fec, 3, 3⟩ 400) := by
  intro h
  have hdone := h (replicate 6 (replicate 185 0)) (replicate 185 0) (by decide +kernel) (by decide +kernel)
  revert hdone
  decide +kernel

end Telephony.Udptl
