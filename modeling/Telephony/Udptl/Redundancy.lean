import Mathlib.Data.List.Range
import Telephony.Udptl.Sequence

/-!
# Redundancy: what is delivered over a run

The packets of one sender in redundancy mode, received with losses, copies and out of order. The
abstract receiver `delivered` works on the numbers of the packets alone. The receiver of the source
does the same as long as the numbers are unwrapped rightly.
-/

namespace Telephony.Udptl

open Lib List Nat

/-! ## The secondary packets of a packet -/

def secondaryCount (c : EcConf) (n : ℕ) : ℕ := redundancyEntries c (n % 2 ^ 32)

def secondaries (sent : ℕ → Bytes) (n k : ℕ) : List Bytes :=
  (range k).map fun i => sent (n - (i + 1))

lemma secondaryCount_le (c : EcConf) (n : ℕ) : secondaryCount c n ≤ c.entries ∧ secondaryCount c n ≤ n := by
  unfold secondaryCount redundancyEntries
  split_ifs <;> omega

variable {n expected buflen bound i : ℕ} {c : EcConf} {sent : ℕ → Bytes} {ds : List Bytes} {s : RxState}
  {ns : List ℕ}

lemma ringOf_back (sent : ℕ → Bytes) (hi : i < 15) (hn : i < n) :
    ringOf sent n ((((n % 65536 % 16 : ℕ) : ℤ) - i - 1) % 16).toNat = some (sent (n - (i + 1))) := by
  have hback : (((n : ℤ) - ((((n % 65536 % 16 : ℕ) : ℤ) - i - 1) % 16).toNat) % 16).toNat = i + 1 := by omega
  simp only [ringOf, hback]
  rw [if_pos (by omega)]

lemma datagramOf_redundant (hc : c.scheme = .redundancy) (hent : c.entries < 15) (hne : ∀ q ≤ n, sent q ≠ []) :
    datagramOf c sent n = seqOctets (n % 65536) ++ openType (sent n) ++
      0x00 :: ((encodeLength (secondaryCount c n)).1 ++
        (secondaries sent n (secondaryCount c n)).flatMap openType) := by
  obtain ⟨hk, hkn⟩ := secondaryCount_le c n
  have helems : (recoveryData c (ringOf sent n) (n % 2 ^ 32) (n % 65536)).2.flatMap
      (fun d => openType (wire (d.getD []))) = (secondaries sent n (secondaryCount c n)).flatMap openType := by
    simp only [recoveryData, hc, secondaries, flatMap_map]
    refine flatMap_congr fun i hi => ?_
    have hi' : i < secondaryCount c n := mem_range.mp hi
    rw [ringOf_back sent (by omega) (by omega), Option.getD_some, wire, if_neg (hne _ (sub_le _ _))]
  have hhead : (recoveryData c (ringOf sent n) (n % 2 ^ 32) (n % 65536)).1 =
      0x00 :: (encodeLength (secondaryCount c n)).1 := by
    simp [recoveryData, hc, secondaryCount]
  simp only [datagramOf, helems, hhead, append_assoc, cons_append]

/-! ## Decoding the secondary packets -/

lemma decodeSecondaries_flatMap (hds : ∀ d ∈ ds, d ≠ [] ∧ d.length < 0x4000) (bufs : List Bytes)
    (hlen : bufs.length + ds.length ≤ 15) (tail : Bytes) :
    decodeSecondaries ds.length bufs (ds.flatMap openType ++ tail) = some (bufs ++ ds, tail) := by
  induction ds generalizing bufs with
  | nil => simp [decodeSecondaries]
  | cons d ds ih =>
    simp only [length_cons] at hlen
    have hd := hds d (by simp)
    simp only [length_cons, decodeSecondaries, if_pos (show bufs.length < 15 by omega),
      flatMap_cons, append_assoc, decodeOpenType_openType hd.2, if_neg hd.1]
    have hlen' : (bufs ++ [d]).length + ds.length ≤ 15 := by
      simp only [length_append, length_singleton]
      omega
    rw [ih (fun e he => hds e (by simp [he])) _ hlen', append_assoc, singleton_append]

lemma decodeGroups_flatMap (hds : ∀ d ∈ ds, d ≠ [] ∧ d.length < 0x4000) (hlen : ds.length ≤ 15) :
    decodeGroups ((encodeLength ds.length).1 ++ ds.flatMap openType).length []
      ((encodeLength ds.length).1 ++ ds.flatMap openType) = some ds := by
  have hdec := decodeLength_encodeLength (show ds.length < 0x4000 by omega) (ds.flatMap openType)
  cases hfuel : ((encodeLength ds.length).1 ++ ds.flatMap openType).length with
  | zero =>
    rw [length_eq_zero_iff] at hfuel
    rw [hfuel] at hdec
    simp [decodeLength] at hdec
  | succ fuel =>
    have hds' := decodeSecondaries_flatMap hds [] (by simpa using hlen) []
    simp only [append_nil] at hds'
    simp [decodeGroups, hdec, hds']

lemma rxPacket_redundant (hc : c.scheme = .redundancy) (hent : c.entries < 15) (hne : ∀ q ≤ n, sent q ≠ [])
    (hlen : ∀ q, (sent q).length ≤ localFaxMaxDatagram) (s : RxState) :
    rxPacket s (datagramOf c sent n) =
      finishPacket { s with rxSeqNo := (unwrapSeqNo s.rxSeqNo (n % 65536)).2 }
        (unwrapSeqNo s.rxSeqNo (n % 65536)).1 (sent n)
        (if (unwrapSeqNo s.rxSeqNo (n % 65536)).2 < (unwrapSeqNo s.rxSeqNo (n % 65536)).1 then
          recoverSecondaries (unwrapSeqNo s.rxSeqNo (n % 65536)).2
            (unwrapSeqNo s.rxSeqNo (n % 65536)).1 (secondaries sent n (secondaryCount c n))
        else []) := by
  obtain ⟨hk, hkn⟩ := secondaryCount_le c n
  have hsec : ∀ d ∈ secondaries sent n (secondaryCount c n), d ≠ [] ∧ d.length < 0x4000 := by
    intro d hd
    obtain ⟨i, -, rfl⟩ := mem_map.mp hd
    exact ⟨hne _ (sub_le _ _), lt_of_le_of_lt (hlen _) (by decide)⟩
  have hcnt : (secondaries sent n (secondaryCount c n)).length = secondaryCount c n := by simp [secondaries]
  have hgroups := decodeGroups_flatMap hsec (by omega)
  rw [hcnt] at hgroups
  rw [datagramOf_redundant hc hent hne, rxPacket, rxHeader_packet s (mod_lt _ (by decide)) (hlen n)]
  simp only [show decide ((0x00 : UInt8).toNat &&& 0x80 ≠ 0) = false from rfl, Bool.false_eq_true,
    if_false, rxSecondary, hgroups]
  split_ifs <;> rfl

/-! ## The frames of the secondary packets -/

/-- The frames of the secondary packets, by number. Induction on how many there are. -/
lemma map_recoverSecondaries (sent : ℕ → Bytes) {rx seq k : ℕ} (hdiff : (seq : ℤ) - rx = n - expected)
    (hseq : seq % 65536 = n % 65536) (hks : k ≤ seq) (hk15 : k ≤ 15) (hkn : k ≤ n) (hsml : seq < 2 ^ 32) :
    (recoverSecondaries rx seq (secondaries sent n k)).map (fun f => (f.number n, f.data)) =
      ((List.range' (n - k) k).filter (expected ≤ ·)).map fun q : ℕ => ((q : ℤ), sent q) := by
  induction k with
  | zero => simp [recoverSecondaries, secondaries]
  | succ k ih =>
    have ih := ih (by omega) (by omega) (by omega)
    have hspl : secondaries sent n (k + 1) = secondaries sent n k ++ [sent (n - (k + 1))] := by
      simp [secondaries, range_succ]
    have hlen : (secondaries sent n k).length = k := by simp [secondaries]
    have hrng : List.range' (n - (k + 1)) (k + 1) = (n - (k + 1)) :: List.range' (n - k) k := by
      rw [range'_succ, show n - (k + 1) + 1 = n - k by omega]
    have hmod : ((seq : ℤ) - (1 + k : ℕ)) % 2 ^ 32 = seq - (1 + k : ℕ) :=
      Int.emod_eq_of_lt (by omega) (by omega)
    have hcmp : (rx : ℤ) ≤ seq - (1 + k : ℕ) ↔ expected ≤ n - (k + 1) := by omega
    have hnum : (n : ℤ) - ((n : ℤ) - ((seq : ℤ) - (1 + k : ℕ))) % 65536 = (n - (k + 1) : ℕ) := by omega
    simp only [recoverSecondaries, hspl, zipIdx_append, hlen, zipIdx_cons,
      zipIdx_nil, reverse_append, reverse_singleton, singleton_append,
      filterMap_cons, hmod, hrng, filter_cons]
    by_cases hle : expected ≤ n - (k + 1)
    · simp only [hcmp.mpr hle, if_true, hle, map_cons, Frame.number, hnum]
      exact congrArg _ ih
    · simp only [mt hcmp.mp hle, hle]
      exact ih

/-! ## Runs -/

/-- The abstract receiver on one packet: the numbers delivered when number `n` arrives with `k`
secondary packets. -/
def deliveredBy (expected n k : ℕ) : List ℕ := (List.range' (n - k) (k + 1)).filter (expected ≤ ·)

lemma rxPacket_delivers (hc : c.scheme = .redundancy) (hent : c.entries < 15) (hne : ∀ q ≤ n, sent q ≠ [])
    (hlen : ∀ q, (sent q).length ≤ localFaxMaxDatagram) (ht : TracksExpected s.rxSeqNo expected)
    (hin : InStep expected n) :
    handedUp n (rxPacket s (datagramOf c sent n)).1 =
        (deliveredBy expected n (secondaryCount c n)).map (fun q : ℕ => ((q : ℤ), sent q)) ∧
      TracksExpected (rxPacket s (datagramOf c sent n)).2.rxSeqNo (n + 1) := by
  obtain ⟨hk, hkn⟩ := secondaryCount_le c n
  obtain ⟨hdiff, hseq, hmin, hnext⟩ := unwrapSeqNo_spec ht hin
  have hsml : (unwrapSeqNo s.rxSeqNo (n % 65536)).1 < 2 ^ 32 := by
    rw [unwrapSeqNo_eq]
    split_ifs <;> simp only <;> omega
  rw [rxPacket_redundant hc hent hne hlen]
  generalize unwrapSeqNo s.rxSeqNo (n % 65536) = u at *
  refine ⟨?_, hnext⟩
  have hsec := map_recoverSecondaries sent hdiff hseq (k := secondaryCount c n) (by omega) (by omega) hkn hsml
  have hrng : List.range' (n - secondaryCount c n) (secondaryCount c n + 1) =
      List.range' (n - secondaryCount c n) (secondaryCount c n) ++ [n] := by
    rw [range'_1_concat, Nat.sub_add_cancel hkn]
  have hnum : (n : ℤ) - ((n : ℤ) - (u.1 : ℤ)) % 65536 = n := by omega
  have hprim : u.2 ≤ u.1 ↔ expected ≤ n := by omega
  simp only [handedUp, finishPacket, Option.getD_some, map_append, deliveredBy, hrng, filter_append, hprim]
  congr 1
  · split_ifs with hlt
    · exact hsec
    · -- nothing below the packet itself is expected any more
      rw [filter_eq_nil_iff.mpr fun q hq => ?_]
      · rfl
      · have := mem_range'_1.mp hq
        simp only [decide_eq_true_eq]
        omega
  · by_cases hle : expected ≤ n
    · simp [hle, Frame.number, hnum]
    · simp [hle]

def delivered (k : ℕ → ℕ) : ℕ → List ℕ → List ℕ
  | _, [] => []
  | expected, n :: ns => deliveredBy expected n (k n) ++ delivered k (n + 1) ns

abbrev InStepRun : ℕ → List ℕ → Prop := Each (total fun _ n => n + 1) InStep

lemma UnwrapsRun.inStepRun (h : UnwrapsRun expected ns) (hsrt : ns.Pairwise (· < ·))
    (hfst : ∀ n ∈ ns, expected ≤ n) : InStepRun expected ns := by
  induction ns generalizing expected with
  | nil => trivial
  | cons n ns ih =>
    obtain ⟨hlt, hsrt⟩ := pairwise_cons.mp hsrt
    exact ⟨.inl ⟨hfst n (by simp), h.1⟩, fun _ hs => by cases hs; exact ih (h.2 _ rfl) hsrt hlt⟩

lemma deliveries_eq (hc : c.scheme = .redundancy) (hent : c.entries < 15)
    (hlen : ∀ q, (sent q).length ≤ localFaxMaxDatagram) (hne : ∀ n ∈ ns, ∀ q ≤ n, sent q ≠ [])
    (ht : TracksExpected s.rxSeqNo expected) (hin : InStepRun expected ns) :
    deliveries s (ns.map fun n => (n, datagramOf c sent n)) =
      (delivered (secondaryCount c) expected ns).map fun q : ℕ => ((q : ℤ), sent q) := by
  induction ns generalizing s expected with
  | nil => rfl
  | cons n ns ih =>
    obtain ⟨hstep, hnext⟩ := rxPacket_delivers hc hent (hne n (by simp)) hlen ht hin.1
    simp only [map_cons, deliveries, delivered, map_append, hstep]
    rw [ih (fun m hm => hne m (by simp [hm])) hnext (hin.2 _ rfl)]

/-! ## The abstract receiver -/

section Abstract

variable {k : ℕ → ℕ}

variable {expected q : ℕ} {ns : List ℕ}

lemma mem_deliveredBy {n j : ℕ} : q ∈ deliveredBy expected n j ↔ expected ≤ q ∧ n - j ≤ q ∧ q < n - j + (j + 1) := by
  simp only [deliveredBy, mem_filter, mem_range'_1, decide_eq_true_eq]
  exact and_comm

lemma deliveredBy_pairwise (expected n j : ℕ) : (deliveredBy expected n j).Pairwise (· < ·) :=
  (pairwise_lt_range' ..).filter _

/-- Nothing below the expected number is delivered in step. Induction on the run. -/
lemma le_of_mem_delivered (hin : InStepRun expected ns) (hq : q ∈ delivered k expected ns) : expected ≤ q := by
  induction ns generalizing expected with
  | nil => simp [delivered] at hq
  | cons n ns ih =>
    rcases mem_append.mp hq with hq | hq
    · exact (mem_deliveredBy.mp hq).1
    have hle : n + 1 ≤ q := ih (hin.2 _ rfl) hq
    rcases hin.1 with ⟨hexp, -⟩ | ⟨hexp, -⟩ <;> omega

/-- Delivered numbers increase along a run in step. Induction on the run; what one packet delivers
is below the number expected afterwards. -/
lemma delivered_pairwise (hk : ∀ n, k n ≤ n) (hin : InStepRun expected ns) :
    (delivered k expected ns).Pairwise (· < ·) := by
  induction ns generalizing expected with
  | nil => exact List.Pairwise.nil
  | cons n ns ih =>
    refine pairwise_append.mpr ⟨deliveredBy_pairwise _ _ _, ih (hin.2 _ rfl), fun a ha b hb => ?_⟩
    have hn := (mem_deliveredBy.mp ha).2.2
    have hb : n + 1 ≤ b := le_of_mem_delivered (hin.2 _ rfl) hb
    have := hk n
    omega

/-- What is delivered along a run without copies: a number is delivered exactly when the first
packet to arrive that is not before it carries it. Induction on the run. -/
lemma mem_delivered (hk : ∀ n, k n ≤ n) (hsrt : ns.Pairwise (· < ·)) (hfst : ∀ n ∈ ns, expected ≤ n) :
    q ∈ delivered k expected ns ↔ expected ≤ q ∧ ∃ n ∈ ns, q ≤ n ∧ n ≤ q + k n ∧ ∀ m ∈ ns, m < n → m < q := by
  induction ns generalizing expected with
  | nil => simp [delivered]
  | cons n ns ih =>
    obtain ⟨hlt, hsrt⟩ := pairwise_cons.mp hsrt
    have hkn := hk n
    have hexp := hfst n (by simp)
    rw [delivered, mem_append, ih hsrt fun m hm => hlt m hm, mem_deliveredBy]
    constructor
    · rintro (⟨he, hlo, hhi⟩ | ⟨hnq, n', hn', hle, hcar, hbef⟩)
      · refine ⟨he, n, by simp, by omega, by omega, fun m hm hmn => ?_⟩
        rcases mem_cons.mp hm with rfl | hm
        · omega
        · have := hlt m hm
          omega
      · refine ⟨by omega, n', by simp [hn'], hle, hcar, fun m hm hmn => ?_⟩
        rcases mem_cons.mp hm with rfl | hm
        · omega
        · exact hbef m hm hmn
    · rintro ⟨he, n', hn', hle, hcar, hbef⟩
      rcases mem_cons.mp hn' with rfl | hn'
      · exact .inl ⟨he, by omega, by omega⟩
      · have hnq := hbef n (by simp) (hlt n' hn')
        exact .inr ⟨hnq, n', hn', hle, hcar, fun m hm => hbef m (by simp [hm])⟩

end Abstract

/-! ## Main results -/

section Session

variable (c : EcConf) (buflen : ℕ) (ifps : List Ifp)

lemma deliveries_sendAll {c : EcConf} (hc : c.scheme = .redundancy)
    (hent : c.entries ≤ maxFecEntries) {buflen : ℕ} {ifps : List Ifp}
    {arrivals : List (Fin (sendAll c buflen TxState.new ifps).length)}
    (hin : InStepRun 0 (arrivals.map Fin.val)) :
    deliveries RxState.new (received (sendAll c buflen TxState.new ifps) arrivals) =
      (delivered (secondaryCount c) 0 (arrivals.map Fin.val)).map fun q : ℕ =>
        ((q : ℤ), sentOctets ((sendAll c buflen TxState.new ifps).map Prod.fst) q) := by
  rw [received_sendAll]
  have hent' : c.entries < 15 := lt_of_le_of_lt hent (by decide)
  refine deliveries_eq hc hent' (length_sentOctets_le _) (fun n hn q hq => ?_) rfl hin
  obtain ⟨i, -, rfl⟩ := mem_map.mp hn
  refine sentOctets_ne_nil ?_
  rw [length_map]
  exact lt_of_le_of_lt hq i.isLt

/-- **No packet is delivered twice** when the packets arrive in the order they were sent, with any
losses that the receiver unwraps rightly, and each any number of times in a row. -/
theorem redundancy_deliveries_increasing (hc : c.scheme = .redundancy)
    (hent : c.entries ≤ maxFecEntries)
    (arrivals : List (Fin (sendAll c buflen TxState.new ifps).length))
    (hin : InStepRun 0 (arrivals.map Fin.val)) :
    ((deliveries RxState.new (received (sendAll c buflen TxState.new ifps) arrivals)).map
      Prod.fst).Pairwise (· < ·) := by
  rw [deliveries_sendAll hc hent hin, map_map, pairwise_map]
  exact (delivered_pairwise (fun n => (secondaryCount_le c n).2) hin).imp fun h =>
    Int.ofNat_lt.mpr h

/-- **The round trip in redundancy mode.** When the packets arrive in the order they were sent, with
losses that can be unwrapped, the numbers handed up increase strictly, and an IFP is handed up, with
the octets that were sent, exactly when its packet arrives or it is among the secondary packets of
the next one to arrive. -/
theorem redundancy_roundTrip (hc : c.scheme = .redundancy) (hent : c.entries ≤ maxFecEntries)
    (arrivals : List (Fin (sendAll c buflen TxState.new ifps).length))
    (hsorted : arrivals.Pairwise (· < ·)) (hunwraps : UnwrapsRun 0 (arrivals.map Fin.val)) :
    ((deliveries RxState.new (received (sendAll c buflen TxState.new ifps) arrivals)).map
      Prod.fst).Pairwise (· < ·) ∧
    ∀ q data, (q, data) ∈ deliveries RxState.new
        (received (sendAll c buflen TxState.new ifps) arrivals) ↔
      ∃ i : Fin (sendAll c buflen TxState.new ifps).length,
        q = i.val ∧ data = ((sendAll c buflen TxState.new ifps).get i).1.octets ∧
          ∃ n ∈ arrivals, i ≤ n ∧ n.val ≤ i.val + secondaryCount c n ∧ ∀ m ∈ arrivals, m < n → m < i := by
  have hsorted' : (arrivals.map Fin.val).Pairwise (· < ·) := pairwise_map.mpr hsorted
  have hin := hunwraps.inStepRun hsorted' fun _ _ => zero_le _
  have hk := fun n => (secondaryCount_le c n).2
  rw [deliveries_sendAll hc hent hin]
  refine ⟨?_, fun q data => ?_⟩
  · rw [map_map, pairwise_map]
    exact (delivered_pairwise hk hin).imp fun h => Int.ofNat_lt.mpr h
  simp only [mem_map, Prod.mk.injEq, mem_delivered hk hsorted' fun _ _ => zero_le _, zero_le, true_and]
  have hoctets : ∀ i : Fin (sendAll c buflen TxState.new ifps).length,
      sentOctets ((sendAll c buflen TxState.new ifps).map Prod.fst) i =
        ((sendAll c buflen TxState.new ifps).get i).1.octets := by
    simp [sentOctets]
  constructor
  · rintro ⟨r, ⟨n, ⟨n, hn, rfl⟩, hle, hcar, hbef⟩, rfl, rfl⟩
    have hr : r < (sendAll c buflen TxState.new ifps).length := lt_of_le_of_lt hle n.isLt
    refine ⟨⟨r, hr⟩, rfl, hoctets ⟨r, hr⟩, n, hn, hle, hcar, fun m hm hmn => ?_⟩
    exact hbef m ⟨m, hm, rfl⟩ hmn
  · rintro ⟨i, rfl, rfl, n, hn, hle, hcar, hbef⟩
    refine ⟨i, ⟨n, ⟨n, hn, rfl⟩, hle, hcar, ?_⟩, rfl, hoctets i⟩
    rintro m ⟨m, hm, rfl⟩ hmn
    exact hbef m hm hmn

end Session

/-- Packets 0, 2 and 2 again of three, with one secondary packet each: 0, 1 and 2 are delivered. -/
theorem redundancy_deliveries_increasing_copies :
    InStepRun 0 [0, 2, 2] ∧
    ((deliveries RxState.new (received (sendAll ⟨.redundancy, 1, 3⟩ 100 TxState.new
      [.single 1, .single 2, .single 3]) [⟨0, by decide⟩, ⟨2, by decide⟩, ⟨2, by decide⟩])).map
        Prod.fst).Pairwise (· < ·) :=
  ⟨by decide, redundancy_deliveries_increasing _ _ _ rfl (by decide) _ (by decide)⟩

/-- Packet 1 brings packet 0 along; when packet 0 itself arrives the expected number goes back to 1,
and packet 2 brings packet 1 along once more. -/
theorem redundancy_redelivers :
    (deliveries RxState.new (received (sendAll ⟨.redundancy, 1, 3⟩ 100 TxState.new
      [.single 1, .single 2, .single 3]) [⟨1, by decide⟩, ⟨0, by decide⟩, ⟨2, by decide⟩])) =
        [(0, [1]), (1, [2]), (1, [2]), (2, [3])] := by
  decide

/-- Packets 1 and 3 of four, with one secondary packet each. -/
theorem redundancy_roundTrip_losses :
    UnwrapsRun 0 [1, 3] ∧
    ((3 : ℤ), [(4 : UInt8)]) ∈ deliveries RxState.new
      (received (fourSent ⟨.redundancy, 1, 3⟩) [⟨1, by decide⟩, ⟨3, by decide⟩]) :=
  ⟨by decide, ((redundancy_roundTrip ⟨.redundancy, 1, 3⟩ 100
    [.single 1, .single 2, .single 3, .single 4] rfl (by decide) [⟨1, by decide⟩, ⟨3, by decide⟩]
    (by decide) (by decide)).2 3 [4]).mpr ⟨⟨3, by decide⟩, rfl, rfl, ⟨3, by decide⟩, by decide,
      by decide, by decide, by decide⟩⟩

/-! ## A loss around a wrap -/

lemma length_openType_le (data : Bytes) : (openType data).length ≤ data.length + 2 := by
  unfold openType encodeLength
  split_ifs <;> simp only [length_append, length_cons, length_nil] <;> omega

/-- Encoding succeeds when the buffer has room for every element and two octets of length each.
Induction on the elements. -/
lemma encodeAll_isSome (hbd : bound ≤ localFaxMaxDatagram) {elements : List (Option Bytes)}
    (helems : ∀ d ∈ elements, ∃ data : Bytes, d = some data ∧ data ≠ [] ∧ data.length ≤ bound) {out : Bytes}
    (hbuf : out.length + elements.length * (bound + 2) ≤ buflen) :
    ∃ p, encodeAll buflen out elements = some p := by
  induction elements generalizing out with
  | nil => exact ⟨out, rfl⟩
  | cons d elements ih =>
    obtain ⟨data, rfl, hne, hlen⟩ := helems d (by simp)
    have hopen := length_openType_le data
    simp only [length_cons, Nat.add_mul] at hbuf
    have henc : encodeOpenType buflen out data = some (out ++ openType data) := by
      rw [encodeOpenType_of_lt hne (lt_of_le_of_lt (hlen.trans hbd) (by decide)), if_neg]
      simp only [length_append]
      omega
    have hroom : (out ++ openType data).length + elements.length * (bound + 2) ≤ buflen := by
      simp only [length_append]
      omega
    obtain ⟨p, hp⟩ := ih (fun e he => helems e (by simp [he])) hroom
    exact ⟨p, by simpa [encodeAll_cons, henc] using hp⟩

section

variable (hc : c.scheme = .redundancy) (hent : c.entries ≤ maxFecEntries) (hbd : bound ≤ localFaxMaxDatagram)
  (hbuf : 5 + (bound + 2) * (maxFecEntries + 1) ≤ buflen)
include hc hent hbd hbuf

lemma encodePacket_redundant {sent : List Ifp} {ifp : Ifp} (hall : ∀ i ∈ sent ++ [ifp], i.octets.length ≤ bound) :
    ∃ p, encodePacket c buflen sent ifp = some p := by
  have hifp := hall ifp (by simp)
  have hopen := length_openType_le ifp.octets
  obtain ⟨hk, hkn⟩ := secondaryCount_le c sent.length
  have hmul : secondaryCount c sent.length * (bound + 2) ≤ maxFecEntries * (bound + 2) :=
    mul_le_mul_right _ (hk.trans hent)
  simp only [maxFecEntries] at hmul hbuf hent
  have hout : encodeOpenType buflen (seqOctets (sent.length % 65536)) ifp.octets =
      some (seqOctets (sent.length % 65536) ++ openType ifp.octets) := by
    rw [encodeOpenType_of_lt ifp.ne_nil (lt_of_le_of_lt ifp.length_le (by decide)), if_neg]
    simp only [seqOctets, length_append, length_cons, length_nil]
    omega
  simp only [encodePacket, hout]
  refine encodeAll_isSome hbd (fun d hd => ?_) ?_
  · simp only [recoveryData, hc, mem_map, mem_range] at hd
    obtain ⟨i, hi, rfl⟩ := hd
    have hi' : i < secondaryCount c sent.length := hi
    refine ⟨_, ringOf_back _ (by omega) (by omega), ?_⟩
    have hq : sent.length - (i + 1) < (sent ++ [ifp]).length := by
      rw [length_append]
      omega
    refine ⟨sentOctets_ne_nil hq, ?_⟩
    rw [sentOctets, getElem?_eq_getElem hq]
    exact hall _ (getElem_mem hq)
  · have hcnt : redundancyEntries c (sent.length % 2 ^ 32) = secondaryCount c sent.length := rfl
    have hhead : (encodeLength (secondaryCount c sent.length)).1.length = 1 := by
      rw [encodeLength, if_pos (by omega)]
      rfl
    simp only [recoveryData, hc, seqOctets, length_append, length_cons, length_nil, length_map, length_range, hcnt]
    omega

lemma TxInv.map_fst_sendAll {ifps sent : List Ifp} {s : TxState} (h : TxInv sent s)
    (hall : ∀ i ∈ sent ++ ifps, i.octets.length ≤ bound) :
    (sendAll c buflen s ifps).map Prod.fst = ifps := by
  induction ifps generalizing sent s with
  | nil => rfl
  | cons ifp ifps ih =>
    rw [append_cons] at hall
    have hfst : ∀ i ∈ sent ++ [ifp], i.octets.length ≤ bound :=
      fun i hi => hall i (mem_append_left _ hi)
    obtain ⟨p, hp⟩ := encodePacket_redundant hc hent hbd hbuf hfst
    rw [sendAll, h.udptlBuildPacket_eq, hp]
    simp only [map_cons, Option.isSome_some, if_true]
    rw [ih (h.succeeded ifp) hall]

end

lemma not_mem_deliveries_wrap (hc : c.scheme = .redundancy) (hent : c.entries ≤ maxFecEntries)
    (hlen : ∀ q, (sent q).length ≤ localFaxMaxDatagram) (hne : ∀ q ≤ 65536, sent q ≠ []) (data : Bytes) :
    ((65536 : ℤ), data) ∉ deliveries RxState.new
      [(65519, datagramOf c sent 65519), (65536, datagramOf c sent 65536)] := by
  have hent' : c.entries < 15 := lt_of_le_of_lt hent (by decide)
  have hnew : TracksExpected RxState.new.rxSeqNo 0 := rfl
  obtain ⟨hfst, htrack⟩ := rxPacket_delivers hc hent' (n := 65519)
    (fun q hq => hne q (by omega)) hlen hnew (by decide)
  simp only [deliveries, mem_append, not_or]
  constructor
  · rw [hfst]
    simp only [mem_map, Prod.mk.injEq, not_exists, not_and]
    intro q hq hq'
    have hlast := (mem_deliveredBy.mp hq).2.2
    have hk := (secondaryCount_le c 65519).2
    omega
  · rw [rxPacket_redundant hc hent' hne hlen, htrack]
    simp [unwrapSeqNo_eq, finishPacket, handedUp]

/-- Of 65537 packets the ones numbered 65519 and 65536 arrive, and the second is never handed up. -/
theorem redundancy_loses_primary :
    ∃ (ifps : List Ifp) (arrivals : List (Fin (sendAll ⟨.redundancy, 1, 3⟩ 100 TxState.new
        ifps).length)), arrivals.Pairwise (· < ·) ∧ ∃ n ∈ arrivals, ∀ data,
      ((n.val : ℤ), data) ∉ deliveries RxState.new
        (received (sendAll ⟨.redundancy, 1, 3⟩ 100 TxState.new ifps) arrivals) := by
  obtain ⟨ifps, hcnt, hsgl⟩ : ∃ ifps : List Ifp, ifps.length = 65537 ∧ ∀ i ∈ ifps, i.octets.length ≤ 1 :=
    ⟨replicate 65537 (.single 7), length_replicate, fun i hi => by
      rw [eq_of_mem_replicate hi]; decide⟩
  have hroom : 5 + (1 + 2) * (maxFecEntries + 1) ≤ 100 := by decide
  have hsent := txInv_new.map_fst_sendAll (c := ⟨.redundancy, 1, 3⟩) rfl (by decide) (by decide) hroom hsgl
  have hlen : (sendAll ⟨.redundancy, 1, 3⟩ 100 TxState.new ifps).length = 65537 := by
    rw [← hcnt, ← congrArg List.length hsent, length_map]
  refine ⟨ifps, [⟨65519, by omega⟩, ⟨65536, by omega⟩], by simp, ⟨65536, by omega⟩, by simp, ?_⟩
  intro data
  rw [received_sendAll, hsent]
  exact not_mem_deliveries_wrap rfl (by decide) (length_sentOctets_le ifps)
    (fun q hq => sentOctets_ne_nil (by omega)) data

end Telephony.Udptl
