import Telephony.Udptl.Receive

/-!
# Sending UDPTL packets

`udptl_build_packet` of `main/udptl.c`. The sender keeps the last sixteen IFPs in a ring, by
sequence number modulo 16, and computes the secondary packets or the parity data of a packet from
it. A packet that does not fit its buffer is not sent: its IFP stays in the ring, and the next IFP
takes its number and its slot.
-/

namespace Telephony.Udptl

open Lib List Function Nat

/-! ## Data model -/

/-- An IFP as the callers of `udptl_build_packet` supply it: not empty, and not longer than the
buffers of the ring.
Source: `ast_udptl_write` (`f->datalen == 0`), `udptl_fec_tx_buffer_t` -/
structure Ifp where
  octets : Bytes
  ne_nil : octets ≠ []
  length_le : octets.length ≤ localFaxMaxDatagram

def Ifp.single (b : UInt8) : Ifp := ⟨[b], by simp, by simp [localFaxMaxDatagram]⟩

/-- Source: `enum ast_t38_ec_modes` as in `s->error_correction_scheme` -/
inductive EcScheme
  | none
  | redundancy
  | fec
  deriving DecidableEq, Repr

/-- Source: `struct ast_udptl` (`error_correction_*`) -/
structure EcConf where
  scheme : EcScheme
  entries : ℕ
  span : ℕ

/-- The sending half of a session. A slot that was never written (`buf_len == -1`) is `none`.
Source: `struct ast_udptl` (`tx_seq_no`, `tx`) -/
structure TxState where
  txSeqNo : ℕ
  tx : ℕ → Option Bytes

/-- Source: `ast_udptl_new_with_bindaddr` -/
def TxState.new : TxState where
  txSeqNo := 0
  tx _ := none

/-! ## Building a packet -/

/-- Source: `udptl_build_packet` ("Encode the sequence number") -/
def seqOctets (seq : ℕ) : Bytes := [UInt8.ofNat ((seq >>> 8) &&& 0xFF), UInt8.ofNat (seq &&& 0xFF)]

/-- Add one IFP to the parity octets; their number is `high_tide`.
Source: `udptl_build_packet` (`if (high_tide < s->tx[i].buf_len)`) -/
def fecMix (acc data : Bytes) : Bytes :=
  if acc.length < data.length then zipWith (· ^^^ ·) acc data ++ data.drop acc.length
  else zipWith (· ^^^ ·) acc data ++ acc.drop data.length

/-- The parity octets of the given slots. Slots that were never written have no octets.
Source: `udptl_build_packet` ("Make an XOR'ed entry") -/
def fecEntry (tx : ℕ → Option Bytes) (walk : List ℕ) : Bytes :=
  walk.foldl (fun acc i => fecMix acc ((tx i).getD [])) []

/-- Span and entries, wound up smoothly in the initial stages.
Source: `udptl_build_packet` ("In the initial stages") -/
def fecParams (c : EcConf) (seq : ℕ) : ℕ × ℕ :=
  if seq < c.span * c.entries then (if seq < c.span then 0 else c.span, seq / c.span)
  else (c.span, c.entries)

/-- Source: `udptl_build_packet` (`if (s->tx_seq_no > s->error_correction_entries)`) -/
def redundancyEntries (c : EcConf) (txSeqNo : ℕ) : ℕ :=
  if c.entries < txSeqNo then c.entries else txSeqNo

/-- The octets that announce the error recovery part, and the octet strings to be encoded behind
them. An unwritten slot among the secondary packets is `none`.
Source: `udptl_build_packet` ("Encode the appropriate type") -/
def recoveryData (c : EcConf) (tx : ℕ → Option Bytes) (txSeqNo seq : ℕ) : Bytes × List (Option Bytes) :=
  match c.scheme with
  | .none => (0x00 :: (encodeLength 0).1, [])
  | .redundancy =>
    let entries := redundancyEntries c txSeqNo
    (0x00 :: (encodeLength entries).1,
      (range entries).map fun i : ℕ => tx ((((seq % 16 : ℕ) : ℤ) - (i : ℤ) - 1) % 16).toNat)
  | .fec =>
    let (span, entries) := fecParams c seq
    ([0x80, 1, UInt8.ofNat span, UInt8.ofNat entries],
      (range entries).map fun m => some (fecEntry tx (fecWalk (seq % 16) m span entries)))

/-- Append open types. The length of an unwritten slot (`-1`, unsigned) is announced in one octet,
and fits no packet buffer.
Source: `udptl_build_packet` ("Encode the elements") -/
def packAll (buflen : ℕ) : Bytes → List (Option Bytes) → Bytes × Bool
  | out, [] => (out, true)
  | out, none :: _ => (out ++ [0xC4], false)
  | out, some data :: elements =>
    let packed := packOpenType buflen out data
    if packed.2 then packAll buflen packed.1 elements else packed

def encodeAll (buflen : ℕ) (out : Bytes) (elements : List (Option Bytes)) : Option Bytes :=
  ofPacked (packAll buflen out elements)

/-- The octets in the packet buffer, whether they are a packet, the number of octets that were
copied to the ring, and the sender. -/
structure Built where
  out : Bytes
  done : Bool
  stored : ℕ
  tx : TxState

def Built.res (b : Built) : ℤ := if b.done then b.out.length else -1

/-- Source: `udptl_build_packet` -/
def buildPacket (c : EcConf) (buflen : ℕ) (s : TxState) (ifp : Bytes) : Built :=
  let seq := s.txSeqNo &&& 0xFFFF
  let s := { s with tx := update s.tx (seq % 16) (some ifp) }
  let primary := packOpenType buflen (seqOctets seq) ifp
  if primary.2 then
    let recovery := recoveryData c s.tx s.txSeqNo seq
    let packed := packAll buflen (primary.1 ++ recovery.1) recovery.2
    ⟨packed.1, packed.2, ifp.length, if packed.2 then { s with txSeqNo := (s.txSeqNo + 1) % 2 ^ 32 } else s⟩
  else ⟨primary.1, false, ifp.length, s⟩

/-- The packet for an IFP, or `none` for `-1`, and the new state. -/
def udptlBuildPacket (c : EcConf) (buflen : ℕ) (s : TxState) (ifp : Ifp) : Option Bytes × TxState :=
  let b := buildPacket c buflen s ifp.octets
  (ofPacked (b.out, b.done), b.tx)

def sendAll (c : EcConf) (buflen : ℕ) : TxState → List Ifp → List (Ifp × Bytes)
  | _, [] => []
  | s, ifp :: ifps =>
    match udptlBuildPacket c buflen s ifp with
    | (none, s) => sendAll c buflen s ifps
    | (some d, s) => (ifp, d) :: sendAll c buflen s ifps

/-! ## The packet of a number -/

/-- The octets behind a zero length string's encoding: an open type is never empty. -/
def wire (data : Bytes) : Bytes := if data = [] then [0] else data

/-- The ring when packet `n` is built: slot `x` holds the latest IFP up to `n` whose number is `x`
modulo 16. -/
def ringOf (sent : ℕ → Bytes) (n x : ℕ) : Option Bytes :=
  let back := (((n : ℤ) - x) % 16).toNat
  if back ≤ n then some (sent (n - back)) else none

def datagramOf (c : EcConf) (sent : ℕ → Bytes) (n : ℕ) : Bytes :=
  let recovery := recoveryData c (ringOf sent n) (n % 2 ^ 32) (n % 65536)
  seqOctets (n % 65536) ++ openType (sent n) ++ recovery.1 ++ recovery.2.flatMap fun d => openType (wire (d.getD []))

def sentOctets (sent : List Ifp) (q : ℕ) : Bytes := (sent[q]?).elim [] Ifp.octets

/-! ## Lengths -/

lemma length_fecMix (acc data : Bytes) : (fecMix acc data).length = max acc.length data.length := by
  unfold fecMix
  split_ifs with h
  all_goals
    simp only [length_append, length_zipWith, length_drop]
    omega

variable {tx tx' : ℕ → Option Bytes} {bound buflen q n x i : ℕ} {c : EcConf} {data out p : Bytes} {sent : List Ifp}
  {f g : ℕ → Bytes} {s : TxState}

lemma length_fecEntry_le {walk : List ℕ} (h : ∀ i ∈ walk, ((tx i).getD []).length ≤ bound) :
    (fecEntry tx walk).length ≤ bound := by
  refine List.foldlRecOn (motive := fun acc : Bytes => acc.length ≤ bound) _ _ (by simp) ?_
  intro acc hacc i hi
  rw [length_fecMix]
  exact max_le hacc (h i hi)

lemma length_recoveryData_le {txSeqNo seq : ℕ} (h : ∀ i < 16, ((tx i).getD []).length ≤ bound)
    {d : Option Bytes} (hd : d ∈ (recoveryData c tx txSeqNo seq).2) : (d.getD []).length ≤ bound := by
  unfold recoveryData at hd
  split at hd
  · simp at hd
  · obtain ⟨i, -, rfl⟩ := mem_map.mp hd
    exact h _ (by omega)
  · obtain ⟨m, -, rfl⟩ := mem_map.mp hd
    exact length_fecEntry_le fun i hi => h i (lt_of_mem_fecWalk hi)

lemma recoveryData_congr (h : ∀ i < 16, tx i = tx' i) (txSeqNo seq : ℕ) :
    recoveryData c tx txSeqNo seq = recoveryData c tx' txSeqNo seq := by
  have hfec : ∀ l m span entries,
      fecEntry tx (fecWalk l m span entries) = fecEntry tx' (fecWalk l m span entries) := by
    intro l m span entries
    refine foldl_ext _ _ _ fun acc i hi => ?_
    rw [h i (lt_of_mem_fecWalk hi)]
  unfold recoveryData
  split
  · rfl
  · simp only [Prod.mk.injEq, true_and]
    exact map_congr_left fun i _ => h _ (by omega)
  · simp [hfec]

/-! ## What is encoded -/

lemma wire_ne_nil (data : Bytes) : wire data ≠ [] := by
  unfold wire
  split_ifs with h <;> simp [h]

lemma length_wire_le (h : data.length ≤ bound) (hpos : 0 < bound) : (wire data).length ≤ bound := by
  unfold wire
  split_ifs
  · exact hpos
  · exact h

lemma encodeOpenType_eq_some (hlen : data.length ≤ localFaxMaxDatagram)
    (h : encodeOpenType buflen out data = some p) :
    p = out ++ openType (wire data) := by
  have hwire : encodeOpenType buflen out data = encodeOpenType buflen out (wire data) := by
    unfold wire
    split_ifs with hnil
    · subst hnil
      rfl
    · rfl
  have hlt : (wire data).length < 0x4000 :=
    lt_of_le_of_lt (length_wire_le hlen (by decide)) (by decide)
  rw [hwire, encodeOpenType_of_lt (wire_ne_nil data) hlt] at h
  split_ifs at h
  simpa using h.symm

lemma encodeAll_cons (d : Option Bytes) (elements : List (Option Bytes)) :
    encodeAll buflen out (d :: elements) =
      (d.bind (encodeOpenType buflen out)).bind fun out => encodeAll buflen out elements := by
  cases d with
  | none => rfl
  | some data =>
    simp only [encodeAll, encodeOpenType, packAll, Option.bind_some]
    cases hpacked : (packOpenType buflen out data).2 with
    | false => simp [ofPacked, hpacked]
    | true => simp [ofPacked, hpacked]

lemma encodeAll_eq_some {elements : List (Option Bytes)}
    (hlen : ∀ d ∈ elements, (d.getD []).length ≤ localFaxMaxDatagram)
    (h : encodeAll buflen out elements = some p) :
    p = out ++ elements.flatMap fun d => openType (wire (d.getD [])) := by
  induction elements generalizing out with
  | nil => simpa [encodeAll, packAll, ofPacked] using h.symm
  | cons d elements ih =>
    rw [encodeAll_cons] at h
    simp only [Option.bind_eq_some_iff] at h
    obtain ⟨out', ⟨data, rfl, hd⟩, h⟩ := h
    have hout := encodeOpenType_eq_some (by simpa using hlen (some data) (by simp)) hd
    rw [ih (fun d hd => hlen d (by simp [hd])) h, hout]
    simp

/-! ## Runs of the sender -/

/-- The state of the sender after the IFPs `sent`: the ring holds the latest ones, except for the
slot the next IFP will take. -/
structure TxInv (sent : List Ifp) (s : TxState) : Prop where
  txSeqNo_eq : s.txSeqNo = sent.length % 2 ^ 32
  tx_eq : ∀ x < 16, x ≠ sent.length % 16 → s.tx x = ringOf (sentOctets sent) sent.length x

lemma txInv_new : TxInv [] TxState.new := by
  refine ⟨rfl, fun x hx hne => ?_⟩
  simp only [length_nil] at hne
  simp only [TxState.new, ringOf, length_nil]
  rw [if_neg (by omega)]

lemma sentOctets_append_left (more : List Ifp) (h : q < sent.length) :
    sentOctets (sent ++ more) q = sentOctets sent q := by
  simp [sentOctets, getElem?_append_left h]

lemma sentOctets_append_cons (sent : List Ifp) (ifp : Ifp) (more : List Ifp) :
    sentOctets (sent ++ ifp :: more) sent.length = ifp.octets := by
  simp [sentOctets]

lemma length_sentOctets_le (sent : List Ifp) (q : ℕ) : (sentOctets sent q).length ≤ localFaxMaxDatagram := by
  unfold sentOctets
  cases sent[q]? with
  | none => simp
  | some ifp => exact ifp.length_le

lemma ringOf_congr (h : ∀ q ≤ n, f q = g q) (x : ℕ) : ringOf f n x = ringOf g n x := by
  simp only [ringOf]
  split_ifs with hb
  · rw [h _ (sub_le _ _)]
  · rfl

lemma datagramOf_congr (c : EcConf) (h : ∀ q ≤ n, f q = g q) : datagramOf c f n = datagramOf c g n := by
  unfold datagramOf
  rw [recoveryData_congr (fun x _ => ringOf_congr h x), h n le_rfl]

lemma ringOf_succ (sent : ℕ → Bytes) (hx : x < 16) (hne : x ≠ (n + 1) % 16) :
    ringOf sent (n + 1) x = ringOf sent n x := by
  have hback : ((((n + 1 : ℕ) : ℤ) - x) % 16).toNat = (((n : ℤ) - x) % 16).toNat + 1 := by omega
  simp only [ringOf, hback]
  simp

section

variable (h : TxInv sent s) (ifp : Ifp)
include h

lemma TxInv.stored (x : ℕ) (hx : x < 16) : update s.tx (sent.length % 16) (some ifp.octets) x =
      ringOf (sentOctets (sent ++ [ifp])) sent.length x := by
  by_cases hslot : x = sent.length % 16
  · subst hslot
    simp [ringOf, sentOctets_append_cons]
  rw [update_of_ne hslot, h.tx_eq x hx hslot]
  simp only [ringOf]
  split_ifs with hb
  · rw [sentOctets_append_left]
    omega
  · rfl

lemma TxInv.failed : TxInv sent { s with tx := update s.tx (sent.length % 16) (some ifp.octets) } :=
  ⟨h.txSeqNo_eq, fun x hx hne => by
    simp only [update_of_ne hne]
    exact h.tx_eq x hx hne⟩

lemma TxInv.succeeded :
    TxInv (sent ++ [ifp]) ⟨(s.txSeqNo + 1) % 2 ^ 32, update s.tx (sent.length % 16) (some ifp.octets)⟩ := by
  have hlen : (sent ++ [ifp]).length = sent.length + 1 := by simp
  refine ⟨?_, fun x hx hne => ?_⟩
  · simp only [h.txSeqNo_eq]
    omega
  · rw [hlen] at hne ⊢
    rw [ringOf_succ _ hx hne]
    exact h.stored ifp x hx

end

def encodePacket (c : EcConf) (buflen : ℕ) (sent : List Ifp) (ifp : Ifp) : Option Bytes :=
  let recovery := recoveryData c (ringOf (sentOctets (sent ++ [ifp])) sent.length)
    (sent.length % 2 ^ 32) (sent.length % 65536)
  (encodeOpenType buflen (seqOctets (sent.length % 65536)) ifp.octets).bind fun out =>
    encodeAll buflen (out ++ recovery.1) recovery.2

lemma encodePacket_eq_some {ifp : Ifp} (h : encodePacket c buflen sent ifp = some p) :
    p = datagramOf c (sentOctets (sent ++ [ifp])) sent.length := by
  obtain ⟨out, hout, hp⟩ := Option.bind_eq_some_iff.mp h
  have hring : ∀ i < 16, ((ringOf (sentOctets (sent ++ [ifp])) sent.length i).getD []).length ≤
      localFaxMaxDatagram := by
    intro i _
    simp only [ringOf]
    split_ifs
    · exact length_sentOctets_le _ _
    · simp
  have hwire : wire ifp.octets = ifp.octets := if_neg ifp.ne_nil
  rw [encodeAll_eq_some (fun d hd => length_recoveryData_le hring hd) hp,
    encodeOpenType_eq_some ifp.length_le hout, datagramOf, sentOctets_append_cons, hwire]

section

variable (h : TxInv sent s) (c : EcConf) (buflen : ℕ)
include h

lemma TxInv.udptlBuildPacket_eq (ifp : Ifp) : udptlBuildPacket c buflen s ifp = (encodePacket c buflen sent ifp,
        ⟨if (encodePacket c buflen sent ifp).isSome then (s.txSeqNo + 1) % 2 ^ 32 else s.txSeqNo,
          update s.tx (sent.length % 16) (some ifp.octets)⟩) := by
  have hseq : s.txSeqNo &&& 0xFFFF = sent.length % 65536 := by
    rw [h.txSeqNo_eq, show (0xFFFF : ℕ) = 2 ^ 16 - 1 from rfl, and_two_pow_sub_one_eq_mod]
    omega
  have hslot : sent.length % 65536 % 16 = sent.length % 16 := by omega
  have hdata := recoveryData_congr (c := c) (h.stored ifp) (sent.length % 2 ^ 32) (sent.length % 65536)
  simp only [udptlBuildPacket, buildPacket, encodePacket, encodeOpenType, encodeAll, hseq, hslot]
  rw [h.txSeqNo_eq, hdata]
  cases hpri : (packOpenType buflen (seqOctets (sent.length % 65536)) ifp.octets).2 with
  | false => simp [ofPacked, hpri]
  | true =>
    simp only [ofPacked, hpri, if_true, Option.bind_some]
    cases (packAll buflen _ _).2 with
    | false => rfl
    | true => rfl

lemma TxInv.build (ifp : Ifp) : (∃ s', udptlBuildPacket c buflen s ifp = (none, s') ∧ TxInv sent s') ∨
      ∃ s', udptlBuildPacket c buflen s ifp =
        (some (datagramOf c (sentOctets (sent ++ [ifp])) sent.length), s') ∧ TxInv (sent ++ [ifp]) s' := by
  rw [h.udptlBuildPacket_eq]
  cases hp : encodePacket c buflen sent ifp with
  | none => exact .inl ⟨_, rfl, h.failed ifp⟩
  | some p => exact .inr ⟨_, by rw [encodePacket_eq_some hp]; rfl, h.succeeded ifp⟩

lemma TxInv.getElem_sendAll (ifps : List Ifp) (hi : i < (sendAll c buflen s ifps).length) :
    (sendAll c buflen s ifps)[i].2 =
      datagramOf c (sentOctets (sent ++ (sendAll c buflen s ifps).map Prod.fst)) (sent.length + i) := by
  induction ifps generalizing sent s i with
  | nil => simp [sendAll] at hi
  | cons ifp ifps ih =>
    rcases h.build c buflen ifp with ⟨s', heq, hs'⟩ | ⟨s', heq, hs'⟩
    · simp only [sendAll, heq] at hi ⊢
      exact ih hs' hi
    simp only [sendAll, heq] at hi ⊢
    cases i with
    | zero =>
      simp only [map_cons]
      refine datagramOf_congr c fun q hq => ?_
      have hlt : q < (sent ++ [ifp]).length := by simpa using lt_succ_of_le hq
      rw [← sentOctets_append_left ((sendAll c buflen s' ifps).map Prod.fst) hlt, append_assoc, singleton_append]
    | succ i =>
      have := ih hs' (lt_of_succ_lt_succ hi)
      simp only [getElem_cons_succ]
      rw [this, append_assoc, length_append]
      simp only [length_singleton]
      congr 1
      omega

end

/-! ## What arrives -/

/-- The packets of a session that arrive, in the order of their arrival, each with its number. -/
def received (log : List (Ifp × Bytes)) (arrivals : List (Fin log.length)) : List (ℕ × Bytes) :=
  arrivals.map fun i => (i.val, (log.get i).2)

abbrev fourSent (c : EcConf) : List (Ifp × Bytes) :=
  sendAll c 100 TxState.new [.single 1, .single 2, .single 3, .single 4]

lemma received_sendAll (c : EcConf) (buflen : ℕ) (ifps : List Ifp)
    (arrivals : List (Fin (sendAll c buflen TxState.new ifps).length)) :
    received (sendAll c buflen TxState.new ifps) arrivals =
      (arrivals.map Fin.val).map fun n =>
        (n, datagramOf c (sentOctets ((sendAll c buflen TxState.new ifps).map Prod.fst)) n) := by
  simp only [map_map]
  refine map_congr_left fun i _ => ?_
  have h := txInv_new.getElem_sendAll c buflen ifps i.isLt
  simp [h]

lemma sentOctets_ne_nil (h : q < sent.length) : sentOctets sent q ≠ [] := by
  simp only [sentOctets, getElem?_eq_getElem h]
  exact (sent[q]).ne_nil

end Telephony.Udptl
