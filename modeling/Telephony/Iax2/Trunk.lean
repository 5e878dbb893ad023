import Telephony.Iax2.Elements
import Telephony.Lib.Loop
import Mathlib.Data.List.Infix

/-!
# IAX2 trunk frames

Mini frames of several calls between two hosts are put into one packet, a meta frame with a trunk
header. The entries of the packet have one of two headers, with or without a timestamp of their own.
-/

namespace Telephony.Iax2

open Lib List Nat

/-! ## The sender -/

/-- A mini frame that is put into a trunk packet: the call number, the timestamp and the voice data.
Source: `iax2_trunk_queue` (`pvt->callno`, `fr->ts`, `f->data`) -/
structure TrunkEntry where
  callno : UInt16
  ts : UInt32
  payload : List UInt8
  deriving DecidableEq, Repr

/-- Source: `IAX_TRUNKTIMESTAMPS`, `trunkmaxsize`, `global_max_trunk_mtu` -/
structure TrunkConfig where
  timestamps : Bool
  trunkmaxsize : ℕ
  maxTrunkMtu : ℕ
  deriving DecidableEq, Repr

/-- Source: `struct ast_iax2_meta_trunk_mini`, `struct ast_iax2_meta_trunk_entry` -/
def entryHeaderSize (timestamps : Bool) : ℕ := if timestamps then 6 else 4

/-- Source: `iax2_trunk_queue` (`Append to meta frame`) -/
def TrunkEntry.encode (timestamps : Bool) (e : TrunkEntry) : List UInt8 :=
  if timestamps then
    bigEndian 2 e.payload.length ++ bigEndian 2 e.callno.toNat ++ bigEndian 2 (e.ts.toNat % 65536) ++ e.payload
  else bigEndian 2 e.callno.toNat ++ bigEndian 2 e.payload.length ++ e.payload

def encodeEntries (timestamps : Bool) (es : List TrunkEntry) : List UInt8 :=
  es.flatMap (TrunkEntry.encode timestamps)

/-- A trunk packet: the meta header, the trunk header and the trunk data.
Source: `send_trunk`, `struct ast_iax2_meta_hdr`, `struct ast_iax2_meta_trunk_hdr` -/
def trunkPacket (timestamps : Bool) (stamp : ℕ) (data : List UInt8) : List UInt8 :=
  [0, 0, 1, if timestamps then 1 else 0] ++ bigEndian 4 stamp ++ data

/-- Source: `struct iax2_trunk_peer` (`trunkdata`, `trunkdatalen`, `trunkdataalloc`, `calls`) -/
structure TrunkPeer where
  data : List UInt8
  dataAlloc : ℕ
  calls : ℕ
  deriving DecidableEq, Repr

def sendTrunk (cfg : TrunkConfig) (stamp : ℕ) (tp : TrunkPeer) : Option (List UInt8) × TrunkPeer :=
  if tp.data = [] then (none, tp)
  else (some (trunkPacket cfg.timestamps stamp tp.data), { tp with data := [], calls := 0 })

/-- The space that is there for one more frame; `none` if the maximum is reached.
Source: `iax2_trunk_queue` (`Need to reallocate space`) -/
def trunkRoom (cfg : TrunkConfig) (tp : TrunkPeer) (datalen : ℕ) : Option ℕ :=
  if tp.data.length + datalen + 4 ≥ tp.dataAlloc then
    if tp.dataAlloc < cfg.trunkmaxsize then some (tp.dataAlloc + 6400) else none
  else some tp.dataAlloc

def trunkQueue (cfg : TrunkConfig) (stamp : ℕ) (e : TrunkEntry) (tp : TrunkPeer) :
    Bool × Option (List UInt8) × TrunkPeer :=
  match trunkRoom cfg tp e.payload.length with
  | none => (false, none, tp)
  | some room =>
    let tp' : TrunkPeer := ⟨tp.data ++ e.encode cfg.timestamps, room, tp.calls + 1⟩
    if cfg.maxTrunkMtu > 0 ∧ tp'.data.length + e.payload.length + 4 ≥ cfg.maxTrunkMtu then
      (true, sendTrunk cfg stamp tp')
    else (true, none, tp')

/-- What happens at the sender: a frame is queued, or the timer sends what there is.
Source: `iax2_trunk_queue`, `timing_read` -/
inductive TrunkEvent where
  | queue (e : TrunkEntry) (stamp : ℕ)
  | timer (stamp : ℕ)
  deriving DecidableEq, Repr

/-- The sender with what it did: the entries that were queued since the last packet, and the packets
with the entries of each of them. -/
structure TrunkSender where
  peer : TrunkPeer
  waiting : List TrunkEntry
  sent : List (List UInt8 × List TrunkEntry)
  deriving DecidableEq, Repr

def TrunkSender.record (out : Option (List UInt8) × TrunkPeer) (waiting : List TrunkEntry)
    (sent : List (List UInt8 × List TrunkEntry)) : TrunkSender :=
  match out.1 with
  | none => ⟨out.2, waiting, sent⟩
  | some packet => ⟨out.2, [], sent ++ [(packet, waiting)]⟩

def TrunkSender.step (cfg : TrunkConfig) (s : TrunkSender) : TrunkEvent → TrunkSender
  | .queue e stamp =>
    let out := trunkQueue cfg stamp e s.peer
    TrunkSender.record out.2 (if out.1 then s.waiting ++ [e] else s.waiting) s.sent
  | .timer stamp => TrunkSender.record (sendTrunk cfg stamp s.peer) s.waiting s.sent

/-- Source: `find_tpeer` -/
def trunkRun (cfg : TrunkConfig) (events : List TrunkEvent) : TrunkSender :=
  events.foldl (TrunkSender.step cfg) ⟨⟨[], 0, 0⟩, [], []⟩

section

variable (timestamps : Bool) (e : TrunkEntry)

@[simp]
lemma encodeEntries_cons (es : List TrunkEntry) :
    encodeEntries timestamps (e :: es) = e.encode timestamps ++ encodeEntries timestamps es := rfl

lemma TrunkEntry.encode_eq :
    ∃ header, e.encode timestamps = header ++ e.payload ∧ header.length = entryHeaderSize timestamps := by
  unfold TrunkEntry.encode entryHeaderSize
  split_ifs <;> exact ⟨_, rfl, by simp⟩

lemma TrunkEntry.length_encode : (e.encode timestamps).length = entryHeaderSize timestamps + e.payload.length := by
  obtain ⟨header, hencd, hsize⟩ := e.encode_eq timestamps
  rw [hencd, length_append, hsize]

end

/-- The trunk data are the waiting entries, and each packet holds the entries that are noted for
it. -/
structure TrunkSender.Sound (cfg : TrunkConfig) (s : TrunkSender) : Prop where
  waiting : s.peer.data = encodeEntries cfg.timestamps s.waiting
  sent : ∀ p ∈ s.sent, ∃ stamp, p.1 = trunkPacket cfg.timestamps stamp (encodeEntries cfg.timestamps p.2)

variable {cfg : TrunkConfig} {mem : List UInt8} {n : ℕ}

lemma sendTrunk_sound {tp : TrunkPeer} {waiting : List TrunkEntry}
    {sent : List (List UInt8 × List TrunkEntry)} (stamp : ℕ) (h : TrunkSender.Sound cfg ⟨tp, waiting, sent⟩) :
    TrunkSender.Sound cfg (TrunkSender.record (sendTrunk cfg stamp tp) waiting sent) := by
  unfold sendTrunk
  split_ifs with hemp
  · exact h
  refine ⟨rfl, forall_mem_append.mpr ⟨h.sent, forall_mem_singleton.mpr ⟨stamp, ?_⟩⟩⟩
  rw [show tp.data = encodeEntries cfg.timestamps waiting from h.waiting]

lemma trunkQueue_cases (cfg : TrunkConfig) (stamp : ℕ) (e : TrunkEntry) (tp : TrunkPeer) :
    trunkQueue cfg stamp e tp = (false, none, tp) ∨
      ∃ room, trunkQueue cfg stamp e tp =
            (true, sendTrunk cfg stamp ⟨tp.data ++ e.encode cfg.timestamps, room, tp.calls + 1⟩) ∨
          trunkQueue cfg stamp e tp = (true, none, ⟨tp.data ++ e.encode cfg.timestamps, room, tp.calls + 1⟩) := by
  unfold trunkQueue
  rcases trunkRoom cfg tp e.payload.length with _ | room
  · exact .inl rfl
  refine .inr ⟨room, ?_⟩
  dsimp only
  split_ifs
  · exact .inl rfl
  · exact .inr rfl

lemma TrunkSender.Sound.step {s : TrunkSender} (h : s.Sound cfg) (ev : TrunkEvent) : (s.step cfg ev).Sound cfg := by
  cases ev with
  | timer stamp => exact sendTrunk_sound stamp h
  | queue e stamp =>
    have hqueued : ∀ room, TrunkSender.Sound cfg
        ⟨⟨s.peer.data ++ e.encode cfg.timestamps, room, s.peer.calls + 1⟩, s.waiting ++ [e], s.sent⟩ := by
      intro room
      refine ⟨?_, h.sent⟩
      simp only [h.waiting]
      simp [encodeEntries]
    simp only [TrunkSender.step]
    rcases trunkQueue_cases cfg stamp e s.peer with hout | ⟨room, hout | hout⟩
    · rwa [hout]
    · rw [hout]
      exact sendTrunk_sound stamp (hqueued room)
    · rw [hout]
      exact hqueued room

lemma trunkRun_packets (cfg : TrunkConfig) (events : List TrunkEvent) : (trunkRun cfg events).Sound cfg :=
  List.foldlRecOn events _ ⟨rfl, fun p hp => by cases hp⟩ fun _ h ev _ => h.step ev

/-! ## The receiver -/

/-- What the receiver knows of a call: whether it is there, the format of its voice frames (0 for
none), whether that format is known, whether the call was started, and the last timestamp.
Source: `iaxs[fr->callno]` (`voiceformat`, `state`, `last`) -/
structure TrunkCall where
  present : Bool
  voiceformat : ℕ
  formatKnown : Bool
  started : Bool
  last : ℕ
  deriving DecidableEq, Repr

/-- The calls with the peer, by the call number of the peer, and the timestamp that is made from
that of the packet.
Source: `find_callno_locked`, `fix_peerts` -/
structure TrunkEnv where
  find : ℕ → Option TrunkCall
  fixPeerts : ℕ → ℕ → ℕ

/-- Source: `socket_process_meta` -/
def TrunkCall.ready (c : TrunkCall) : Bool :=
  c.present && c.voiceformat ≠ 0 && c.formatKnown && c.started

/-- A round of the loop: where the entry is, its call number, length and timestamp. -/
structure TrunkRound where
  header : ℕ
  callno : ℕ
  len : ℕ
  ts : ℕ
  deriving DecidableEq, Repr

/-- Source: `schedule_delivery` -/
structure TrunkDelivery where
  callno : ℕ
  ts : ℕ
  payload : List UInt8
  deriving DecidableEq, Repr

/-- What the receiver did: the rounds, the frames that were handed to calls, and the ranges of bytes
that were read, each with its start and its size. -/
structure TrunkTrace where
  rounds : List TrunkRound
  deliveries : List TrunkDelivery
  reads : List (ℕ × ℕ)
  deriving DecidableEq, Repr

/-- The state of the loop. `last` are the last timestamps of the calls.
Source: `socket_process_meta` (`ptr`, `packet_len`) -/
structure MetaState where
  ptr : ℕ
  packetLen : ℤ
  last : ℕ → ℕ
  trace : TrunkTrace

/-- Source: `ntohl` -/
def u32At (mem : List UInt8) (i : ℕ) : ℕ := u16At mem i * 65536 + u16At mem (i + 2)

/-- The header of the entry at `ptr`. Entries without a timestamp have 0.
Source: `socket_process_meta` (`IAX_META_TRUNK_MINI`, `IAX_META_TRUNK_SUPERMINI`) -/
def entryHeader (mem : List UInt8) (timestamps : Bool) (ptr : ℕ) : TrunkRound :=
  if timestamps then ⟨ptr, u16At mem (ptr + 2), u16At mem ptr, u16At mem (ptr + 4)⟩
  else ⟨ptr, u16At mem ptr, u16At mem (ptr + 2), 0⟩

/-- Source: `callno & ~IAX_FLAG_FULL` -/
def dropFull (callno : ℕ) : ℕ := callno % 32768

/-- Source: `socket_process_meta` (`fr->ts = …`) -/
def deliveryTs (env : TrunkEnv) (last trunkedTs callno stamp : ℕ) : ℕ :=
  if trunkedTs ≠ 0 then last / 65536 * 65536 + trunkedTs else env.fixPeerts callno stamp

/-- Source: `socket_process_meta` (`If it's a valid call, deliver the contents.`) -/
def deliver (env : TrunkEnv) (mem : List UInt8) (stamp : ℕ) (callno len ts : ℕ) (c : TrunkCall)
    (s : MetaState) : MetaState :=
  if c.ready then
    let fts := deliveryTs env (s.last callno) ts callno stamp
    { s with
      last := fun k => if k = callno then max (s.last k) fts else s.last k
      trace := { s.trace with
        deliveries := s.trace.deliveries ++ [⟨callno, fts, (mem.drop s.ptr).take len⟩]
        reads := s.trace.reads ++ [(s.ptr, len)] } }
  else s

/-- Source: `socket_process_meta` (`ptr += sizeof (*mtm)`, `packet_len -= sizeof (*mtm)` and the
like) -/
def MetaState.readHeader (mem : List UInt8) (timestamps : Bool) (s : MetaState) : MetaState :=
  { s with
    ptr := s.ptr + entryHeaderSize timestamps
    packetLen := s.packetLen - entryHeaderSize timestamps
    trace := { s.trace with
      rounds := s.trace.rounds ++ [entryHeader mem timestamps s.ptr]
      reads := s.trace.reads ++ [(s.ptr, entryHeaderSize timestamps)] } }

/-- Source: `ptr += len`, `packet_len -= len` -/
def MetaState.skip (len : ℕ) (s : MetaState) : MetaState :=
  { s with ptr := s.ptr + len, packetLen := s.packetLen - len }

/-- Source: `socket_process_meta` (`while (packet_len >= sizeof (*mte))`) -/
def metaStep (env : TrunkEnv) (mem : List UInt8) (timestamps : Bool) (stamp : ℕ) (s : MetaState) :
    Option (MetaState ⊕ TrunkTrace) :=
  if 0 ≤ s.packetLen ∧ s.packetLen < 4 then some (.inr s.trace)
  else
    let h := entryHeader mem timestamps s.ptr
    let s' := s.readHeader mem timestamps
    if (h.len : ℤ) > s'.packetLen then some (.inr s'.trace)
    else
      match env.find (dropFull h.callno) with
      | none => some (.inl s')
      | some c => some (.inl ((deliver env mem stamp (dropFull h.callno) h.len h.ts c s').skip h.len))

def TrunkEnv.last (env : TrunkEnv) (callno : ℕ) : ℕ := ((env.find callno).map TrunkCall.last).getD 0

/-- Source: `socket_process_meta` -/
def MetaState.start (env : TrunkEnv) (n : ℕ) : MetaState :=
  ⟨8, (n : ℤ) - 8, env.last, ⟨[], [], [(2, 1), (4, 4), (3, 1)]⟩⟩

def socketProcessMeta (env : TrunkEnv) (mem : List UInt8) (n fuel : ℕ) : Option TrunkTrace :=
  if n < 4 then some ⟨[], [], []⟩
  else if mem.getD 2 0 ≠ 1 then some ⟨[], [], [(2, 1)]⟩
  else if n < 8 then some ⟨[], [], [(2, 1)]⟩
  else
    let metatype := mem.getD 3 0
    let stamp := u32At mem 4
    if metatype ≠ 0 ∧ metatype ≠ 1 then some ⟨[], [], [(2, 1), (4, 4), (3, 1)]⟩
    else
      iterate (metaStep env mem (metatype = 1) stamp) fuel (MetaState.start env n)

/-! ## What the receiver is to do -/

def placed (timestamps : Bool) : ℕ → List TrunkEntry → List TrunkRound
  | _, [] => []
  | ptr, e :: es =>
    ⟨ptr, e.callno.toNat, e.payload.length, if timestamps then e.ts.toNat % 65536 else 0⟩ ::
      placed timestamps (ptr + entryHeaderSize timestamps + e.payload.length) es

/-- The round that an entry at `ptr` is to get. -/
abbrev TrunkEntry.round (timestamps : Bool) (ptr : ℕ) (e : TrunkEntry) : TrunkRound :=
  ⟨ptr, e.callno.toNat, e.payload.length, if timestamps then e.ts.toNat % 65536 else 0⟩

def TrunkEnv.callOf (env : TrunkEnv) (e : TrunkEntry) : Option TrunkCall := env.find (dropFull e.callno.toNat)

/-- The payloads that are to be handed to calls: those of the entries whose call takes voice
frames. -/
def handed (env : TrunkEnv) (es : List TrunkEntry) : List (ℕ × List UInt8) :=
  (es.filter fun e => (env.callOf e).any TrunkCall.ready).map fun e =>
    (dropFull e.callno.toNat, e.payload)

def TrunkDelivery.content (d : TrunkDelivery) : ℕ × List UInt8 := (d.callno, d.payload)

def Splittable (env : TrunkEnv) : List TrunkEntry → Prop
  | [] => True
  | e :: es =>
    e.payload.length < 65536 ∧
      (env.callOf e = none → e.payload = [] ∨ (es = [] ∧ e.payload.length < 4)) ∧ Splittable env es

/-- When the headers of the entries that the receiver looks for in `data` are inside it. -/
def headersFit (env : TrunkEnv) (timestamps : Bool) (data : List UInt8) : Bool :=
  if data.length < 4 then true
  else if data.length < entryHeaderSize timestamps then false
  else
    let h := entryHeader data timestamps 0
    let rest := data.drop (entryHeaderSize timestamps)
    if h.len > rest.length then true
    else if (env.find (dropFull h.callno)).isSome then headersFit env timestamps (rest.drop h.len)
    else headersFit env timestamps rest
  termination_by data.length
  decreasing_by
    all_goals
      simp only [length_drop]
      have hsize : 0 < entryHeaderSize timestamps := by cases timestamps <;> decide
      omega

/-! ## The loop -/

section Loop

variable {env : TrunkEnv} {mem : List UInt8} {timestamps : Bool} {stamp : ℕ}

lemma four_le_entryHeaderSize (timestamps : Bool) : 4 ≤ entryHeaderSize timestamps := by
  cases timestamps <;> decide

lemma MetaState.skip_zero (s : MetaState) : s.skip 0 = s := by
  simp [MetaState.skip]

variable {s : MetaState} {i ptr fuel v k : ℕ} {rest behind data field : List UInt8} {e : TrunkEntry}
  {es : List TrunkEntry} {r : TrunkTrace}

lemma metaStep_end (h : 0 ≤ s.packetLen ∧ s.packetLen < 4) :
    metaStep env mem timestamps stamp s = some (.inr s.trace) :=
  if_pos h

lemma metaStep_stop (h : ¬ (0 ≤ s.packetLen ∧ s.packetLen < 4))
    (hlen : s.packetLen - entryHeaderSize timestamps < (entryHeader mem timestamps s.ptr).len) :
    metaStep env mem timestamps stamp s = some (.inr (s.readHeader mem timestamps).trace) := by
  rw [metaStep, if_neg h]
  exact if_pos hlen

def MetaState.next (env : TrunkEnv) (mem : List UInt8) (timestamps : Bool) (stamp : ℕ) (s : MetaState) : MetaState :=
  let h := entryHeader mem timestamps s.ptr
  match env.find (dropFull h.callno) with
  | none => s.readHeader mem timestamps
  | some c => (deliver env mem stamp (dropFull h.callno) h.len h.ts c (s.readHeader mem timestamps)).skip h.len

lemma metaStep_next (h : ¬ (0 ≤ s.packetLen ∧ s.packetLen < 4))
    (hlen : ((entryHeader mem timestamps s.ptr).len : ℤ) ≤ s.packetLen - entryHeaderSize timestamps) :
    metaStep env mem timestamps stamp s = some (.inl (s.next env mem timestamps stamp)) := by
  have hgo : ¬ ((entryHeader mem timestamps s.ptr).len : ℤ) > (s.readHeader mem timestamps).packetLen :=
    Int.not_lt.mpr hlen
  rw [metaStep, if_neg h, MetaState.next]
  rw [if_neg hgo]
  split <;> rfl

lemma MetaState.next_spec {hd : TrunkRound} (s : MetaState) (hhd : entryHeader mem timestamps s.ptr = hd) :
    let call := env.find (dropFull hd.callno)
    let s' := s.next env mem timestamps stamp
    s'.ptr = s.ptr + entryHeaderSize timestamps + (if call.isSome then hd.len else 0) ∧
      s'.packetLen = s.packetLen - entryHeaderSize timestamps - (if call.isSome then hd.len else 0 : ℕ) ∧
      s'.trace.rounds = s.trace.rounds ++ [hd] ∧
      s'.trace.deliveries.map TrunkDelivery.content = s.trace.deliveries.map TrunkDelivery.content ++
        (if call.any TrunkCall.ready then
          [(dropFull hd.callno, (mem.drop (s.ptr + entryHeaderSize timestamps)).take hd.len)] else []) ∧
      s'.trace.reads = s.trace.reads ++ [(s.ptr, entryHeaderSize timestamps)] ++
        (if call.any TrunkCall.ready then [(s.ptr + entryHeaderSize timestamps, hd.len)] else []) := by
  unfold MetaState.next
  rcases hfind : env.find (dropFull hd.callno) with _ | c
  · simp [hfind, hhd, MetaState.readHeader]
  · by_cases hrdy : c.ready = true
    · simp [hfind, hhd, deliver, hrdy, MetaState.readHeader, MetaState.skip, TrunkDelivery.content]
    · simp [hfind, hhd, deliver, hrdy, MetaState.readHeader, MetaState.skip]

lemma metaStep_total (pre : List TrunkRound) (s : MetaState)
    (h : 0 ≤ s.packetLen ∧ pre <+: s.trace.rounds) :
    (∃ s', metaStep env mem timestamps stamp s = some (.inl s') ∧
        (0 ≤ s'.packetLen ∧ pre <+: s'.trace.rounds) ∧ s'.packetLen.toNat < s.packetLen.toNat) ∨
      ∃ r, metaStep env mem timestamps stamp s = some (.inr r) ∧ pre <+: r.rounds := by
  obtain ⟨hnn, hpre⟩ := h
  have hsize := four_le_entryHeaderSize timestamps
  have hhdr := hpre.trans (prefix_append s.trace.rounds [entryHeader mem timestamps s.ptr])
  by_cases hend : 0 ≤ s.packetLen ∧ s.packetLen < 4
  · exact .inr ⟨_, metaStep_end hend, hpre⟩
  by_cases hstop : s.packetLen - entryHeaderSize timestamps < (entryHeader mem timestamps s.ptr).len
  · exact .inr ⟨_, metaStep_stop hend hstop, hhdr⟩
  obtain ⟨-, hpkt, hrds, -, -⟩ := @MetaState.next_spec env mem timestamps stamp _ s rfl
  refine .inl ⟨_, metaStep_next hend (Int.not_lt.mp hstop), ⟨?_, ?_⟩, ?_⟩
  · rw [hpkt]
    split_ifs <;> omega
  · rwa [hrds]
  · rw [hpkt]
    split_ifs <;> omega

lemma metaLoop_ends (s : MetaState) (h : 0 ≤ s.packetLen) :
    ∃ r, s.trace.rounds <+: r.rounds ∧
      ∀ fuel, s.packetLen.toNat < fuel → iterate (metaStep env mem timestamps stamp) fuel s = some r :=
  iterate_total (fun s' hs' => metaStep_total s.trace.rounds s' hs') ⟨h, prefix_refl _⟩

/-! ## Packets of the sender -/

lemma entryHeader_encode (h : mem.drop ptr = e.encode timestamps ++ rest) :
    entryHeader mem timestamps ptr =
      ⟨ptr, e.callno.toNat, e.payload.length % 65536, if timestamps then e.ts.toNat % 65536 else 0⟩ := by
  have hcallno := e.callno.toNat_lt
  cases timestamps with
  | true =>
    simp only [TrunkEntry.encode, if_true, append_assoc] at h
    have hcall := drop_add_of_drop h (length_bigEndian 2 _)
    have hts := drop_add_of_drop hcall (length_bigEndian 2 _)
    simp only [entryHeader, if_true, u16At_bigEndian h, u16At_bigEndian hcall, u16At_bigEndian hts, mod_mod]
    rw [mod_eq_of_lt (by omega : e.callno.toNat < 65536)]
  | false =>
    simp only [TrunkEntry.encode, Bool.false_eq_true, if_false, append_assoc] at h
    have hlen := drop_add_of_drop h (length_bigEndian 2 _)
    simp only [entryHeader, Bool.false_eq_true, if_false, u16At_bigEndian h, u16At_bigEndian hlen]
    rw [mod_eq_of_lt (by omega : e.callno.toNat < 65536)]

lemma drop_entryHeader (h : mem.drop ptr = e.encode timestamps ++ rest) :
    mem.drop (ptr + entryHeaderSize timestamps) = e.payload ++ rest := by
  obtain ⟨header, hencd, hsize⟩ := e.encode_eq timestamps
  rw [hencd, append_assoc] at h
  exact drop_add_of_drop h hsize

def Splits (env : TrunkEnv) (timestamps : Bool) (s : MetaState) (es : List TrunkEntry) (r : TrunkTrace) : Prop :=
  r.rounds = s.trace.rounds ++ placed timestamps s.ptr es ∧
    r.deliveries.map TrunkDelivery.content = s.trace.deliveries.map TrunkDelivery.content ++ handed env es

lemma not_splits_of_start {x : TrunkRound} (hpre : s.trace.rounds ++ [x] <+: r.rounds)
    (hx : ∀ y ∈ (placed timestamps s.ptr es).head?, x ≠ y) : ¬ Splits env timestamps s es r := by
  rintro ⟨hrds, -⟩
  rw [hrds, prefix_append_right_inj] at hpre
  obtain ⟨rest, hrest⟩ := hpre
  exact hx x (by rw [← hrest]; rfl) rfl

lemma entryHeader_header (ptr : ℕ) : (entryHeader mem timestamps ptr).header = ptr := by
  unfold entryHeader
  split_ifs <;> rfl

lemma placed_head (ptr : ℕ) (es : List TrunkEntry) : ∀ y ∈ (placed timestamps ptr es).head?, y.header = ptr := by
  intro y hy
  cases es with
  | nil => cases hy
  | cons e es =>
    cases hy
    rfl

lemma handed_cons (e : TrunkEntry) (es : List TrunkEntry) :
    handed env (e :: es) =
      (if (env.callOf e).any TrunkCall.ready then [(dropFull e.callno.toNat, e.payload)] else []) ++
        handed env es := by
  unfold handed
  rw [filter_cons]
  split_ifs <;> simp

lemma splits_cons_iff (s' : MetaState)
    (hrds : s'.trace.rounds = s.trace.rounds ++ [e.round timestamps s.ptr])
    (hdels : s'.trace.deliveries.map TrunkDelivery.content = s.trace.deliveries.map TrunkDelivery.content ++
      if (env.callOf e).any TrunkCall.ready then [(dropFull e.callno.toNat, e.payload)] else [])
    (hptr : s'.ptr = s.ptr + entryHeaderSize timestamps + e.payload.length) :
    Splits env timestamps s (e :: es) r ↔ Splits env timestamps s' es r := by
  unfold Splits
  rw [hrds, hdels, hptr, handed_cons, placed, TrunkEntry.round]
  simp

lemma metaLoop_prefix (h : 0 ≤ s.packetLen) (hr : iterate (metaStep env mem timestamps stamp) fuel s = some r) :
    s.trace.rounds <+: r.rounds := by
  obtain ⟨r', hpre, hends⟩ := @metaLoop_ends env mem timestamps stamp s h
  rwa [iterate_unique hr (hends _ (lt_succ_self _))]

lemma metaLoop_round (h : 4 ≤ s.packetLen) (hr : iterate (metaStep env mem timestamps stamp) fuel s = some r) :
    s.trace.rounds ++ [entryHeader mem timestamps s.ptr] <+: r.rounds := by
  have hend : ¬ (0 ≤ s.packetLen ∧ s.packetLen < 4) := by omega
  by_cases hstop : s.packetLen - entryHeaderSize timestamps < (entryHeader mem timestamps s.ptr).len
  · rw [← iterate_of_done hr (metaStep_stop hend hstop)]
    exact prefix_refl _
  obtain ⟨k, hk⟩ := iterate_of_next hr (metaStep_next hend (Int.not_lt.mp hstop))
  obtain ⟨-, hpkt, hrds, -, -⟩ := @MetaState.next_spec env mem timestamps stamp _ s rfl
  rw [← hrds]
  refine metaLoop_prefix ?_ hk
  rw [hpkt]
  split_ifs <;> omega

structure AtEntries (mem : List UInt8) (timestamps : Bool) (s : MetaState) (es : List TrunkEntry)
    (behind : List UInt8) : Prop where
  drop_eq : mem.drop s.ptr = encodeEntries timestamps es ++ behind
  left_eq : s.packetLen = (encodeEntries timestamps es).length

section Entry

variable (h : AtEntries mem timestamps s (e :: es) behind)

include h

lemma AtEntries.drop_cons : mem.drop s.ptr = e.encode timestamps ++ (encodeEntries timestamps es ++ behind) := by
  rw [h.drop_eq, encodeEntries_cons, append_assoc]

lemma AtEntries.left_cons :
    s.packetLen = entryHeaderSize timestamps + e.payload.length + (encodeEntries timestamps es).length := by
  rw [h.left_eq, encodeEntries_cons, length_append, TrunkEntry.length_encode]
  rfl

lemma AtEntries.go_on : ¬ (0 ≤ s.packetLen ∧ s.packetLen < 4) := by
  have hleft := h.left_cons
  have hsize := four_le_entryHeaderSize timestamps
  omega

lemma AtEntries.skip : AtEntries mem timestamps ((s.readHeader mem timestamps).skip e.payload.length) es behind := by
  refine ⟨drop_add_of_drop (drop_entryHeader h.drop_cons) rfl, ?_⟩
  have hleft := h.left_cons
  simp only [MetaState.skip, MetaState.readHeader]
  omega

variable (hfld : e.payload.length < 65536)

include hfld

lemma AtEntries.header : entryHeader mem timestamps s.ptr = e.round timestamps s.ptr := by
  rw [entryHeader_encode h.drop_cons, mod_eq_of_lt hfld, TrunkEntry.round]

lemma AtEntries.len_le : ((entryHeader mem timestamps s.ptr).len : ℤ) ≤ s.packetLen - entryHeaderSize timestamps := by
  have hleft := h.left_cons
  rw [h.header hfld]
  dsimp only
  omega

variable (hr : iterate (metaStep env mem timestamps stamp) fuel s = some r)

include hr

lemma metaLoop_known {c : TrunkCall} (hfind : env.callOf e = some c) :
    ∃ s' k, iterate (metaStep env mem timestamps stamp) k s' = some r ∧
      AtEntries mem timestamps s' es behind ∧
      (Splits env timestamps s (e :: es) r ↔ Splits env timestamps s' es r) := by
  obtain ⟨k, hk⟩ := iterate_of_next hr (metaStep_next h.go_on (h.len_le hfld))
  obtain ⟨hptr, hpkt, hrds, hdels, -⟩ :=
    @MetaState.next_spec env mem timestamps stamp _ s (h.header hfld)
  rw [show env.find _ = some c from hfind] at hptr hpkt hdels
  rw [drop_entryHeader h.drop_cons, take_left] at hdels
  refine ⟨_, k, hk, ⟨?_, ?_⟩, splits_cons_iff _ hrds ?_ hptr⟩
  · rw [hptr]
    exact h.skip.drop_eq
  · rw [hpkt]
    exact h.skip.left_eq
  · rw [hdels, hfind]

lemma metaLoop_unknown (hfind : env.callOf e = none) :
    ∃ k, iterate (metaStep env mem timestamps stamp) k (s.readHeader mem timestamps) = some r ∧
      (Splits env timestamps s (e :: es) r ↔
        Splits env timestamps ((s.readHeader mem timestamps).skip e.payload.length) es r) := by
  have hhdr := h.header hfld
  obtain ⟨k, hk⟩ := iterate_of_next hr (metaStep_next h.go_on (h.len_le hfld))
  rw [MetaState.next, hhdr, show env.find _ = none from hfind] at hk
  refine ⟨k, hk, splits_cons_iff _ ?_ ?_ rfl⟩
  · rw [← hhdr]
    rfl
  · simp [hfind, MetaState.readHeader, MetaState.skip]

lemma splits_unknown_iff (hfind : env.callOf e = none) (hemp : e.payload ≠ []) :
    Splits env timestamps s (e :: es) r ↔ es = [] ∧ e.payload.length < 4 := by
  obtain ⟨k, hk, hskip⟩ := metaLoop_unknown h hfld hr hfind
  have hleft := h.skip.left_eq
  simp only [MetaState.skip] at hleft
  have hpos := length_pos_iff.mpr hemp
  rw [hskip]
  by_cases hlast : es = [] ∧ e.payload.length < 4
  · obtain ⟨rfl, hsht⟩ := hlast
    simp only [encodeEntries, flatMap_nil, length_nil] at hleft
    rw [← iterate_of_done hk (metaStep_end (by omega))]
    exact iff_of_true ⟨by simp [MetaState.skip, placed], by simp [MetaState.skip, handed]⟩ ⟨rfl, hsht⟩
  have hmore : 4 ≤ (s.readHeader mem timestamps).packetLen := by
    rcases es with _ | ⟨e', es⟩
    · have hlong : ¬ e.payload.length < 4 := fun hsht => hlast ⟨rfl, hsht⟩
      omega
    have hnext := h.skip.left_cons
    have hsize := four_le_entryHeaderSize timestamps
    simp only [MetaState.skip] at hnext
    omega
  refine iff_of_false ?_ hlast
  -- the round at the start of the payload is not one of the entries
  have hrnd := metaLoop_round hmore hk
  refine @not_splits_of_start env timestamps ((s.readHeader mem timestamps).skip e.payload.length) es r _
    hrnd fun y hy hxy => ?_
  have hpl := placed_head _ _ y hy
  rw [← hxy, entryHeader_header] at hpl
  simp only [MetaState.skip] at hpl
  omega

end Entry

lemma metaLoop_splits_iff (es : List TrunkEntry) (h : AtEntries mem timestamps s es behind)
    (hr : iterate (metaStep env mem timestamps stamp) fuel s = some r) :
    Splits env timestamps s es r ↔ Splittable env es := by
  induction es generalizing s fuel with
  | nil =>
    have hzero : s.packetLen = 0 := h.left_eq
    rw [← iterate_of_done hr (metaStep_end (by omega))]
    simp [Splits, Splittable, placed, handed]
  | cons e es ih =>
    by_cases hfld : e.payload.length < 65536
    · rcases hfind : env.callOf e with _ | c
      · by_cases hemp : e.payload = []
        · obtain ⟨k, hk, hskip⟩ := metaLoop_unknown h hfld hr hfind
          have hnext := h.skip
          rw [hemp, length_nil, MetaState.skip_zero] at hskip hnext
          rw [hskip, ih hnext hk]
          simp [Splittable, hemp]
        · rw [splits_unknown_iff h hfld hr hfind hemp]
          constructor
          · rintro ⟨rfl, hsht⟩
            exact ⟨hfld, fun _ => .inr ⟨rfl, hsht⟩, trivial⟩
          · rintro ⟨-, hunknown, -⟩
            exact (hunknown hfind).resolve_left hemp
      · obtain ⟨s', k, hk, hnext, hsplits⟩ := metaLoop_known h hfld hr hfind
        rw [hsplits, ih hnext hk]
        simp [Splittable, hfld, hfind]
    · -- the length in the header is not that of the payload
      have hleft := h.left_cons
      refine iff_of_false (not_splits_of_start (metaLoop_round (by omega) hr) fun y hy hxy => ?_) ?_
      · cases hy
        have hlen := congrArg TrunkRound.len hxy
        rw [entryHeader_encode h.drop_cons] at hlen
        dsimp only at hlen
        omega
      · rintro ⟨hfits, -⟩
        exact hfld hfits

/-! ## Arbitrary bytes -/

lemma u16At_of_drop (h : mem.drop ptr = data ++ behind) (hi : i + 2 ≤ data.length) :
    u16At mem (ptr + i) = u16At data i := by
  have hbyte : ∀ k < data.length, mem.getD (ptr + k) 0 = data.getD k 0 := by
    intro k hk
    have hget := congrArg (fun l : List UInt8 => l.getD k 0) h
    simp only [getD_eq_getElem?_getD, getElem?_drop] at hget ⊢
    rw [hget, getElem?_append_left hk]
  unfold u16At
  rw [hbyte i (by omega), show ptr + i + 1 = ptr + (i + 1) by omega, hbyte (i + 1) (by omega)]

lemma entryHeader_of_drop (h : mem.drop ptr = data ++ behind)
    (hsize : entryHeaderSize timestamps ≤ data.length) :
    (entryHeader mem timestamps ptr).callno = (entryHeader data timestamps 0).callno ∧
      (entryHeader mem timestamps ptr).len = (entryHeader data timestamps 0).len := by
  have hzero := fun hi => @u16At_of_drop mem 0 ptr behind data h hi
  cases timestamps with
  | true =>
    have hlong : 6 ≤ data.length := hsize
    exact ⟨u16At_of_drop h (by omega), hzero (by omega)⟩
  | false =>
    have hlong : 4 ≤ data.length := hsize
    exact ⟨hzero (by omega), u16At_of_drop h (by omega)⟩

def ReadsWithin (n : ℕ) (reads : List (ℕ × ℕ)) : Prop := ∀ x ∈ reads, x.1 + x.2 ≤ n

lemma readsWithin_append (n : ℕ) (reads more : List (ℕ × ℕ)) :
    ReadsWithin n (reads ++ more) ↔ ReadsWithin n reads ∧ ReadsWithin n more :=
  forall_mem_append

lemma readsWithin_singleton (n start size : ℕ) : ReadsWithin n [(start, size)] ↔ start + size ≤ n :=
  forall_mem_singleton

/-- **The loop over arbitrary bytes** reads no byte behind the packet just if the headers that it
looks for are inside. Induction on a bound of the bytes that are left. -/
lemma metaLoop_within_iff (n m : ℕ) (hm : data.length ≤ m) (hmem : mem.drop s.ptr = data ++ behind)
    (hleft : s.packetLen = data.length) (hn : s.ptr + data.length = n) (hrds : ReadsWithin n s.trace.reads)
    (hr : iterate (metaStep env mem timestamps stamp) fuel s = some r) :
    ReadsWithin n r.reads ↔ headersFit env timestamps data = true := by
  have hsize := four_le_entryHeaderSize timestamps
  induction m generalizing s data fuel with
  | zero =>
    rw [← iterate_of_done hr (metaStep_end (by omega)), headersFit, if_pos (by omega)]
    exact iff_of_true hrds rfl
  | succ m ih =>
    rw [headersFit]
    by_cases hsht : data.length < 4
    · rw [← iterate_of_done hr (metaStep_end (by omega)), if_pos hsht]
      exact iff_of_true hrds rfl
    rw [if_neg hsht]
    have hend : ¬ (0 ≤ s.packetLen ∧ s.packetLen < 4) := by omega
    by_cases hhdr : data.length < entryHeaderSize timestamps
    · -- the header is read although it is not there
      rw [if_pos hhdr, ← iterate_of_done hr (metaStep_stop hend (by omega))]
      simp only [MetaState.readHeader, readsWithin_append, readsWithin_singleton]
      refine iff_of_false ?_ (by simp)
      omega
    rw [if_neg hhdr]
    obtain ⟨hcallno, hlen⟩ := entryHeader_of_drop hmem (Nat.not_lt.mp hhdr)
    have hwth : ReadsWithin n (s.readHeader mem timestamps).trace.reads :=
      (readsWithin_append _ _ _).mpr ⟨hrds, (readsWithin_singleton _ _ _).mpr (by omega)⟩
    have hdrop : mem.drop (s.ptr + entryHeaderSize timestamps) =
        data.drop (entryHeaderSize timestamps) ++ behind := by
      rw [← drop_drop, hmem, drop_append_of_le_length (Nat.not_lt.mp hhdr)]
    obtain ⟨rest, hrest⟩ : ∃ rest, rest = data.drop (entryHeaderSize timestamps) := ⟨_, rfl⟩
    have hleng : rest.length = data.length - entryHeaderSize timestamps := by rw [hrest, length_drop]
    dsimp only
    rw [← hrest] at hdrop ⊢
    rw [← hlen, ← hcallno]
    by_cases hstop : (entryHeader mem timestamps s.ptr).len > rest.length
    · rw [if_pos hstop, ← iterate_of_done hr (metaStep_stop hend (by omega))]
      exact iff_of_true hwth rfl
    rw [if_neg hstop]
    obtain ⟨k, hk⟩ := iterate_of_next hr (metaStep_next hend (by omega))
    obtain ⟨hptr, hpkt, -, -, hread⟩ := @MetaState.next_spec env mem timestamps stamp _ s rfl
    have hnext : ∀ known : Bool, (if known = true
        then headersFit env timestamps (rest.drop (entryHeader mem timestamps s.ptr).len)
        else headersFit env timestamps rest) = headersFit env timestamps
          (rest.drop (if known = true then (entryHeader mem timestamps s.ptr).len else 0)) := by
      intro known
      split_ifs <;> rfl
    rw [hnext]
    obtain ⟨taken, htk⟩ : ∃ n, n = if (env.find (dropFull (entryHeader mem timestamps s.ptr).callno)).isSome
        then (entryHeader mem timestamps s.ptr).len else 0 := ⟨_, rfl⟩
    have hle : taken ≤ rest.length := by
      rw [htk]
      split_ifs <;> omega
    rw [← htk] at hptr hpkt ⊢
    refine ih ?_ ?_ ?_ ?_ ?_ hk
    · rw [length_drop]
      omega
    · rw [hptr, ← drop_drop, hdrop, drop_append_of_le_length hle]
    · rw [length_drop]
      omega
    · rw [length_drop]
      omega
    · rw [hread, readsWithin_append]
      refine ⟨hwth, ?_⟩
      split_ifs
      · rw [readsWithin_singleton]
        omega
      · exact forall_mem_nil _

end Loop

/-! ## The receiver -/

def MetaFits (env : TrunkEnv) (buf : List UInt8) : Prop :=
  8 ≤ buf.length → buf.getD 2 0 = 1 → buf.getD 3 0 = 0 ∨ buf.getD 3 0 = 1 →
    headersFit env (buf.getD 3 0 = 1) (buf.drop 8) = true

def TrunkTrace.Splits (env : TrunkEnv) (timestamps : Bool) (es : List TrunkEntry) (r : TrunkTrace) : Prop :=
  r.rounds = placed timestamps 8 es ∧ r.deliveries.map TrunkDelivery.content = handed env es

section

variable (env : TrunkEnv)

lemma socketProcessMeta_loop (hn : 8 ≤ n) (hcmd : mem.getD 2 0 = 1)
    (htype : mem.getD 3 0 = 0 ∨ mem.getD 3 0 = 1) (fuel : ℕ) :
    socketProcessMeta env mem n fuel =
      iterate (metaStep env mem (mem.getD 3 0 = 1) (u32At mem 4)) fuel (MetaState.start env n) := by
  have hkn : ¬ (mem.getD 3 0 ≠ 0 ∧ mem.getD 3 0 ≠ 1) := by
    rintro ⟨hzero, hone⟩
    exact htype.elim hzero hone
  rw [socketProcessMeta, if_neg (by omega), if_neg (not_not.mpr hcmd), if_neg (by omega)]
  exact if_neg hkn

lemma readsWithin_start (hn : 8 ≤ n) : ReadsWithin n (MetaState.start env n).trace.reads := by
  intro x hx
  simp only [MetaState.start, mem_cons, not_mem_nil, or_false] at hx
  rcases hx with rfl | rfl | rfl <;> dsimp only <;> omega

lemma socketProcessMeta_other (h : ¬ (8 ≤ n ∧ mem.getD 2 0 = 1 ∧ (mem.getD 3 0 = 0 ∨ mem.getD 3 0 = 1))) :
    ∃ r, (∀ fuel, socketProcessMeta env mem n fuel = some r) ∧ ReadsWithin n r.reads := by
  have hsht : 4 ≤ n → ReadsWithin n [(2, 1)] := fun hn => (readsWithin_singleton n 2 1).mpr (by omega)
  unfold socketProcessMeta
  dsimp only
  split_ifs with hfour hcmd height hother
  · exact ⟨_, fun _ => rfl, fun x hx => by cases hx⟩
  · exact ⟨_, fun _ => rfl, hsht (by omega)⟩
  · exact ⟨_, fun _ => rfl, hsht (by omega)⟩
  · exact ⟨_, fun _ => rfl, readsWithin_start env (by omega)⟩
  · refine absurd ⟨by omega, not_not.mp hcmd, ?_⟩ h
    by_contra htype
    exact hother (not_or.mp htype)

lemma metaLoop_start_ends (mem : List UInt8) (timestamps : Bool) (stamp : ℕ) (hn : 8 ≤ n) : ∃ r, ∀ fuel, n < fuel →
      iterate (metaStep env mem timestamps stamp) fuel (MetaState.start env n) = some r := by
  have hleft : (MetaState.start env n).packetLen = (n : ℤ) - 8 := rfl
  obtain ⟨r, -, hr⟩ := @metaLoop_ends env mem timestamps stamp (MetaState.start env n) (by omega)
  exact ⟨r, fun fuel hfuel => hr fuel (by omega)⟩

lemma socketProcessMeta_packet_iff (timestamps : Bool) (stamp : ℕ) (es : List TrunkEntry) (behind packet : List UInt8)
    (hpkt : packet = trunkPacket timestamps stamp (encodeEntries timestamps es)) :
    (∃ r, (∀ fuel, packet.length < fuel →
          socketProcessMeta env (packet ++ behind) packet.length fuel = some r) ∧
        r.Splits env timestamps es) ↔
      Splittable env es := by
  have hlen : packet.length = 8 + (encodeEntries timestamps es).length := by
    rw [hpkt, trunkPacket, length_append, length_append]
    rfl
  have hdrop : (packet ++ behind).drop 8 = encodeEntries timestamps es ++ behind := by
    rw [hpkt, trunkPacket, append_assoc]
    exact drop_left' (by simp)
  have hcmd : (packet ++ behind).getD 2 0 = 1 := by rw [hpkt]; rfl
  have htype : (packet ++ behind).getD 3 0 = if timestamps then 1 else 0 := by rw [hpkt]; rfl
  have hmeta : decide ((packet ++ behind).getD 3 0 = 1) = timestamps := by
    rw [htype]
    cases timestamps <;> rfl
  have hloop := socketProcessMeta_loop env (by omega : 8 ≤ packet.length) hcmd (by
    rw [htype]
    cases timestamps
    · exact .inl rfl
    · exact .inr rfl)
  rw [hmeta] at hloop
  obtain ⟨r, hr⟩ := metaLoop_start_ends env (packet ++ behind) timestamps (u32At (packet ++ behind) 4)
    (by omega : 8 ≤ packet.length)
  rw [exists_result_iff (b := r) (lt_succ_self _) fun fuel hfuel => by rw [hloop]; exact hr fuel hfuel]
  have hsta : AtEntries (packet ++ behind) timestamps (MetaState.start env packet.length) es behind := by
    refine ⟨hdrop, ?_⟩
    change (packet.length : ℤ) - 8 = _
    omega
  have hsplits := metaLoop_splits_iff es hsta (hr _ (lt_succ_self _))
  rw [← hsplits]
  rfl

lemma socketProcessMeta_within_iff (buf behind : List UInt8) : (∃ r, (∀ fuel, buf.length < fuel →
          socketProcessMeta env (buf ++ behind) buf.length fuel = some r) ∧
        ReadsWithin buf.length r.reads) ↔
      MetaFits env buf := by
  have hbyte : ∀ i < buf.length, (buf ++ behind).getD i 0 = buf.getD i 0 := by
    intro i hi
    simp [getElem?_append_left hi]
  by_cases htrunk : 8 ≤ buf.length ∧ (buf ++ behind).getD 2 0 = 1 ∧
      ((buf ++ behind).getD 3 0 = 0 ∨ (buf ++ behind).getD 3 0 = 1)
  · obtain ⟨hn, hcmd, htype⟩ := htrunk
    have hloop := socketProcessMeta_loop env hn hcmd htype
    obtain ⟨r, hr⟩ := metaLoop_start_ends env (buf ++ behind) ((buf ++ behind).getD 3 0 = 1)
      (u32At (buf ++ behind) 4) hn
    have hdrop : (buf ++ behind).drop (MetaState.start env buf.length).ptr = buf.drop 8 ++ behind :=
      drop_append_of_le_length hn
    have hleft : (MetaState.start env buf.length).packetLen = ((buf.drop 8).length : ℤ) := by
      rw [length_drop]
      change (buf.length : ℤ) - 8 = _
      omega
    have hall : (MetaState.start env buf.length).ptr + (buf.drop 8).length = buf.length := by
      rw [length_drop]
      change 8 + _ = _
      omega
    rw [exists_result_iff (b := r) (lt_succ_self _) fun fuel hfuel => by rw [hloop]; exact hr fuel hfuel,
      metaLoop_within_iff buf.length _ le_rfl hdrop hleft hall (readsWithin_start env hn) (hr _ (lt_succ_self _))]
    rw [hbyte 2 (by omega)] at hcmd
    rw [hbyte 3 (by omega)] at htype ⊢
    exact ⟨fun hfit _ _ _ => hfit, fun hfits => hfits hn hcmd htype⟩
  · obtain ⟨r, hr, hwth⟩ := socketProcessMeta_other env htrunk
    rw [exists_result_iff (b := r) (lt_succ_self _) fun fuel _ => hr fuel]
    refine iff_of_true hwth fun hn hcmd htype => ?_
    rw [← hbyte 2 (by omega)] at hcmd
    rw [← hbyte 3 (by omega)] at htype
    exact absurd ⟨hn, hcmd, htype⟩ htrunk

end

/-- **Trunk frames**: for every packet of every run of the sender, the receiver ends, visits exactly
the entries and hands over their payloads, just if the entries are splittable. For arbitrary bytes
it reads nothing behind them just if the headers that it looks for are inside. -/
theorem socketProcessMeta_iff (env : TrunkEnv) :
    (∀ cfg events, ∀ p ∈ (trunkRun cfg events).sent, ∀ behind : List UInt8,
        (∃ r, (∀ fuel, p.1.length < fuel → socketProcessMeta env (p.1 ++ behind) p.1.length fuel = some r) ∧
            r.Splits env cfg.timestamps p.2) ↔
          Splittable env p.2) ∧
      ∀ buf behind : List UInt8,
        (∃ r, (∀ fuel, buf.length < fuel →
              socketProcessMeta env (buf ++ behind) buf.length fuel = some r) ∧
            ReadsWithin buf.length r.reads) ↔
          MetaFits env buf := by
  refine ⟨fun cfg events p hp behind => ?_, socketProcessMeta_within_iff env⟩
  obtain ⟨stamp, hpkt⟩ := (trunkRun_packets cfg events).sent p hp
  exact socketProcessMeta_packet_iff env cfg.timestamps stamp p.2 behind p.1 hpkt

def knowsSeven : TrunkEnv := ⟨fun k => if k = 7 then some ⟨true, 4, true, true, 0⟩ else none, fun _ ts => ts⟩

/-- Two frames of call 7 in one packet. -/
theorem socketProcessMeta_iff_two :
    ∃ r, (∀ fuel, 20 < fuel →
        socketProcessMeta knowsSeven
          ([0, 0, 1, 0, 0, 0, 0, 9, 0, 7, 0, 1, 170, 0, 7, 0, 3, 187, 188, 189] ++ []) 20 fuel = some r) ∧
      r.Splits knowsSeven false [⟨7, 0, [170]⟩, ⟨7, 20, [187, 188, 189]⟩] :=
  ((socketProcessMeta_iff knowsSeven).1 ⟨false, 128000, 0⟩
    [.queue ⟨7, 0, [170]⟩ 5, .queue ⟨7, 20, [187, 188, 189]⟩ 6, .timer 9]
    ([0, 0, 1, 0, 0, 0, 0, 9, 0, 7, 0, 1, 170, 0, 7, 0, 3, 187, 188, 189],
      [⟨7, 0, [170]⟩, ⟨7, 20, [187, 188, 189]⟩]) (by decide) []).mpr
    ⟨by decide, by decide, by decide, by decide, trivial⟩

/-- Call 7 is handed two bytes of a frame of call 5, which the receiver does not know. And six bytes
are read of a packet with four bytes behind its headers. -/
theorem socketProcessMeta_misreads :
    ((trunkPacket false 9 (encodeEntries false [⟨5, 0, [0, 7, 0, 2, 170, 187]⟩, ⟨7, 0, [204]⟩]),
          [⟨5, 0, [0, 7, 0, 2, 170, 187]⟩, ⟨7, 0, [204]⟩]) ∈
        (trunkRun ⟨false, 128000, 0⟩
          [.queue ⟨5, 0, [0, 7, 0, 2, 170, 187]⟩ 5, .queue ⟨7, 0, [204]⟩ 6, .timer 9]).sent) ∧
      (socketProcessMeta knowsSeven
          (trunkPacket false 9 (encodeEntries false [⟨5, 0, [0, 7, 0, 2, 170, 187]⟩, ⟨7, 0, [204]⟩]))
          23 24).map (fun r => r.deliveries.map TrunkDelivery.content) =
        some [(7, [170, 187]), (7, [204])] ∧
      (socketProcessMeta knowsSeven [0, 0, 1, 1, 0, 0, 0, 9, 0, 0, 0, 7] 12 13).map
          (fun r => r.reads) = some [(2, 1), (4, 4), (3, 1), (8, 6)] := by
  decide

end Telephony.Iax2
