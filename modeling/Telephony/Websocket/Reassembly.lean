import Telephony.Websocket.Wire

/-!
# Messages are put together

A peer splits a message into frames as it likes, and pings may come between any two of them. What
the calls hand out is to be the message. `Assembler` is a session without bytes and buffers;
`read_refines` is the simulation for one call.
-/

namespace Telephony.Websocket

open Lib List

/-! ## The assembler -/

structure Assembler where
  payload : List UInt8
  opcode : Opcode
  deriving DecidableEq, Repr

def silent (opcode : Opcode) : Result := ⟨0, opcode, [], 0, false⟩

namespace Assembler

def take (limit : ℕ) (a : Assembler) (f : Frame) : Assembler × Result :=
  if f.fin = false ∧ limit ≠ 0 ∧ (a.payload ++ f.piece.payload).length < limit then
    (⟨a.payload ++ f.piece.payload, if f.opcode ≠ .continuation then f.opcode else a.opcode⟩, silent .continuation)
  else
    (⟨[], a.opcode⟩,
      { ret := 0
        opcode := if f.opcode = .continuation ∧ f.fin then a.opcode else f.opcode
        payload := a.payload ++ f.piece.payload
        payloadLen := (a.payload ++ f.piece.payload).length
        fragmented := f.opcode = .continuation ∧ f.fin = false })

def step (limit : ℕ) (a : Assembler) (f : Frame) : Assembler × Result :=
  match f.opcode with
  | .ping => (a, silent .ping)
  | .pong => (a, silent .pong)
  | _ => a.take limit f

def run (limit : ℕ) : Assembler → List Frame → Assembler × List Result
  | a, [] => (a, [])
  | a, f :: fs => ((run limit (a.step limit f).1 fs).1, (a.step limit f).2 :: (run limit (a.step limit f).1 fs).2)

variable {limit : ℕ} {a : Assembler}

lemma run_append (fs gs : List Frame) :
    a.run limit (fs ++ gs) =
      (((a.run limit fs).1.run limit gs).1, (a.run limit fs).2 ++ ((a.run limit fs).1.run limit gs).2) := by
  induction fs generalizing a with
  | nil => rfl
  | cons f fs ih => simp [run, ih]

lemma run_length (fs : List Frame) : (a.run limit fs).2.length = fs.length := by
  induction fs generalizing a with
  | nil => rfl
  | cons f fs ih => simp [run, ih]

end Assembler

/-! ## Sessions are assemblers -/

def Frame.Plain (f : Frame) : Prop := f.opcode.Known ∧ f.opcode ≠ .close

namespace Session

/-- The session is connected, its answers are written, its reads get the bytes that come next, and
it keeps what the assembler keeps. -/
structure Holds (s : Session) (a : Assembler) (size limit : ℕ) (asks : List ℕ) (bytes : List UInt8) : Prop where
  connected : s.connected = true
  writes : ∀ w ∈ s.stream.writes, w = false
  serves : Serves asks bytes s.stream.arrivals s.stream.waits
  payload : s.payload = a.payload
  opcode : s.opcode = a.opcode
  rxSize : s.rxSize = size
  reconstruct : s.reconstruct = limit

variable {s : Session} {a : Assembler} {size limit : ℕ} {asks : List ℕ} {bytes more : List UInt8} {f : Frame}
  {calls : List Opcode} {fs : List Frame}

section

variable (h : s.Holds a size limit asks bytes)
include h

lemma Holds.write : s.stream.write.1 = false ∧ { s with stream := s.stream.write.2 }.Holds a size limit asks bytes := by
  have hwrs := h.writes
  constructor
  · unfold Stream.write
    cases hlist : s.stream.writes with
    | nil => rfl
    | cons w ws =>
      rw [hlist] at hwrs
      exact hwrs w (mem_cons_self ..)
  · exact { h with writes := fun w hw => hwrs w (mem_of_mem_tail hw) }

lemma Holds.close (reason : ℕ) : (s.close reason).Holds a size limit asks bytes := by
  obtain ⟨hwr, hnext⟩ := h.write
  unfold Session.close
  dsimp only
  split_ifs
  · exact { h with }
  · exact { hnext with connected := by simp [h.connected, hwr] }

lemma Holds.writePong (payload : List UInt8) : (s.writePong payload).1.Holds a size limit asks bytes := by
  obtain ⟨hwr, hnext⟩ := h.write
  unfold Session.writePong
  split_ifs
  · exact h
  · exact hnext.close 1011
  · exact { hnext with }

lemma Holds.deliver (f : Frame) : (s.deliver f.header f.piece.payload).2 = (a.take limit f).2 ∧
      (s.deliver f.header f.piece.payload).1.Holds (a.take limit f).1 size limit asks bytes := by
  unfold Session.deliver Assembler.take
  simp only [Frame.header, h.payload, h.opcode, h.reconstruct]
  split
  all_goals exact ⟨rfl, { h with payload := rfl, opcode := rfl, reconstruct := rfl }⟩

lemma Holds.handle (hpln : f.Plain) : (s.handle f.header f.piece.payload).2 = (a.step limit f).2 ∧
      (s.handle f.header f.piece.payload).1.Holds (a.step limit f).1 size limit asks bytes := by
  have hop : f.header.opcode = f.opcode := rfl
  unfold Session.handle Assembler.step
  rw [hop]
  cases hcase : f.opcode with
  | ping =>
    have hpong := h.writePong f.piece.payload
    refine ⟨rfl, ?_⟩
    dsimp only
    split_ifs
    · exact hpong
    · exact hpong.close 1009
  | pong => exact ⟨rfl, h⟩
  | close => exact absurd hcase hpln.2
  | continuation => exact h.deliver f
  | text => exact h.deliver f
  | binary => exact h.deliver f
  | other n =>
    have hkn := hpln.1
    rw [hcase] at hkn
    exact absurd hkn id

end

lemma read_refines (h : s.Holds a size limit (f.asks ++ asks) (f.bytes ++ more)) (hpln : f.Plain)
    (hfits : f.Fits size) (opcode : Opcode) :
    (s.read opcode).2 = some (a.step limit f).2 ∧ (s.read opcode).1.Holds (a.step limit f).1 size limit asks more := by
  obtain ⟨arrivals, waits, events, buf, hread, hsrv⟩ :=
    read_frame hpln.1 h.connected h.serves (h.rxSize.symm ▸ hfits) opcode
  have hnext : { s with stream := ⟨arrivals, waits, s.stream.writes⟩, buf := buf, events := events }.Holds a size limit
      asks more :=
    { h with serves := hsrv }
  obtain ⟨hres, hhandled⟩ := hnext.handle hpln
  rw [hread]
  exact ⟨congrArg some hres, hhandled⟩

def results : Session → List Opcode → List (Option Result)
  | _, [] => []
  | s, opcode :: calls => (s.read opcode).2 :: results (s.read opcode).1 calls

def Good (r : Option Result) : Prop := ∃ q, r = some q ∧ q.ret = 0

section

variable (h : s.Holds a size limit (fs.flatMap Frame.asks) (fs.flatMap Frame.bytes ++ more))
  (hpln : ∀ f ∈ fs, f.Plain)
include h hpln

lemma results_eq_run (hfits : ∀ f ∈ fs, f.Fits size) (hcls : calls.length = fs.length) :
    s.results calls = (a.run limit fs).2.map some := by
  induction fs generalizing s a calls with
  | nil =>
    obtain rfl := length_eq_zero_iff.mp hcls
    rfl
  | cons f fs ih =>
    obtain ⟨opcode, calls, rfl⟩ := exists_cons_of_length_eq_add_one hcls
    rw [flatMap_cons, flatMap_cons, append_assoc] at h
    obtain ⟨hres, hnext⟩ := read_refines h (hpln f (mem_cons_self ..)) (hfits f (mem_cons_self ..)) opcode
    have hrest := ih hnext (fun g hg => hpln g (mem_cons_of_mem _ hg))
      (fun g hg => hfits g (mem_cons_of_mem _ hg)) (Nat.succ.inj hcls)
    rw [results, hres, hrest, Assembler.run, map_cons]

lemma fits_of_good (hcls : calls.length = fs.length) (hgood : ∀ r ∈ s.results calls, Good r) :
    ∀ f ∈ fs, f.Fits size := by
  induction fs generalizing s a calls with
  | nil => exact fun f hf => absurd hf (by simp)
  | cons f fs ih =>
    obtain ⟨opcode, calls, rfl⟩ := exists_cons_of_length_eq_add_one hcls
    rw [flatMap_cons, flatMap_cons, append_assoc] at h
    have hf : f.Fits size := by
      by_contra hbig
      obtain ⟨q, hq, hret⟩ := hgood _ (mem_cons_self ..)
      exact read_large (hpln f (mem_cons_self ..)).1 h.connected h.serves (h.rxSize.symm ▸ hbig) opcode q hq hret
    obtain ⟨-, hnext⟩ := read_refines h (hpln f (mem_cons_self ..)) hf opcode
    intro g hg
    rcases mem_cons.mp hg with rfl | hg
    · exact hf
    · exact ih hnext (fun g hg => hpln g (mem_cons_of_mem _ hg)) (Nat.succ.inj hcls)
        (fun r hr => hgood r (mem_cons_of_mem _ hr)) g hg

end

end Session

/-! ## Messages -/

structure Control where
  pong : Bool
  fin : Bool
  piece : Piece

def Control.frame (c : Control) : Frame := ⟨if c.pong then .pong else .ping, c.fin, c.piece⟩

structure Part where
  controls : List Control
  piece : Piece

structure Message where
  binary : Bool
  first : Part
  rest : List Part

/-- The frames of the parts; the first gets this opcode, the last ends the message. -/
def partFrames : Opcode → Part → List Part → List Frame
  | opcode, p, [] => p.controls.map Control.frame ++ [⟨opcode, true, p.piece⟩]
  | opcode, p, q :: rest =>
    p.controls.map Control.frame ++ ⟨opcode, false, p.piece⟩ :: partFrames .continuation q rest

def partsPayload (parts : List Part) : List UInt8 := parts.flatMap fun p => p.piece.payload

namespace Message

variable (m : Message)

def opcode : Opcode := if m.binary then .binary else .text

def payload : List UInt8 := partsPayload (m.first :: m.rest)

def frames : List Frame := partFrames m.opcode m.first m.rest

def Kept (limit : ℕ) : Prop := m.rest = [] ∨ limit ≠ 0 ∧ m.first.piece.payload.length < limit

end Message

def traffic (ms : List Message) (trailing : List Control) : List Frame :=
  ms.flatMap Message.frames ++ trailing.map Control.frame

/-! ## What is asked of the results -/

/-- A piece that is marked as a fragment, or a call that only reports a frame that is kept or a
control frame. -/
def Result.Early (r : Result) : Prop :=
  r.fragmented = true ∨ r.payload = [] ∧ r.opcode ∈ [Opcode.continuation, .ping, .pong]

structure Complete (opcode : Opcode) (payload : List UInt8) (rs : List Result) : Prop where
  ret : ∀ r ∈ rs, r.ret = 0
  lengths : ∀ r ∈ rs, r.payloadLen = r.payload.length
  payloads : rs.flatMap Result.payload = payload
  last : ∃ before r, rs = before ++ [r] ∧ r.opcode = opcode ∧ r.fragmented = false ∧ ∀ q ∈ before, q.Early

def Reassembled (m : Message) (rs : List (Option Result)) : Prop :=
  ∃ qs : List Result, rs = qs.map some ∧ Complete m.opcode m.payload qs

def Faithful : List Message → List (Option Result) → Prop
  | [], rs => ∀ r ∈ rs, ∃ q, r = some q ∧ q.ret = 0 ∧ q.payload = [] ∧ q.payloadLen = 0
  | m :: ms, rs => Reassembled m (rs.take m.frames.length) ∧ Faithful ms (rs.drop m.frames.length)

lemma Faithful.good {ms : List Message} {rs : List (Option Result)} (h : Faithful ms rs) :
    ∀ r ∈ rs, Session.Good r := by
  induction ms generalizing rs with
  | nil =>
    intro r hr
    obtain ⟨q, hq, hret, -⟩ := h r hr
    exact ⟨q, hq, hret⟩
  | cons m ms ih =>
    obtain ⟨⟨qs, hqs, hall⟩, hrest⟩ := h
    intro r hr
    rw [← take_append_drop m.frames.length rs] at hr
    rcases mem_append.mp hr with hr | hr
    · rw [hqs] at hr
      obtain ⟨q, hq, rfl⟩ := mem_map.mp hr
      exact ⟨q, rfl, hall.ret q hq⟩
    · exact ih hrest r hr

namespace Complete

variable {opcode : Opcode} {payload : List UInt8} {rs : List Result}

lemma cons (h : Complete opcode payload rs) {q : Result} (hret : q.ret = 0)
    (hlen : q.payloadLen = q.payload.length) (hearly : q.Early) :
    Complete opcode (q.payload ++ payload) (q :: rs) := by
  obtain ⟨before, r, hrs, hop, hfrag, hbef⟩ := h.last
  refine ⟨?_, ?_, ?_, q :: before, r, ?_, hop, hfrag, ?_⟩
  · exact forall_mem_cons.mpr ⟨hret, h.ret⟩
  · exact forall_mem_cons.mpr ⟨hlen, h.lengths⟩
  · rw [flatMap_cons, h.payloads]
  · rw [hrs, cons_append]
  · exact forall_mem_cons.mpr ⟨hearly, hbef⟩

lemma controls (h : Complete opcode payload rs) (cs : List Control) :
    Complete opcode payload (cs.map (fun c => silent c.frame.opcode) ++ rs) := by
  induction cs with
  | nil => exact h
  | cons c cs ih =>
    have hearly : (silent c.frame.opcode).Early := by
      refine .inr ⟨rfl, ?_⟩
      unfold silent Control.frame
      cases c.pong <;> simp
    exact ih.cons (q := silent c.frame.opcode) rfl rfl hearly

lemma single (payload : List UInt8) (opcode : Opcode) :
    Complete opcode payload [⟨0, opcode, payload, payload.length, false⟩] := by
  refine ⟨by simp, by simp, by simp, [], _, rfl, rfl, rfl, by simp⟩

lemma early {xs ys : List Result} {q : Result} (h : Complete opcode payload (xs ++ q :: ys)) (hys : ys ≠ []) :
    q.Early := by
  obtain ⟨before, r, hrs, -, -, hbef⟩ := h.last
  have hspl := congrArg List.dropLast hrs
  rw [dropLast_concat, dropLast_append_of_ne_nil (by simp), dropLast_cons_of_ne_nil hys] at hspl
  exact hbef q (hspl ▸ by simp)

end Complete

/-! ## What the assembler makes of messages -/

namespace Assembler

variable {limit : ℕ} {a : Assembler} {piece : Piece} {m : Message}

lemma run_controls (cs : List Control) :
    a.run limit (cs.map Control.frame) = (a, cs.map fun c => silent c.frame.opcode) := by
  have hstep : ∀ c : Control, a.step limit c.frame = (a, silent c.frame.opcode) := by
    intro c
    unfold Control.frame
    cases c.pong <;> rfl
  induction cs with
  | nil => rfl
  | cons c cs ih => simp [run, hstep, ih]

lemma step_data {opcode : Opcode} (hop : opcode ∈ [Opcode.continuation, .text, .binary]) (fin : Bool)
    (piece : Piece) : a.step limit ⟨opcode, fin, piece⟩ = a.take limit ⟨opcode, fin, piece⟩ := by
  simp only [mem_cons, not_mem_nil, or_false] at hop
  rcases hop with rfl | rfl | rfl <;> rfl

lemma take_last (opcode : Opcode) (piece : Piece) :
    a.take limit ⟨opcode, true, piece⟩ =
      (⟨[], a.opcode⟩,
        ⟨0, if opcode = .continuation then a.opcode else opcode, a.payload ++ piece.payload,
          (a.payload ++ piece.payload).length, false⟩) := by
  unfold take
  simp

lemma take_kept (opcode : Opcode) (h : limit ≠ 0 ∧ (a.payload ++ piece.payload).length < limit) :
    a.take limit ⟨opcode, false, piece⟩ =
      (⟨a.payload ++ piece.payload, if opcode ≠ .continuation then opcode else a.opcode⟩, silent .continuation) := by
  unfold take
  rw [if_pos ⟨rfl, h⟩]

lemma take_out (opcode : Opcode) (h : ¬ (limit ≠ 0 ∧ (a.payload ++ piece.payload).length < limit)) :
    a.take limit ⟨opcode, false, piece⟩ =
      (⟨[], a.opcode⟩,
        ⟨0, opcode, a.payload ++ piece.payload, (a.payload ++ piece.payload).length,
          decide (opcode = .continuation)⟩) := by
  unfold take
  rw [if_neg fun hkept => h hkept.2]
  simp

lemma silent_early : (silent .continuation).Early := .inr ⟨rfl, by simp [silent]⟩

/-- The parts after the first. Induction on how many are still to come; `a.payload` is what has been
kept. -/
lemma run_rest (p : Part) (rest : List Part) :
    (a.run limit (partFrames .continuation p rest)).1.payload = [] ∧
      Complete a.opcode (a.payload ++ partsPayload (p :: rest))
        (a.run limit (partFrames .continuation p rest)).2 := by
  induction rest generalizing a p with
  | nil =>
    simp only [partFrames, run_append, run_controls, run, step_data (mem_cons_self ..), take_last, true_and]
    refine Complete.controls ?_ p.controls
    simpa [partsPayload] using Complete.single (a.payload ++ p.piece.payload) a.opcode
  | cons q rest ih =>
    simp only [partFrames, run_append, run_controls, run, step_data (mem_cons_self ..)]
    by_cases hkept : limit ≠ 0 ∧ (a.payload ++ p.piece.payload).length < limit
    · rw [take_kept .continuation hkept]
      obtain ⟨hend, hcom⟩ := ih (a := ⟨a.payload ++ p.piece.payload, a.opcode⟩) q
      refine ⟨hend, Complete.controls ?_ p.controls⟩
      rw [append_assoc] at hcom
      exact hcom.cons (q := silent .continuation) rfl rfl silent_early
    rw [take_out .continuation hkept]
    obtain ⟨hend, hcom⟩ := ih (a := ⟨[], a.opcode⟩) q
    refine ⟨hend, Complete.controls ?_ p.controls⟩
    have hall := hcom.cons (q := ⟨0, .continuation, a.payload ++ p.piece.payload,
      (a.payload ++ p.piece.payload).length, true⟩) rfl rfl (.inl rfl)
    rwa [append_assoc] at hall

lemma message_opcode (m : Message) :
    m.opcode ∈ [Opcode.continuation, .text, .binary] ∧ m.opcode ≠ .continuation ∧
      m.opcode ∉ [Opcode.continuation, .ping, .pong] := by
  unfold Message.opcode
  cases m.binary <;> decide

lemma run_kept (ha : a.payload = []) (hkept : m.Kept limit) :
    (a.run limit m.frames).1.payload = [] ∧ Complete m.opcode m.payload (a.run limit m.frames).2 := by
  obtain ⟨hdata, hfst, -⟩ := message_opcode m
  unfold Message.frames Message.payload
  cases hrest : m.rest with
  | nil =>
    simp only [partFrames, run_append, run_controls, run, step_data hdata, take_last, if_neg hfst, ha, true_and]
    refine Complete.controls ?_ m.first.controls
    simpa [partsPayload] using Complete.single m.first.piece.payload m.opcode
  | cons q rest =>
    have hlim : limit ≠ 0 ∧ (a.payload ++ m.first.piece.payload).length < limit := by
      rw [ha]
      exact hkept.resolve_left (by simp [hrest])
    simp only [partFrames, run_append, run_controls, run, step_data hdata, take_kept m.opcode hlim, if_pos hfst, ha]
    obtain ⟨hend, hall⟩ := @run_rest limit ⟨m.first.piece.payload, m.opcode⟩ q rest
    refine ⟨hend, Complete.controls ?_ m.first.controls⟩
    exact hall.cons (q := silent .continuation) rfl rfl silent_early

lemma kept_of_complete (ha : a.payload = [])
    (hall : Complete m.opcode m.payload (a.run limit m.frames).2) : m.Kept limit := by
  by_contra hkept
  obtain ⟨hdata, hfst, hqt⟩ := message_opcode m
  obtain ⟨hrest, hlim⟩ := not_or.mp hkept
  obtain ⟨q, rest, hcons⟩ := exists_cons_of_ne_nil hrest
  have hout : ¬ (limit ≠ 0 ∧ (a.payload ++ m.first.piece.payload).length < limit) := by
    rwa [ha]
  unfold Message.frames at hall
  rw [hcons] at hall
  simp only [partFrames, run_append, run_controls, run, step_data hdata, take_out m.opcode hout] at hall
  have hmore : ((⟨[], a.opcode⟩ : Assembler).run limit (partFrames .continuation q rest)).2 ≠ [] := by
    intro hnil
    have hlen := congrArg List.length hnil
    rw [run_length] at hlen
    cases rest <;> simp [partFrames] at hlen
  rcases hall.early hmore with hfrag | ⟨-, hop⟩
  · exact hfst (of_decide_eq_true hfrag)
  · exact hqt hop

/-- The results of the assembler. Induction on the messages; nothing is kept from one to the
next. -/
lemma faithful_iff (ms : List Message) (trailing : List Control) (ha : a.payload = []) :
    Faithful ms ((a.run limit (traffic ms trailing)).2.map some) ↔ ∀ m ∈ ms, m.Kept limit := by
  induction ms generalizing a with
  | nil =>
    simp only [traffic, flatMap_nil, nil_append, run_controls]
    refine ⟨fun _ m hm => absurd hm (by simp), fun _ r hr => ?_⟩
    rw [map_map] at hr
    obtain ⟨c, -, rfl⟩ := mem_map.mp hr
    exact ⟨silent c.frame.opcode, rfl, rfl, rfl, rfl⟩
  | cons m ms ih =>
    have hspl : traffic (m :: ms) trailing = m.frames ++ traffic ms trailing := by simp [traffic]
    have hlen : ((a.run limit m.frames).2.map some).length = m.frames.length := by rw [length_map, run_length]
    rw [hspl, run_append, map_append, Faithful, take_left' hlen, drop_left' hlen, forall_mem_cons]
    constructor
    · rintro ⟨⟨qs, hqs, hall⟩, hrest⟩
      obtain rfl := (List.map_inj_right fun _ _ h => Option.some.inj h).mp hqs
      have hkept := kept_of_complete ha hall
      exact ⟨hkept, (ih (run_kept ha hkept).1).mp hrest⟩
    · rintro ⟨hkept, hrest⟩
      obtain ⟨hend, hall⟩ := run_kept ha hkept
      exact ⟨⟨_, rfl, hall⟩, (ih hend).mpr hrest⟩

end Assembler

/-! ## What the calls make of messages -/

lemma controls_plain (cs : List Control) : ∀ f ∈ cs.map Control.frame, f.Plain := by
  intro f hf
  obtain ⟨c, -, rfl⟩ := mem_map.mp hf
  unfold Control.frame
  cases c.pong <;> exact ⟨trivial, by simp⟩

lemma data_plain {opcode : Opcode} (hop : opcode ∈ [Opcode.continuation, .text, .binary]) (fin : Bool)
    (piece : Piece) : Frame.Plain ⟨opcode, fin, piece⟩ := by
  simp only [mem_cons, not_mem_nil, or_false] at hop
  rcases hop with rfl | rfl | rfl <;> exact ⟨trivial, by simp⟩

lemma partFrames_plain {opcode : Opcode} (hop : opcode ∈ [Opcode.continuation, .text, .binary]) (p : Part)
    (rest : List Part) : ∀ f ∈ partFrames opcode p rest, f.Plain := by
  induction rest generalizing opcode p with
  | nil =>
    intro f hf
    rcases mem_append.mp hf with hf | hf
    · exact controls_plain _ f hf
    · obtain rfl := mem_singleton.mp hf
      exact data_plain hop true p.piece
  | cons q rest ih =>
    intro f hf
    rcases mem_append.mp hf with hf | hf
    · exact controls_plain _ f hf
    · rcases mem_cons.mp hf with rfl | hf
      · exact data_plain hop false p.piece
      · exact ih (mem_cons_self ..) q f hf

lemma traffic_plain (ms : List Message) (trailing : List Control) : ∀ f ∈ traffic ms trailing, f.Plain := by
  intro f hf
  rcases mem_append.mp hf with hf | hf
  · obtain ⟨m, -, hf⟩ := mem_flatMap.mp hf
    exact partFrames_plain (Assembler.message_opcode m).1 m.first m.rest f hf
  · exact controls_plain trailing f hf

namespace Session

/-- **Messages are put together** just when all frames fit in the buffer and the first frame of
every message of several frames is kept for later. -/
theorem results_faithful_iff (s : Session) (ms : List Message) (trailing : List Control) (more : List UInt8)
    (calls : List Opcode) (hconnected : s.connected = true) (hpayload : s.payload = [])
    (hwrites : ∀ w ∈ s.stream.writes, w = false)
    (hserves : Serves ((traffic ms trailing).flatMap Frame.asks) ((traffic ms trailing).flatMap Frame.bytes ++ more)
      s.stream.arrivals s.stream.waits)
    (hcalls : calls.length = (traffic ms trailing).length) :
    Faithful ms (s.results calls) ↔
      (∀ f ∈ traffic ms trailing, f.Fits s.rxSize) ∧ ∀ m ∈ ms, m.Kept s.reconstruct := by
  have hh : s.Holds ⟨[], s.opcode⟩ s.rxSize s.reconstruct ((traffic ms trailing).flatMap Frame.asks)
      ((traffic ms trailing).flatMap Frame.bytes ++ more) :=
    ⟨hconnected, hwrites, hserves, hpayload, rfl, rfl, rfl⟩
  have hpln := traffic_plain ms trailing
  have hassembled : (∀ f ∈ traffic ms trailing, f.Fits s.rxSize) →
      (Faithful ms (s.results calls) ↔ ∀ m ∈ ms, m.Kept s.reconstruct) := by
    intro hfits
    rw [results_eq_run hh hpln hfits hcalls]
    exact Assembler.faithful_iff ms trailing rfl
  constructor
  · intro hfaithful
    have hfits := fits_of_good hh hpln hcalls hfaithful.good
    exact ⟨hfits, (hassembled hfits).mp hfaithful⟩
  · rintro ⟨hfits, hkept⟩
    exact (hassembled hfits).mpr hkept

end Session

/-! ## A greeting in two frames -/

def greeting : Message :=
  { binary := false
    first := ⟨[], ⟨[72, 105], ⟨0, by decide⟩, none, .short, by decide⟩⟩
    rest := [⟨[⟨false, true, ⟨[1], ⟨0, by decide⟩, some fun _ => 7, .short, by decide⟩⟩],
      ⟨[33], ⟨0, by decide⟩, none, .two, by decide⟩⟩] }

/-- The first three bytes have arrived, and the others come later. -/
def greeted (reconstruct : ℕ) : Session :=
  let bytes := (traffic [greeting] []).flatMap Frame.bytes
  (Session.start false ⟨[.data (bytes.take 3), .again, .data (bytes.drop 3)], [], []⟩).reconstructEnable reconstruct

theorem results_faithful_iff_greeted :
    Faithful [greeting] ((greeted 16).results [.continuation, .continuation, .continuation]) := by
  refine (Session.results_faithful_iff (greeted 16) [greeting] [] [] _ rfl rfl ?_ ?_ rfl).mpr ⟨?_, ?_⟩
  · exact fun w hw => absurd hw (by simp [greeted, Session.start, Session.reconstructEnable])
  · exact ⟨_, _, rfl, _, _, rfl, _, _, rfl, _, _, rfl, _, _, rfl, _, _, rfl, _, _, rfl, _, _, rfl, trivial⟩
  · simp [traffic, greeting, Message.frames, partFrames, Control.frame, Frame.Fits, Piece.options, Piece.maskBytes,
      LengthForm.extra, Session.rxSize, greeted, Session.start, Session.reconstructEnable]
  · intro m hm
    obtain rfl := mem_singleton.mp hm
    exact .inr (by decide)

/-- Without reconstruction the first of the two frames is handed out as if it were the whole
message. -/
theorem results_not_faithful :
    ¬ Faithful [greeting] ((greeted 0).results [.continuation, .continuation, .continuation]) := by
  have hresults : (greeted 0).results [.continuation, .continuation, .continuation] =
      [⟨0, .text, [72, 105], 2, false⟩, silent .ping, ⟨0, .other 15, [33], 1, false⟩].map some := by
    decide +kernel
  rw [hresults]
  rintro ⟨⟨qs, hqs, hall⟩, -⟩
  rw [take_of_length_le (by decide)] at hqs
  obtain rfl := (List.map_inj_right fun _ _ h => Option.some.inj h).mp hqs
  rcases @Complete.early _ _ [] _ _ hall (by simp) with hfrag | ⟨hpay, -⟩
  · cases hfrag
  · cases hpay

end Telephony.Websocket
