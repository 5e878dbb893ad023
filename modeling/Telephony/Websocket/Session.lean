import Telephony.Lib.Memory
import Telephony.Lib.NetworkOrder
import Telephony.Lib.Word

/-!
# WebSocket sessions

`res/res_http_websocket.c` reads the frames that a peer sends into the fixed buffer of a session,
first two bytes of header, then the rest of the header, then the payload. Frames of a message are
put together up to a limit. A read that would not stay in the buffer is noted and ends the run
(`Status.wild`). Memory for the payload of a message is always available.
-/

namespace Telephony.Websocket

open Lib

/-! ## Data model -/

inductive Opcode
  | continuation
  | text
  | binary
  | close
  | ping
  | pong
  | other (n : ℕ)
  deriving DecidableEq, Repr

def Opcode.ofNibble : ℕ → Opcode
  | 0 => .continuation
  | 1 => .text
  | 2 => .binary
  | 8 => .close
  | 9 => .ping
  | 10 => .pong
  | n => .other n

def Opcode.Known : Opcode → Prop
  | .other _ => False
  | _ => True

instance : DecidablePred Opcode.Known
  | .other _ => isFalse id
  | .continuation | .text | .binary | .close | .ping | .pong => isTrue trivial

/-- What a read finds: bytes, nothing yet (`EAGAIN`), or an error. When no arrival is left the
connection is closed. -/
inductive Arrival
  | data (bytes : List UInt8)
  | again
  | failed
  deriving DecidableEq, Repr

structure Stream where
  arrivals : List Arrival
  waits : List Bool
  writes : List Bool
  deriving DecidableEq, Repr

/-- What is to be seen from outside: the reads with their target, size and outcome, the reasons of
closing, the answers to pings. -/
inductive Event
  | read (offset len got count : ℕ)
  | close (reason : ℕ)
  | pong (payload : List UInt8)
  deriving DecidableEq, Repr

/-- Source: `struct ast_websocket` -/
structure Session where
  lowMemory : Bool
  stream : Stream
  connected : Bool
  opcode : Opcode
  payload : List UInt8
  reconstruct : ℕ
  closing : Bool
  closeSent : Bool
  closeStatusCode : ℕ
  buf : Memory
  events : List Event

/-- Source: `AST_WEBSOCKET_MAX_RX_PAYLOAD_SIZE` -/
def Session.rxSize (s : Session) : ℕ := if s.lowMemory then 8192 else 65535

/-- How `ws_safe_read` ends: it has all bytes, it returns -1, it returns -1 and the session is
closing, or a read has left the buffer. -/
inductive Status
  | done
  | failed
  | aborted
  | wild
  deriving DecidableEq, Repr

def Status.opcode (status : Status) (opcode : Opcode) : Opcode := if status = .aborted then .close else opcode

/-- The header of a frame: its opcode and flags, the length of the payload, the size of the header
itself and where the mask stands in the buffer. -/
structure Header where
  opcode : Opcode
  fin : Bool
  masked : Bool
  payloadLen : ℕ
  size : ℕ
  mask : ℕ
  deriving DecidableEq, Repr

/-- What comes of reading a header: the reader has failed, the opcode is not known, or there is a
frame. -/
inductive Parsed
  | failed (status : Status) (opcode : Opcode) (payloadLen : ℕ)
  | unknown (opcode : Opcode) (payloadLen : ℕ)
  | frame (h : Header)
  deriving DecidableEq, Repr

/-- What a call returns, and leaves in the variables of the caller: `payload` are the bytes that it
may use, `payloadLen` is the number that it gets. -/
structure Result where
  ret : ℤ
  opcode : Opcode
  payload : List UInt8
  payloadLen : ℕ
  fragmented : Bool
  deriving DecidableEq, Repr

/-! ## Reading -/

namespace Stream

inductive Outcome
  | bytes (bs : List UInt8)
  | again
  | failed

def read (self : Stream) (count : ℕ) : Outcome × Stream :=
  match self.arrivals with
  | [] => (.bytes [], self)
  | .again :: rest => (.again, { self with arrivals := rest })
  | .failed :: rest => (.failed, { self with arrivals := rest })
  | .data bs :: rest =>
    (.bytes (bs.take count),
      { self with arrivals := if bs.length ≤ count then rest else .data (bs.drop count) :: rest })

/-- Source: `ast_iostream_wait_for_input` -/
def wait (self : Stream) : Bool × Stream := (self.waits.headD false, { self with waits := self.waits.tail })

def write (self : Stream) : Bool × Stream := (self.writes.headD false, { self with writes := self.writes.tail })

end Stream

structure Reading where
  stream : Stream
  events : List Event
  got : List UInt8
  status : Status

/-- The loop, with the attempts that are left. `len` is put into an `int`, and what is left of it is
given to the stream as a `size_t`.
Source: `ws_safe_read` -/
def safeReadLoop (size offset len : ℕ) : ℕ → Stream → List UInt8 → List Event → Reading
  | 0, st, got, ev => ⟨st, ev, got, .aborted⟩
  | sanity + 1, st, got, ev =>
    let xlen := toInt len - got.length
    let count := toSize xlen
    let ev := ev ++ [.read (offset + got.length) len got.length count]
    if size < offset + got.length + count then ⟨st, ev, got, .wild⟩
    else
      match st.read count with
      | (.failed, st) => ⟨st, ev, got, .aborted⟩
      | (.again, st) =>
        if sanity = 0 then ⟨st, ev, got, .aborted⟩
        else if st.wait.1 then ⟨st.wait.2, ev, got, .aborted⟩
        else safeReadLoop size offset len sanity st.wait.2 got ev
      | (.bytes bs, st) =>
        if bs.length = xlen then ⟨st, ev, got ++ bs, .done⟩
        else if bs = [] then ⟨st, ev, got, .aborted⟩
        else if sanity = 0 then ⟨st, ev, got ++ bs, .aborted⟩
        else if st.wait.1 then ⟨st.wait.2, ev, got ++ bs, .aborted⟩
        else safeReadLoop size offset len sanity st.wait.2 (got ++ bs) ev

namespace Session

def afterRead (s : Session) (offset : ℕ) (r : Reading) : Session :=
  { s with
    stream := r.stream, buf := s.buf.write offset r.got, events := s.events ++ r.events,
    closing := s.closing || r.status = .aborted }

def safeRead (s : Session) (offset len : ℕ) : Session × Status :=
  if len = 0 then (s, .failed)
  else if s.connected = false then (s, .failed)
  else
    let r := safeReadLoop s.rxSize offset len 10 s.stream [] []
    (s.afterRead offset r, r.status)

/-! ## Closing and answering -/

def close (s : Session) (reason : ℕ) : Session :=
  let s := { s with events := s.events ++ [.close reason] }
  if s.closeSent then s
  else
    { s with
      closing := true, closeSent := true, stream := s.stream.write.2,
      connected := s.connected && !s.stream.write.1 }

/-- Source: `ast_websocket_write` -/
def writePong (s : Session) (payload : List UInt8) : Session × Bool :=
  if s.closing then (s, false)
  else if s.stream.write.1 then ({ s with stream := s.stream.write.2 }.close 1011, false)
  else ({ s with stream := s.stream.write.2, events := s.events ++ [.pong payload] }, true)

/-! ## A frame -/

def optionsLen (masked : Bool) (len : ℕ) : ℕ :=
  (if masked then 4 else 0) + if len = 126 then 2 else if len = 127 then 8 else 0

def header (buf : Memory) : Header :=
  let len := (buf 1).toNat % 128
  let masked := decide ((buf 1).toNat / 128 = 1)
  { opcode := .ofNibble ((buf 0).toNat % 16)
    fin := (buf 0).toNat / 128 = 1
    masked := masked
    payloadLen :=
      if len = 126 then ofBigEndian (buf.slice 2 2) else if len = 127 then ofBigEndian (buf.slice 2 8) else len
    size := 2 + optionsLen masked len
    mask := if len = 126 then 4 else if len = 127 then 10 else 2 }

def readPart (s : Session) (offset len : ℕ) : Session × Status :=
  if len = 0 then (s, .done) else s.safeRead offset len

/-- Source: `ast_websocket_read` -/
def readHeader (s : Session) (opcode : Opcode) : Session × Parsed :=
  match s.safeRead 0 2 with
  | (s, .done) =>
    let opcode := Opcode.ofNibble ((s.buf 0).toNat % 16)
    let len := (s.buf 1).toNat % 128
    if opcode.Known then
      match s.readPart 2 (optionsLen ((s.buf 1).toNat / 128 = 1) len) with
      | (s, .done) => (s, .frame (header s.buf))
      | (s, status) => (s, .failed status opcode len)
    else (s, .unknown opcode len)
  | (s, status) => (s, .failed status opcode 0)

/-- Source: `ast_websocket_read` -/
def unmasked (buf : Memory) (h : Header) : List UInt8 :=
  let data := buf.slice h.size h.payloadLen
  if h.masked then data.mapIdx fun i b => b ^^^ buf (h.mask + i % 4) else data

/-- Source: `ast_websocket_read` ("Below this point we") -/
def deliver (s : Session) (h : Header) (data : List UInt8) : Session × Result :=
  let s := { s with payload := s.payload ++ data }
  if h.fin = false ∧ s.reconstruct ≠ 0 ∧ s.payload.length < s.reconstruct then
    ({ s with opcode := if h.opcode ≠ .continuation then h.opcode else s.opcode }, ⟨0, .continuation, [], 0, false⟩)
  else
    ({ s with payload := [] },
      { ret := 0
        opcode := if h.opcode = .continuation ∧ h.fin then s.opcode else h.opcode
        payload := s.payload
        payloadLen := s.payload.length
        fragmented := h.opcode = .continuation ∧ h.fin = false })

/-- Source: `ast_websocket_read` -/
def handle (s : Session) (h : Header) (data : List UInt8) : Session × Result :=
  match h.opcode with
  | .ping =>
    let (s, written) := s.writePong data
    (if written then s else s.close 1009, ⟨0, .ping, [], 0, false⟩)
  | .pong => (s, ⟨0, .pong, [], 0, false⟩)
  | .close =>
    ({ s with
      closing := true
      closeStatusCode := if 2 ≤ data.length then ofBigEndian (data.take 2) else s.closeStatusCode },
      ⟨0, .close, [], 0, false⟩)
  | _ => s.deliver h data

def read (s : Session) (opcode : Opcode) : Session × Option Result :=
  match { s with events := [] }.readHeader opcode with
  | (s, .failed .wild _ _) => (s, none)
  | (s, .failed status opcode len) => (s, some ⟨-1, status.opcode opcode, [], len, false⟩)
  | (s, .unknown opcode len) => (s.close 1003, some ⟨0, opcode, [], len, false⟩)
  | (s, .frame h) =>
    let frameSize := (h.size + h.payloadLen) % 2 ^ 64
    if s.rxSize < frameSize then (s.close 1009, some ⟨-1, h.opcode, [], h.payloadLen, false⟩)
    else
      match s.readPart h.size h.payloadLen with
      | (s, .done) =>
        let data := unmasked s.buf h
        let (s, r) := { s with buf := s.buf.write h.size data }.handle h data
        (s, some r)
      | (s, .wild) => (s, none)
      | (s, status) => (s, some ⟨-1, status.opcode h.opcode, [], h.payloadLen, false⟩)

def reconstructEnable (s : Session) (bytes : ℕ) : Session := { s with reconstruct := min bytes s.rxSize }

end Session

end Telephony.Websocket
