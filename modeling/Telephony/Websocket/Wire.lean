import Telephony.Websocket.Bounds

/-!
# Frames on the wire

What a peer may send as a frame, and what one call makes of it.
-/

namespace Telephony.Websocket

open Lib List

/-! ## Frames -/

inductive LengthForm
  | short
  | two
  | eight
  deriving DecidableEq, Repr

namespace LengthForm

def extra : LengthForm → ℕ
  | short => 0
  | two => 2
  | eight => 8

def bound : LengthForm → ℕ
  | short => 126
  | two => 2 ^ 16
  | eight => 2 ^ 64

def code : LengthForm → ℕ → ℕ
  | short, n => n
  | two, _ => 126
  | eight, _ => 127

def pick {α : Type} : LengthForm → α → α → α → α
  | short, c, _, _ => c
  | two, _, a, _ => a
  | eight, _, _, b => b

lemma pick_code {α : Type} (form : LengthForm) {n : ℕ} (h : n < form.bound) (a b c : α) :
    (if form.code n = 126 then a else if form.code n = 127 then b else c) = form.pick c a b := by
  cases form with
  | short =>
    have hn : n < 126 := h
    have hfst : ¬ n = 126 := by omega
    have hsec : ¬ n = 127 := by omega
    exact (if_neg hfst).trans (if_neg hsec)
  | two => rfl
  | eight => rfl

end LengthForm

structure Piece where
  payload : List UInt8
  reserved : Fin 8
  mask : Option (Fin 4 → UInt8)
  form : LengthForm
  spelled : payload.length < form.bound

def Opcode.nibble : Opcode → ℕ
  | .continuation => 0
  | .text => 1
  | .binary => 2
  | .close => 8
  | .ping => 9
  | .pong => 10
  | .other n => n

namespace Piece

variable (p : Piece)

def maskBytes : List UInt8 := (p.mask.map List.ofFn).getD []

def options : List UInt8 := bigEndian p.form.extra p.payload.length ++ p.maskBytes

def body : List UInt8 :=
  match p.mask with
  | none => p.payload
  | some mask => p.payload.mapIdx fun i b => b ^^^ mask ⟨i % 4, Nat.mod_lt _ (by decide)⟩

def second : ℕ := (if p.mask.isSome then 128 else 0) + p.form.code p.payload.length

end Piece

structure Frame where
  opcode : Opcode
  fin : Bool
  piece : Piece

namespace Frame

variable (f : Frame)

def first : ℕ := (if f.fin then 128 else 0) + f.piece.reserved.val * 16 + f.opcode.nibble

def bytes : List UInt8 :=
  [UInt8.ofNat f.first, UInt8.ofNat f.piece.second] ++ f.piece.options ++ f.piece.body

def asks : List ℕ := [2, f.piece.options.length, f.piece.payload.length]

def Fits (size : ℕ) : Prop := 2 + f.piece.options.length + f.piece.payload.length ≤ size

end Frame

/-! ## What is read back -/

lemma Opcode.ofNibble_nibble {opcode : Opcode} (h : opcode.Known) :
    Opcode.ofNibble opcode.nibble = opcode ∧ opcode.nibble < 16 := by
  cases opcode with
  | other n => exact absurd h id
  | continuation => decide
  | text => decide
  | binary => decide
  | close => decide
  | ping => decide
  | pong => decide

namespace Piece

variable (p : Piece)

lemma maskBytes_length : p.maskBytes.length = if p.mask.isSome then 4 else 0 := by
  unfold maskBytes
  cases p.mask <;> simp

lemma options_length : p.options.length = p.form.extra + if p.mask.isSome then 4 else 0 := by
  rw [options, length_append, length_bigEndian, maskBytes_length]

lemma body_length : p.body.length = p.payload.length := by
  unfold body
  cases p.mask <;> simp

lemma code_lt : p.form.code p.payload.length < 128 := by
  have h := p.spelled
  cases hform : p.form <;> rw [hform] at h <;> simp only [LengthForm.code, LengthForm.bound] at h ⊢ <;> omega

lemma optionsLen_code : Session.optionsLen p.mask.isSome (p.form.code p.payload.length) = p.options.length := by
  rw [options_length, Nat.add_comm, Session.optionsLen, p.form.pick_code p.spelled]
  cases p.form <;> rfl

lemma second_div : decide ((UInt8.ofNat p.second).toNat / 128 = 1) = p.mask.isSome := by
  have h := p.code_lt
  unfold second
  rw [UInt8.toNat_ofNat']
  cases p.mask.isSome with
  | true => exact decide_eq_true (by rw [if_pos rfl]; omega)
  | false => exact decide_eq_false (by rw [if_neg Bool.false_ne_true]; omega)

lemma second_mod : (UInt8.ofNat p.second).toNat % 128 = p.form.code p.payload.length := by
  have h := p.code_lt
  unfold second
  rw [UInt8.toNat_ofNat']
  split_ifs <;> omega

lemma payloadLen_code (mem : Memory) :
    (if p.form.code p.payload.length = 126 then ofBigEndian ((mem.write 2 p.options).slice 2 2)
      else if p.form.code p.payload.length = 127 then ofBigEndian ((mem.write 2 p.options).slice 2 8)
      else p.form.code p.payload.length) = p.payload.length := by
  have h := p.spelled
  have hsl : (mem.write 2 p.options).slice 2 p.form.extra = bigEndian p.form.extra p.payload.length := by
    rw [Memory.slice_write_part (i := 0) (by rw [options_length]; omega), drop_zero, options,
      take_left' (length_bigEndian _ _)]
  rw [p.form.pick_code h]
  cases hform : p.form with
  | short => rfl
  | two =>
    rw [hform] at h hsl
    have hlt : p.payload.length < 256 ^ 2 := h.trans_eq (by decide)
    simp only [LengthForm.extra] at hsl
    simp [LengthForm.pick, hsl, ofBigEndian_bigEndian 2 _ hlt]
  | eight =>
    rw [hform] at h hsl
    have hlt : p.payload.length < 256 ^ 8 := h.trans_eq (by decide)
    simp only [LengthForm.extra] at hsl
    simp [LengthForm.pick, hsl, ofBigEndian_bigEndian 8 _ hlt]

end Piece

namespace Frame

variable (f : Frame)

def header : Header :=
  { opcode := f.opcode, fin := f.fin, masked := f.piece.mask.isSome, payloadLen := f.piece.payload.length
    size := 2 + f.piece.options.length, mask := 2 + f.piece.form.extra }

def headed (buf : Memory) : Memory :=
  (buf.write 0 [UInt8.ofNat f.first, UInt8.ofNat f.piece.second]).write 2 f.piece.options

lemma headed_zero (buf : Memory) : f.headed buf 0 = UInt8.ofNat f.first := by
  rw [headed, Memory.write_of_outside (by omega)]
  exact Memory.write_of_inside (i := 0) (by simp)

lemma headed_one (buf : Memory) : f.headed buf 1 = UInt8.ofNat f.piece.second := by
  rw [headed, Memory.write_of_outside (by omega)]
  exact Memory.write_of_inside (i := 1) (by simp)

lemma first_mod (hkn : f.opcode.Known) : Opcode.ofNibble ((UInt8.ofNat f.first).toNat % 16) = f.opcode := by
  obtain ⟨hop, hnibble⟩ := Opcode.ofNibble_nibble hkn
  have hmod : (UInt8.ofNat f.first).toNat % 16 = f.opcode.nibble := by
    unfold first
    rw [UInt8.toNat_ofNat']
    split_ifs <;> omega
  rw [hmod, hop]

lemma first_div (hkn : f.opcode.Known) : (UInt8.ofNat f.first).toNat / 128 = if f.fin then 1 else 0 := by
  have hnibble := (Opcode.ofNibble_nibble hkn).2
  unfold first
  rw [UInt8.toNat_ofNat']
  split_ifs <;> omega

lemma header_frame (hkn : f.opcode.Known) (buf : Memory) : Session.header (f.headed buf) = f.header := by
  have hlen := f.piece.payloadLen_code (buf.write 0 [UInt8.ofNat f.first, UInt8.ofNat f.piece.second])
  have hfin : decide ((UInt8.ofNat f.first).toNat / 128 = 1) = f.fin := by
    rw [f.first_div hkn]
    cases f.fin <;> rfl
  unfold Session.header header
  simp only [headed_zero, headed_one, f.piece.second_mod, f.piece.second_div, hfin, f.first_mod hkn, Header.mk.injEq, true_and]
  refine ⟨hlen, ?_, ?_⟩
  · rw [f.piece.optionsLen_code]
  · rw [f.piece.form.pick_code f.piece.spelled]
    cases f.piece.form <;> rfl

lemma headed_mask {mask : Fin 4 → UInt8} (hmask : f.piece.mask = some mask) (buf : Memory) (i : Fin 4) :
    f.headed buf (2 + f.piece.form.extra + i) = mask i := by
  have hbs : f.piece.maskBytes = List.ofFn mask := by
    rw [Piece.maskBytes, hmask]
    rfl
  have hlen : f.piece.options.length = f.piece.form.extra + 4 := by
    rw [Piece.options_length, hmask]
    rfl
  rw [headed, Nat.add_assoc, Memory.write_of_inside (by omega), Piece.options, hbs,
    getD_append_right _ _ _ _ (by rw [length_bigEndian]; omega), length_bigEndian, Nat.add_sub_cancel_left,
    getD_eq_getElem _ _ (by simp), List.getElem_ofFn]

lemma unmasked_frame (buf : Memory) :
    Session.unmasked ((f.headed buf).write (2 + f.piece.options.length) f.piece.body) f.header = f.piece.payload := by
  have hdata : ((f.headed buf).write (2 + f.piece.options.length) f.piece.body).slice
      (2 + f.piece.options.length) f.piece.payload.length = f.piece.body := by
    rw [← f.piece.body_length]
    exact Memory.slice_write
  unfold Session.unmasked header
  simp only [hdata]
  cases hmask : f.piece.mask with
  | none => simp [Piece.body, hmask]
  | some mask =>
    have hlen : f.piece.options.length = f.piece.form.extra + 4 := by
      rw [Piece.options_length, hmask]
      rfl
    simp only [Option.isSome_some, if_true]
    rw [Piece.body, hmask]
    refine ext_getElem (by simp) fun i h₁ h₂ => ?_
    have hlt := Nat.mod_lt i (show 0 < 4 by decide)
    simp only [getElem_mapIdx]
    rw [Memory.write_of_outside (by omega), f.headed_mask hmask buf ⟨i % 4, hlt⟩, UInt8.xor_assoc, UInt8.xor_self,
      UInt8.xor_zero]

end Frame

/-! ## A call on a frame -/

/-- The next `n` bytes, when they come in at most `tries` portions, none of which is empty or a
failure, and it was possible to wait for each of the later ones. -/
def supply : (tries n : ℕ) → List Arrival → List Bool → Option (List UInt8 × List Arrival × List Bool)
  | tries + 1, n, .data bs :: rest, waits =>
    if n ≤ bs.length then some (bs.take n, if bs.length ≤ n then rest else .data (bs.drop n) :: rest, waits)
    else if bs = [] ∨ waits.headD false then none
    else (supply tries (n - bs.length) rest waits.tail).map fun r => (bs ++ r.1, r.2)
  | tries + 1, n, .again :: rest, waits => if waits.headD false then none else supply tries n rest waits.tail
  | _, _, _, _ => none

/-- Reads of these sizes get the bytes. -/
def Serves : List ℕ → List UInt8 → List Arrival → List Bool → Prop
  | [], _, _, _ => True
  | n :: ns, bytes, arrivals, waits =>
    if n = 0 then Serves ns bytes arrivals waits
    else
      ∃ arrivals' waits', supply 10 n arrivals waits = some (bytes.take n, arrivals', waits') ∧
        Serves ns (bytes.drop n) arrivals' waits'

/-- The reader takes what is supplied. Induction on the portions. -/
lemma safeReadLoop_supply {size offset len tries : ℕ} {arrivals arrivals' : List Arrival} {waits waits' : List Bool}
    {got bs : List UInt8} (hsize : size < 2 ^ 31) (hfit : offset + len ≤ size) (hgot : got.length < len)
    (hsup : supply tries (len - got.length) arrivals waits = some (bs, arrivals', waits')) (writes : List Bool)
    (ev : List Event) :
    ∃ events, safeReadLoop size offset len tries ⟨arrivals, waits, writes⟩ got ev =
      ⟨⟨arrivals', waits', writes⟩, events, got ++ bs, .done⟩ := by
  induction tries generalizing arrivals waits got bs ev with
  | zero => simp [supply] at hsup
  | succ tries ih =>
    have hint : toInt len = len := toInt_of_lt (by omega)
    have hcnt : toSize ((len : ℤ) - got.length) = len - got.length := toSize_sub hgot.le (by omega)
    have hlater : ∀ {n rest bs waits}, supply tries n rest waits = some bs → tries ≠ 0 := by
      rintro n rest bs waits h rfl
      simp [supply] at h
    simp only [safeReadLoop, hint, hcnt]
    rw [if_neg (by omega)]
    rcases arrivals with _ | ⟨bytes | _ | _, rest⟩
    · simp [supply] at hsup
    · rw [supply] at hsup
      by_cases hall : len - got.length ≤ bytes.length
      · rw [if_pos hall] at hsup
        cases hsup
        have hlen : ((bytes.take (len - got.length)).length : ℤ) = len - got.length := by
          rw [length_take_of_le hall]
          omega
        exact ⟨_, by simp only [Stream.read, hlen, if_true]; rfl⟩
      rw [if_neg hall] at hsup
      split_ifs at hsup with hbad
      obtain ⟨hne, hwait⟩ : bytes ≠ [] ∧ waits.headD false = false := by simpa using hbad
      obtain ⟨⟨bs', later⟩, hrest, heq⟩ := Option.map_eq_some_iff.mp hsup
      cases heq
      have htake : bytes.take (len - got.length) = bytes := take_of_length_le (by omega)
      have hmore : (got ++ bytes).length < len := by
        rw [length_append]
        omega
      obtain ⟨events, hloop⟩ := ih hmore
        (by rwa [length_append, Nat.sub_add_eq])
        (ev ++ [.read (offset + got.length) len got.length (len - got.length)])
      refine ⟨events, ?_⟩
      simp only [Stream.read, Stream.wait, htake, hwait]
      rw [if_neg (by omega), if_neg hne, if_neg (hlater hrest), if_neg Bool.false_ne_true, if_pos (by omega), hloop,
        append_assoc]
    · rw [supply] at hsup
      split_ifs at hsup with hbad
      have hwait : waits.headD false = false := by simpa using hbad
      obtain ⟨events, hloop⟩ := ih hgot hsup (ev ++ [.read (offset + got.length) len got.length (len - got.length)])
      refine ⟨events, ?_⟩
      simp only [Stream.read, Stream.wait, hwait]
      rw [if_neg (hlater hsup), if_neg Bool.false_ne_true, hloop]
    · simp [supply] at hsup

namespace Session

variable {s : Session} {f : Frame} {n : ℕ} {asks : List ℕ} {bytes more : List UInt8}

lemma readPart_serves (hcon : s.connected = true)
    (hsrv : Serves (n :: asks) bytes s.stream.arrivals s.stream.waits) (offset : ℕ)
    (hfit : offset + n ≤ s.rxSize) :
    ∃ arrivals waits events,
      s.readPart offset n =
        ({ s with
          stream := ⟨arrivals, waits, s.stream.writes⟩, buf := s.buf.write offset (bytes.take n)
          events := events }, .done) ∧
        Serves asks (bytes.drop n) arrivals waits := by
  unfold readPart
  rw [Serves] at hsrv
  split_ifs at hsrv ⊢ with hzero
  · subst hzero
    refine ⟨s.stream.arrivals, s.stream.waits, s.events, ?_, hsrv⟩
    rw [take_zero, Memory.write_nil]
  obtain ⟨arrivals, waits, hsup, hnext⟩ := hsrv
  obtain ⟨events, hread⟩ := safeReadLoop_supply s.rxSize_bounds.2 hfit
    (show ([] : List UInt8).length < _ from Nat.pos_of_ne_zero hzero) hsup s.stream.writes []
  refine ⟨arrivals, waits, s.events ++ events, ?_, hnext⟩
  unfold safeRead
  rw [if_neg hzero, if_neg (by simp [hcon]), hread]
  simp [afterRead]

lemma frame_take : (f.bytes ++ more).take 2 = [UInt8.ofNat f.first, UInt8.ofNat f.piece.second] := by
  simp [Frame.bytes]

lemma frame_drop : (f.bytes ++ more).drop 2 = f.piece.options ++ (f.piece.body ++ more) := by
  simp [Frame.bytes]

section

variable (hkn : f.opcode.Known) (hcon : s.connected = true)
  (hsrv : Serves (f.asks ++ asks) (f.bytes ++ more) s.stream.arrivals s.stream.waits)
include hkn hcon hsrv

lemma readHeader_serves (opcode : Opcode) : ∃ arrivals waits events, s.readHeader opcode = ({ s with
          stream := ⟨arrivals, waits, s.stream.writes⟩, buf := f.headed s.buf, events := events },
          .frame f.header) ∧
        Serves (f.piece.payload.length :: asks) (f.piece.body ++ more) arrivals waits := by
  have hbounds := s.rxSize_bounds
  have hoptions := f.piece.optionsLen_code
  have hlen := optionsLen_le f.piece.mask.isSome (f.piece.form.code f.piece.payload.length)
  obtain ⟨arrivals₁, waits₁, events₁, hread₁, hsrv₁⟩ := readPart_serves hcon hsrv 0 (by omega)
  rw [frame_take] at hread₁
  rw [frame_drop] at hsrv₁
  obtain ⟨s₁, hs₁⟩ : ∃ s₁ : Session, s₁ = { s with
    stream := ⟨arrivals₁, waits₁, s.stream.writes⟩
    buf := s.buf.write 0 [UInt8.ofNat f.first, UInt8.ofNat f.piece.second], events := events₁ } := ⟨_, rfl⟩
  rw [← hs₁] at hread₁
  have hsize : s₁.rxSize = s.rxSize := rxSize_congr (by rw [hs₁])
  obtain ⟨arrivals₂, waits₂, events₂, hread₂, hsrv₂⟩ :=
    readPart_serves (s := s₁) (n := f.piece.options.length) (by rw [hs₁]; exact hcon)
      (by rw [hs₁]; exact hsrv₁) 2 (by omega)
  rw [take_left' rfl] at hread₂
  rw [drop_left' rfl] at hsrv₂
  have hsafe : s.safeRead 0 2 = (s₁, .done) := by rw [← hread₁, readPart, if_neg (by decide)]
  have hzero : s₁.buf 0 = UInt8.ofNat f.first := by
    rw [hs₁]
    simp [Memory.write]
  have hone : s₁.buf 1 = UInt8.ofNat f.piece.second := by
    rw [hs₁]
    simp [Memory.write]
  refine ⟨arrivals₂, waits₂, events₂, ?_, hsrv₂⟩
  unfold readHeader
  rw [hsafe]
  dsimp only
  rw [hzero, hone, f.first_mod hkn, if_pos hkn, f.piece.second_mod, f.piece.second_div, hoptions, hread₂]
  have hbuf : s₁.buf.write 2 f.piece.options = f.headed s.buf := by
    rw [hs₁]
    rfl
  dsimp only
  rw [hbuf, f.header_frame hkn, hs₁]

lemma read_frame (hfits : f.Fits s.rxSize) (opcode : Opcode) : ∃ arrivals waits events buf, s.read opcode =
        (({ s with stream := ⟨arrivals, waits, s.stream.writes⟩, buf := buf, events := events }.handle f.header
            f.piece.payload).1,
          some ({ s with
            stream := ⟨arrivals, waits, s.stream.writes⟩, buf := buf, events := events }.handle f.header
              f.piece.payload).2) ∧
        Serves asks more arrivals waits := by
  obtain ⟨arrivals₁, waits₁, events₁, hread₁, hsrv₁⟩ :=
    readHeader_serves (s := { s with events := [] }) hkn hcon hsrv opcode
  obtain ⟨s₁, hs₁⟩ : ∃ s₁ : Session, s₁ = { s with
    stream := ⟨arrivals₁, waits₁, s.stream.writes⟩, buf := f.headed s.buf, events := events₁ } := ⟨_, rfl⟩
  have hsize : s₁.rxSize = s.rxSize := rxSize_congr (by rw [hs₁])
  unfold Frame.Fits at hfits
  obtain ⟨arrivals₂, waits₂, events₂, hread₂, hsrv₂⟩ :=
    readPart_serves (s := s₁) (n := f.piece.payload.length) (by rw [hs₁]; exact hcon)
      (by rw [hs₁]; exact hsrv₁) (2 + f.piece.options.length) (by omega)
  rw [take_left' f.piece.body_length] at hread₂
  rw [drop_left' f.piece.body_length] at hsrv₂
  have hdata : unmasked (s₁.buf.write (2 + f.piece.options.length) f.piece.body) f.header = f.piece.payload := by
    rw [hs₁]
    exact f.unmasked_frame s.buf
  refine ⟨arrivals₂, waits₂, events₂,
    ((f.headed s.buf).write (2 + f.piece.options.length) f.piece.body).write (2 + f.piece.options.length)
      f.piece.payload, ?_, hsrv₂⟩
  unfold read
  rw [hread₁]
  dsimp only
  rw [← hs₁, if_neg (by simp only [Frame.header]; omega)]
  simp only [Frame.header] at hread₂ hdata ⊢
  rw [hread₂]
  dsimp only
  rw [hdata, hs₁]

lemma read_large (hbig : ¬ f.Fits s.rxSize) (opcode : Opcode) (r : Result) (hr : (s.read opcode).2 = some r) :
    r.ret ≠ 0 := by
  obtain ⟨arrivals, waits, events, hread, -⟩ :=
    readHeader_serves (s := { s with events := [] }) hkn hcon hsrv opcode
  have hsum : ¬ f.header.size + f.header.payloadLen ≤ s.rxSize := hbig
  rcases Nat.lt_or_ge (f.header.size + f.header.payloadLen) (2 ^ 64) with hlt | hge
  · have hwrap : s.NoWrap opcode := by
      intro s' h hfr
      rw [hread] at hfr
      cases hfr
      exact hlt
    obtain ⟨-, r', hr', hret⟩ := read_closes hwrap hread (by omega)
    rw [hr] at hr'
    cases hr'
    omega
  · rw [read_wild hread hge] at hr
    cases hr

end

end Session

end Telephony.Websocket
