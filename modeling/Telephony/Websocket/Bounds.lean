import Telephony.Websocket.Session

/-!
# Reads stay in the buffer of a session

The size of a frame is the size of its header plus the length of its payload, which the peer chooses
freely, up to 2^64 - 1. The sum is a `size_t`: when it comes to 2^64 it starts again at 0, and the
check against the buffer passes.
-/

namespace Telephony.Websocket

open Lib List

/-! ## Numbers -/

lemma toSize_sub {n k : ℕ} (hle : k ≤ n) (h : n < 2 ^ 31) : toSize ((n : ℤ) - k) = n - k := by
  unfold toSize
  omega

lemma toSize_toInt_of_ge {n : ℕ} (hlow : 2 ^ 64 - 14 ≤ n) (hhigh : n < 2 ^ 64) : toSize (toInt n) = n := by
  unfold toSize toInt int32
  rw [Int.bmod_def]
  omega

/-! ## The reader -/

def Event.Good (size : ℕ) : Event → Prop
  | .read offset len got count => offset + count ≤ size ∧ got + count = len
  | _ => True

lemma Stream.read_length {st : Stream} {count : ℕ} {bs : List UInt8} {st' : Stream}
    (h : st.read count = (.bytes bs, st')) : bs.length ≤ count := by
  unfold Stream.read at h
  split at h
  · cases h
    exact Nat.zero_le _
  · cases h
  · cases h
  · cases h
    exact length_take_le _ _

lemma safeReadLoop_good {size offset len : ℕ} (hsize : size < 2 ^ 31) (hfit : offset + len ≤ size) (sanity : ℕ)
    (st : Stream) (got : List UInt8) (ev : List Event) (hgot : got.length < len)
    (hev : ∀ e ∈ ev, e.Good size) :
    (safeReadLoop size offset len sanity st got ev).status ≠ .wild ∧
      ∀ e ∈ (safeReadLoop size offset len sanity st got ev).events, e.Good size := by
  induction sanity generalizing st got ev with
  | zero => exact ⟨by simp [safeReadLoop], hev⟩
  | succ sanity ih =>
    have hint : toInt len = len := toInt_of_lt (by omega)
    have hcnt : toSize ((len : ℤ) - got.length) = len - got.length := toSize_sub hgot.le (by omega)
    have hev' : ∀ e ∈ ev ++ [Event.read (offset + got.length) len got.length (len - got.length)], e.Good size := by
      intro e he
      rcases mem_append.mp he with he | he
      · exact hev e he
      · obtain rfl := mem_singleton.mp he
        exact ⟨by omega, by omega⟩
    simp only [safeReadLoop, hint, hcnt]
    rw [if_neg (by omega)]
    split
    · exact ⟨by simp, hev'⟩
    · split_ifs
      · exact ⟨by simp, hev'⟩
      · exact ⟨by simp, hev'⟩
      · exact ih _ _ _ hgot hev'
    rename_i bs st' hread
    have hle := Stream.read_length hread
    split_ifs with hall
    · exact ⟨by simp, hev'⟩
    · exact ⟨by simp, hev'⟩
    · exact ⟨by simp, hev'⟩
    · exact ⟨by simp, hev'⟩
    · refine ih _ _ _ ?_ hev'
      rw [length_append]
      omega

lemma safeReadLoop_wild {size len : ℕ} (hsize : size < 2 ^ 31) (hlow : 2 ^ 64 - 14 ≤ len)
    (hhigh : len < 2 ^ 64) (offset sanity : ℕ) (st : Stream) :
    safeReadLoop size offset len (sanity + 1) st [] [] = ⟨st, [.read offset len 0 len], [], .wild⟩ := by
  have hcnt : toSize (toInt len - ([] : List UInt8).length) = len := by
    simp only [length_nil, Nat.cast_zero, Int.sub_zero]
    exact toSize_toInt_of_ge hlow hhigh
  simp only [safeReadLoop, hcnt]
  rw [if_pos (by omega)]
  simp

namespace Session

variable {s s' : Session} {size offset len : ℕ} {opcode : Opcode} {h : Header} {status : Status}

lemma rxSize_bounds (s : Session) : 14 ≤ s.rxSize ∧ s.rxSize < 2 ^ 31 := by
  unfold rxSize
  split_ifs <;> omega

lemma rxSize_congr (h : s'.lowMemory = s.lowMemory) : s'.rxSize = s.rxSize := by
  unfold rxSize
  rw [h]

def Tidy (s : Session) (size : ℕ) : Prop := ∀ e ∈ s.events, e.Good size

lemma Tidy.note (htidy : s.Tidy size) {e : Event} (he : e.Good size)
    (hevs : s'.events = s.events ++ [e]) : s'.Tidy size := by
  intro e' he'
  rw [hevs] at he'
  rcases mem_append.mp he' with he' | he'
  · exact htidy e' he'
  · obtain rfl := mem_singleton.mp he'
    exact he

/-! ## The parts of a call -/

section

variable (s : Session) (offset len : ℕ)

lemma safeRead_cases : s.safeRead offset len = (s, .failed) ∨
      len ≠ 0 ∧ s.connected = true ∧ ∃ r, r = safeReadLoop s.rxSize offset len 10 s.stream [] [] ∧
        s.safeRead offset len = (s.afterRead offset r, r.status) := by
  unfold safeRead
  split_ifs with hzero hcon
  · exact .inl rfl
  · exact .inl rfl
  · exact .inr ⟨hzero, Bool.eq_true_of_not_eq_false hcon, _, rfl, rfl⟩

lemma safeRead_lowMemory : (s.safeRead offset len).1.lowMemory = s.lowMemory := by
  rcases safeRead_cases s offset len with heq | ⟨-, -, r, -, heq⟩
  · rw [heq]
  · rw [heq]
    rfl

lemma readPart_lowMemory : (s.readPart offset len).1.lowMemory = s.lowMemory := by
  unfold readPart
  split_ifs
  · rfl
  · exact safeRead_lowMemory s offset len

end

lemma safeRead_connected (hdone : (s.safeRead offset len).2 = .done) :
    (s.safeRead offset len).1.connected = true := by
  rcases safeRead_cases s offset len with heq | ⟨-, hcon, r, -, heq⟩
  · rw [heq] at hdone
    cases hdone
  · rwa [heq]

section

variable (htidy : s.Tidy s.rxSize) (offset len : ℕ) (hfit : offset + len ≤ s.rxSize)
include htidy hfit

lemma safeRead_tidy : (s.safeRead offset len).1.Tidy s.rxSize ∧ (s.safeRead offset len).2 ≠ .wild := by
  rcases safeRead_cases s offset len with heq | ⟨hzero, -, r, hr, heq⟩
  · rw [heq]
    exact ⟨htidy, by simp⟩
  obtain ⟨hwild, hgood⟩ := safeReadLoop_good s.rxSize_bounds.2 hfit 10 s.stream [] []
    (Nat.pos_of_ne_zero hzero) (by simp)
  rw [← hr] at hwild hgood
  rw [heq]
  refine ⟨fun e he => ?_, hwild⟩
  rcases mem_append.mp he with he | he
  · exact htidy e he
  · exact hgood e he

lemma readPart_tidy : (s.readPart offset len).1.Tidy s.rxSize ∧ (s.readPart offset len).2 ≠ .wild := by
  unfold readPart
  split_ifs
  · exact ⟨htidy, by simp⟩
  · exact safeRead_tidy htidy offset len hfit

end

lemma optionsLen_le (masked : Bool) (len : ℕ) : optionsLen masked len ≤ 12 := by
  unfold optionsLen
  split_ifs <;> omega

lemma readHeader_tidy (htidy : s.Tidy s.rxSize) (opcode : Opcode) :
    (s.readHeader opcode).1.Tidy s.rxSize ∧ (s.readHeader opcode).1.lowMemory = s.lowMemory ∧
      ∀ opcode' len, (s.readHeader opcode).2 ≠ .failed .wild opcode' len := by
  have hbounds := s.rxSize_bounds
  obtain ⟨htidy₁, hwild₁⟩ := safeRead_tidy htidy 0 2 (by omega)
  have hlow₁ := safeRead_lowMemory s 0 2
  unfold readHeader
  rcases hread : s.safeRead 0 2 with ⟨s₁, status₁⟩
  rw [hread] at htidy₁ hwild₁ hlow₁
  cases status₁ with
  | done =>
    dsimp only
    split_ifs with hkn
    · have hoptions := optionsLen_le ((s₁.buf 1).toNat / 128 = 1) ((s₁.buf 1).toNat % 128)
      have hsize : s₁.rxSize = s.rxSize := rxSize_congr hlow₁
      rw [← hsize] at htidy₁ ⊢
      dsimp only at htidy₁
      obtain ⟨htidy₂, hwild₂⟩ := readPart_tidy htidy₁ 2
        (optionsLen ((s₁.buf 1).toNat / 128 = 1) ((s₁.buf 1).toNat % 128)) (by omega)
      have hlow₂ := readPart_lowMemory s₁ 2 (optionsLen ((s₁.buf 1).toNat / 128 = 1) ((s₁.buf 1).toNat % 128))
      rcases hread₂ : s₁.readPart 2 (optionsLen ((s₁.buf 1).toNat / 128 = 1) ((s₁.buf 1).toNat % 128)) with
        ⟨s₂, status₂⟩
      rw [hread₂] at htidy₂ hwild₂ hlow₂
      have hlow := hlow₂.trans hlow₁
      cases status₂ with
      | done | failed | aborted => exact ⟨htidy₂, hlow, by simp⟩
      | wild => exact absurd rfl hwild₂
    · exact ⟨htidy₁, hlow₁, by simp⟩
  | failed | aborted => exact ⟨htidy₁, hlow₁, by simp⟩
  | wild => exact absurd rfl hwild₁

lemma readPart_done_connected (hcon : s.connected = true) (hdone : (s.readPart offset len).2 = .done) :
    (s.readPart offset len).1.connected = true := by
  unfold readPart at hdone ⊢
  split_ifs at hdone ⊢
  · exact hcon
  · exact safeRead_connected hdone

lemma header_bounds (buf : Memory) : (header buf).size ≤ 14 ∧ (header buf).payloadLen < 2 ^ 64 := by
  constructor
  · have hoptions := optionsLen_le ((buf 1).toNat / 128 = 1) ((buf 1).toNat % 128)
    simp only [header]
    omega
  · have htwo := ofBigEndian_lt (buf.slice 2 2)
    have height := ofBigEndian_lt (buf.slice 2 8)
    rw [Memory.slice_length] at htwo height
    simp only [header]
    split_ifs <;> omega

lemma readHeader_frame (hfr : s.readHeader opcode = (s', .frame h)) : h = header s'.buf ∧ s'.connected = true := by
  unfold readHeader at hfr
  rcases hread : s.safeRead 0 2 with ⟨s₁, status₁⟩
  rw [hread] at hfr
  cases status₁ with
  | done =>
    have hcon₁ : s₁.connected = true := by
      have := safeRead_connected (s := s) (congrArg Prod.snd hread)
      rwa [hread] at this
    dsimp only at hfr
    split_ifs at hfr with hkn
    · rcases hread₂ : s₁.readPart 2 (optionsLen ((s₁.buf 1).toNat / 128 = 1) ((s₁.buf 1).toNat % 128)) with
        ⟨s₂, status₂⟩
      rw [hread₂] at hfr
      cases status₂ with
      | done =>
        have hcon₂ := readPart_done_connected hcon₁ (congrArg Prod.snd hread₂)
        rw [hread₂] at hcon₂
        cases hfr
        exact ⟨rfl, hcon₂⟩
      | failed => cases hfr
      | aborted => cases hfr
      | wild => cases hfr
    · cases hfr
  | failed => cases hfr
  | aborted => cases hfr
  | wild => cases hfr

/-! ## What follows the payload -/

lemma close_events (s : Session) (reason : ℕ) : Event.close reason ∈ (s.close reason).events := by
  unfold close
  dsimp only
  split_ifs <;> simp

section

variable (htidy : s.Tidy size)
include htidy

lemma close_tidy (reason : ℕ) : (s.close reason).Tidy size := by
  unfold close
  dsimp only
  split_ifs
  all_goals exact htidy.note (e := .close reason) trivial rfl

lemma writePong_tidy (payload : List UInt8) : (s.writePong payload).1.Tidy size := by
  unfold writePong
  split_ifs
  · exact htidy
  · have htidy' : { s with stream := s.stream.write.2 }.Tidy size := htidy
    exact close_tidy htidy' 1011
  · exact htidy.note (e := .pong payload) trivial rfl

lemma deliver_tidy (h : Header) (data : List UInt8) : (s.deliver h data).1.Tidy size := by
  unfold deliver
  dsimp only
  split <;> exact htidy

lemma handle_tidy (h : Header) (data : List UInt8) : (s.handle h data).1.Tidy size := by
  unfold handle
  split
  · have hpong := writePong_tidy htidy data
    dsimp only
    split_ifs
    · exact hpong
    · exact close_tidy hpong 1009
  · exact htidy
  · exact htidy
  · exact deliver_tidy htidy h data

end

/-! ## A call -/

structure CallSafe (s : Session) (opcode : Opcode) : Prop where
  reads : ∀ e ∈ (s.read opcode).1.events, e.Good s.rxSize
  closes : ∀ s' h, { s with events := [] }.readHeader opcode = (s', .frame h) →
    s.rxSize < h.size + h.payloadLen →
      Event.close 1009 ∈ (s.read opcode).1.events ∧ ∃ r, (s.read opcode).2 = some r ∧ r.ret = -1

def NoWrap (s : Session) (opcode : Opcode) : Prop :=
  ∀ s' h, { s with events := [] }.readHeader opcode = (s', .frame h) → h.size + h.payloadLen < 2 ^ 64

lemma read_wild (hfr : { s with events := [] }.readHeader opcode = (s', .frame h))
    (hwrap : 2 ^ 64 ≤ h.size + h.payloadLen) : (s.read opcode).2 = none := by
  obtain ⟨hhdr, hcon⟩ := readHeader_frame hfr
  obtain ⟨hsize, hlen⟩ := header_bounds s'.buf
  rw [← hhdr] at hsize hlen
  have hbounds := s'.rxSize_bounds
  have hloop := safeReadLoop_wild hbounds.2 (by omega) hlen h.size 9 s'.stream
  have hpart : (s'.readPart h.size h.payloadLen).2 = .wild := by
    unfold readPart safeRead
    rw [if_neg (by omega), if_neg (by omega), if_neg (by simp [hcon]), hloop]
  unfold read
  rw [hfr]
  dsimp only
  rw [if_neg (by omega)]
  rcases hread : s'.readPart h.size h.payloadLen with ⟨s₂, status₂⟩
  rw [hread] at hpart
  cases hpart
  rfl

lemma read_tidy (hwrap : s.NoWrap opcode) : (s.read opcode).1.Tidy s.rxSize := by
  obtain ⟨htidy, hlow, hwild⟩ := readHeader_tidy (s := { s with events := [] })
    (fun e he => absurd he (by simp)) opcode
  unfold read
  rcases hread : { s with events := [] }.readHeader opcode with ⟨s₁, parsed⟩
  rw [hread] at htidy hlow hwild ⊢
  have hsize : s₁.rxSize = s.rxSize := rxSize_congr hlow
  cases parsed with
  | failed status opcode' len =>
    cases status with
    | wild => exact absurd rfl (hwild opcode' len)
    | done => exact htidy
    | failed => exact htidy
    | aborted => exact htidy
  | unknown opcode' len => exact close_tidy htidy 1003
  | frame h =>
    have hsum : (h.size + h.payloadLen) % 2 ^ 64 = h.size + h.payloadLen := Nat.mod_eq_of_lt (hwrap s₁ h hread)
    dsimp only
    split_ifs with hfits
    · exact close_tidy htidy 1009
    obtain ⟨htidy₂, hwild₂⟩ := readPart_tidy (s := s₁) (by rw [hsize]; exact htidy) h.size h.payloadLen (by omega)
    rw [hsize] at htidy₂
    rcases hread₂ : s₁.readPart h.size h.payloadLen with ⟨s₂, status₂⟩
    rw [hread₂] at htidy₂ hwild₂
    cases status₂ with
    | done =>
      have htidy₃ : { s₂ with buf := s₂.buf.write h.size (unmasked s₂.buf h) }.Tidy s.rxSize := htidy₂
      exact handle_tidy htidy₃ h (unmasked s₂.buf h)
    | failed => exact htidy₂
    | aborted => exact htidy₂
    | wild => exact absurd rfl hwild₂

lemma read_closes (hwrap : s.NoWrap opcode) (hfr : { s with events := [] }.readHeader opcode = (s', .frame h))
    (hbig : s.rxSize < h.size + h.payloadLen) :
    Event.close 1009 ∈ (s.read opcode).1.events ∧ ∃ r, (s.read opcode).2 = some r ∧ r.ret = -1 := by
  obtain ⟨-, hlow, -⟩ := readHeader_tidy (s := { s with events := [] }) (fun e he => absurd he (by simp)) opcode
  rw [hfr] at hlow
  have hsize : s'.rxSize = s.rxSize := rxSize_congr hlow
  have hsum : (h.size + h.payloadLen) % 2 ^ 64 = h.size + h.payloadLen := Nat.mod_eq_of_lt (hwrap s' h hfr)
  unfold read
  rw [hfr]
  dsimp only
  rw [if_pos (by omega)]
  exact ⟨close_events s' 1009, _, rfl, rfl⟩

lemma callSafe_iff (s : Session) (opcode : Opcode) : s.CallSafe opcode ↔ s.NoWrap opcode := by
  constructor
  · intro hsafe s' h hfr
    by_contra hwrap
    have hbounds := s.rxSize_bounds
    obtain ⟨-, r, hres, -⟩ := hsafe.closes s' h hfr (by omega)
    rw [read_wild hfr (by omega)] at hres
    cases hres
  · intro hwrap
    exact ⟨read_tidy hwrap, fun s' h hfr hbig => read_closes hwrap hfr hbig⟩

/-! ## Any number of calls -/

def readRun (s : Session) (calls : List Opcode) : Session := calls.foldl (fun s opcode => (s.read opcode).1) s

/-- **Reads stay in the buffer**: all calls of a run are safe just when every frame that comes has a
size that is a `size_t`. -/
theorem readRun_safe_iff (s : Session) (calls : List Opcode) :
    (∀ before opcode after, calls = before ++ opcode :: after → (s.readRun before).CallSafe opcode) ↔
      ∀ before opcode after, calls = before ++ opcode :: after → (s.readRun before).NoWrap opcode := by
  constructor
  · intro hsafe before opcode after hcls
    exact (callSafe_iff _ _).mp (hsafe before opcode after hcls)
  · intro hwrap before opcode after hcls
    exact (callSafe_iff _ _).mpr (hwrap before opcode after hcls)

def start (lowMemory : Bool) (stream : Stream) : Session :=
  { lowMemory := lowMemory, stream := stream, connected := true, opcode := .other 15, payload := []
    reconstruct := 0, closing := false, closeSent := false, closeStatusCode := 0, buf := fun _ => 0, events := [] }

/-- The first frame has 2^64 - 1 bytes: the check takes its size for 9, and as many bytes are asked
for from the tenth byte of the buffer on. -/
theorem readRun_not_safe :
    ¬ ∀ before opcode after, [Opcode.continuation] = before ++ opcode :: after →
      ((start false ⟨[.data [0x82, 0x7f, 0xff, 0xff, 0xff, 0xff, 0xff, 0xff, 0xff, 0xff]], [], []⟩).readRun
        before).CallSafe opcode := by
  intro hsafe
  have hrds := (hsafe [] .continuation [] rfl).reads
  have hevent : Event.read 10 (2 ^ 64 - 1) 0 (2 ^ 64 - 1) ∈
      ((start false ⟨[.data [0x82, 0x7f, 0xff, 0xff, 0xff, 0xff, 0xff, 0xff, 0xff, 0xff]], [], []⟩).read
        .continuation).1.events := by
    decide +kernel
  exact absurd (hrds _ hevent).1 (by decide)

end Session

end Telephony.Websocket
