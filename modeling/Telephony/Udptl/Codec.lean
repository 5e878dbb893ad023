import Mathlib.Data.List.Basic

/-!
# UDPTL open types: lengths and octet strings on the wire

`decode_length`, `decode_open_type`, `encode_length` and `encode_open_type` of `main/udptl.c`. The
decoders are modelled on the octets that are left (the source's `limit - *len`). The encoders append
to the packet buffer; `len` is the number of octets written so far.
-/

namespace Telephony.Udptl

open List Nat

abbrev Bytes := List UInt8

/-! ## Decoding -/

/-- The results of `decode_length`: `-1`, `0` with the value, or `1` (a fragment) with the value.
Source: `decode_length` -/
inductive DecodedLength
  | fail
  | value (n : ℕ) (rest : Bytes)
  | fragment (n : ℕ) (rest : Bytes)
  deriving DecidableEq, Repr

def decodeLength : Bytes → DecodedLength
  | [] => .fail
  | b :: rest =>
    if b.toNat &&& 0x80 = 0 then .value b.toNat rest
    else if b.toNat &&& 0x40 = 0 then
      match rest with
      | [] => .fail
      | c :: rest => .value (((b.toNat &&& 0x3F) <<< 8) ||| c.toNat) rest
    else .fragment ((b.toNat &&& 0x3F) <<< 14) rest

/-- Decode an open type: its octets and what is left. Fragments are not processed. -/
def decodeOpenType (bs : Bytes) : Option (Bytes × Bytes) :=
  match decodeLength bs with
  | .value n rest => if rest.length < n then none else some (rest.take n, rest.drop n)
  | _ => none

/-! ## Encoding -/

/-- Encode a length determinant: the octets to append and the number of octets they announce. -/
def encodeLength (value : ℕ) : Bytes × ℕ :=
  if value < 0x80 then ([UInt8.ofNat value], value)
  else if value < 0x4000 then
    ([UInt8.ofNat (((0x8000 ||| value) >>> 8) &&& 0xFF), UInt8.ofNat (value &&& 0xFF)], value)
  else
    let multiplier := if value < 0x10000 then value >>> 14 else 4
    ([UInt8.ofNat (0xC0 ||| multiplier)], multiplier <<< 14)

/-- The fragment loop of `encode_open_type`: the octets in the packet buffer, and whether the string
is among them. Every round but the last writes at least `0x4000` octets, so `data.length + 1` rounds
are more than enough.
Source: `encode_open_type` ("Encode the open type") -/
def packFragments : ℕ → ℕ → Bytes → Bytes → Bytes × Bool
  | 0, _, out, _ => (out, false)
  | fuel + 1, buflen, out, data =>
    let enc := encodeLength data.length
    let out := out ++ enc.1
    if buflen < enc.2 + out.length then (out, false)
    else if data.length ≤ enc.2 then (out ++ data.take enc.2, true)
    else packFragments fuel buflen (out ++ data.take enc.2) (data.drop enc.2)

/-- Append an open type to the packet. A zero length string is sent as a single zero octet.
Source: `encode_open_type` -/
def packOpenType (buflen : ℕ) (out data : Bytes) : Bytes × Bool :=
  let data := if data.length = 0 then [0] else data
  packFragments (data.length + 1) buflen out data

/-- What is sent: nothing when the buffer was too small. -/
def ofPacked (packed : Bytes × Bool) : Option Bytes := if packed.2 then some packed.1 else none

def encodeOpenType (buflen : ℕ) (out data : Bytes) : Option Bytes := ofPacked (packOpenType buflen out data)

def openType (data : Bytes) : Bytes := (encodeLength data.length).1 ++ data

lemma encodeOpenType_of_lt {buflen : ℕ} {out data : Bytes} (h0 : data ≠ [])
    (hlt : data.length < 0x4000) :
    encodeOpenType buflen out data =
      if buflen < (out ++ openType data).length then none else some (out ++ openType data) := by
  have henc : (encodeLength data.length).2 = data.length := by
    unfold encodeLength
    split_ifs <;> rfl
  have hne : data.length ≠ 0 := fun h => h0 (length_eq_zero_iff.mp h)
  have hsum : data.length + (out ++ (encodeLength data.length).1).length = (out ++ openType data).length := by
    simp only [openType, length_append]
    omega
  simp only [encodeOpenType, packOpenType, if_neg hne, packFragments, henc, hsum, Nat.le_refl, if_true]
  split_ifs
  · rfl
  · simp [ofPacked, openType]

/-! ## Round trip -/

lemma highOctet_bits : ∀ k < 64, (128 ||| k) &&& 0xFF = 128 + k ∧ (128 + k) &&& 0x80 ≠ 0 ∧
    (128 + k) &&& 0x40 = 0 ∧ (128 + k) &&& 0x3F = k := by
  decide

lemma decodeLength_encodeLength {n : ℕ} (h : n < 0x4000) (rest : Bytes) :
    decodeLength ((encodeLength n).1 ++ rest) = .value n rest := by
  have hbyte : ∀ {m : ℕ}, m < 256 → (UInt8.ofNat m).toNat = m := fun hm => by exact mod_eq_of_lt hm
  unfold encodeLength
  split_ifs with h1
  · have hbit : ∀ m < 0x80, m &&& 0x80 = 0 := by decide
    simp [decodeLength, hbyte (show n < 256 by omega), hbit n h1]
  obtain ⟨hhigh, hflag, hfrag, hlow⟩ := highOctet_bits (n / 256) (by omega)
  have hfst : ((0x8000 ||| n) >>> 8) &&& 0xFF = 128 + n / 256 := by
    rwa [shiftRight_or_distrib, shiftRight_eq_div_pow n]
  have hsec : n &&& 0xFF = n % 256 := and_two_pow_sub_one_eq_mod n 8
  have hval : ((n / 256) <<< 8) ||| (n % 256) = n := by
    rw [← shiftLeft_add_eq_or_of_lt (show n % 256 < 2 ^ 8 by omega)]
    omega
  simp only [cons_append, nil_append, decodeLength, hfst, hsec,
    hbyte (show 128 + n / 256 < 256 by omega), hbyte (show n % 256 < 256 by omega),
    if_neg hflag, if_pos hfrag, hlow, hval]

lemma decodeOpenType_openType {data : Bytes} (h : data.length < 0x4000) (rest : Bytes) :
    decodeOpenType (openType data ++ rest) = some (data, rest) := by
  have hd := decodeLength_encodeLength h (data ++ rest)
  unfold decodeOpenType
  rw [openType, append_assoc, hd]
  simp

end Telephony.Udptl
