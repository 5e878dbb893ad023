import Mathlib.Algebra.BigOperators.Group.List.Basic
import Telephony.Lib.NetworkOrder

/-!
# IAX2 information elements

The information elements of a full frame are collected in a buffer of 1024 bytes. An element is one
byte with its id, one byte with the length of its payload, and the payload.

`appendRaw` adds an element. It looks whether the payload fits, not whether the two bytes in front
of it do: when only they are too much the end of the buffer is passed, where `pos` itself is stored,
and nothing is said about what then happens (`Appended.overrun`, exactly at the sizes of
`appendRaw_overrun_iff`). `splitIes` is the walk of the receiver. Elements that are appended are
found again just if they fit and have at most 255 bytes (`appendAll_walkIes_iff`).
-/

namespace Telephony.Iax2

open Lib List Function

/-! ## Elements -/

structure Element where
  ie : UInt8
  payload : List UInt8
  deriving DecidableEq, Repr

/-- The bytes that are written for an element. The length is stored in one byte.
Source: `iax_ie_append_raw` -/
def Element.encode (e : Element) : List UInt8 :=
  e.ie :: UInt8.ofNat e.payload.length :: e.payload

def encodeAll (es : List Element) : List UInt8 := es.flatMap Element.encode

@[simp]
lemma Element.length_encode (e : Element) : e.encode.length = e.payload.length + 2 := rfl

@[simp]
lemma encodeAll_nil : encodeAll [] = [] := rfl

@[simp]
lemma encodeAll_cons (e : Element) (es : List Element) : encodeAll (e :: es) = e.encode ++ encodeAll es := rfl

lemma encodeAll_append (es fs : List Element) : encodeAll (es ++ fs) = encodeAll es ++ encodeAll fs :=
  flatMap_append

lemma length_encodeAll (es : List Element) : (encodeAll es).length = (es.map fun e => e.payload.length + 2).sum := by
  induction es with
  | nil => rfl
  | cons e es ih => simp [ih]

/-! ## The buffer -/

def ieBufSize : ℕ := 1024

/-- The bytes of the buffer that are in use.
Source: `struct iax_ie_data` -/
structure IeData where
  bytes : List UInt8
  fits : bytes.length ≤ ieBufSize
  deriving DecidableEq, Repr

/-- Source: `ied->pos` -/
def IeData.pos (ied : IeData) : ℕ := ied.bytes.length

/-- Source: `memset (&ied, 0, sizeof (ied))` -/
def IeData.empty : IeData := ⟨[], Nat.zero_le _⟩

/-- What a call comes to: it returns -1, or it writes behind the buffer, or it returns 0. -/
inductive Appended where
  | refused
  | overrun
  | kept (ied : IeData)
  deriving DecidableEq, Repr

def appendRaw (ied : IeData) (ie : UInt8) (data : List UInt8) : Appended :=
  if (data.length : ℤ) > (ieBufSize : ℤ) - (ied.pos : ℤ) then .refused
  else if h : (ied.bytes ++ Element.encode ⟨ie, data⟩).length ≤ ieBufSize then .kept ⟨_, h⟩
  else .overrun

/-- Source: `iax_ie_append_raw`, `iax_ie_append_addr`, `iax_ie_append_versioned_uint64`,
`iax_ie_append_int`, `iax_ie_append_short`, `iax_ie_append_str`, `iax_ie_append_byte`,
`iax_ie_append` -/
inductive AppendCall where
  | raw (ie : UInt8) (data : List UInt8)
  | addr (ie : UInt8) (bytes : List UInt8)
  | versionedUint64 (ie version : UInt8) (value : UInt64)
  | int (ie : UInt8) (value : UInt32)
  | short (ie : UInt8) (value : UInt16)
  | str (ie : UInt8) (bytes : List UInt8)
  | byte (ie dat : UInt8)
  | empty (ie : UInt8)
  deriving DecidableEq, Repr

/-- Source: the arguments of `iax_ie_append_raw` in each of the functions -/
def AppendCall.element : AppendCall → Element
  | raw ie data => ⟨ie, data⟩
  | addr ie bytes => ⟨ie, bytes⟩
  | versionedUint64 ie version value => ⟨ie, version :: bigEndian 8 value.toNat⟩
  | int ie value => ⟨ie, bigEndian 4 value.toNat⟩
  | short ie value => ⟨ie, bigEndian 2 value.toNat⟩
  | str ie bytes => ⟨ie, bytes⟩
  | byte ie dat => ⟨ie, [dat]⟩
  | empty ie => ⟨ie, []⟩

def AppendCall.run (c : AppendCall) (ied : IeData) : Appended := appendRaw ied c.element.ie c.element.payload

/-- The calls, up to the first one that does not return 0. -/
def appendAll (ied : IeData) : List AppendCall → Appended
  | [] => .kept ied
  | c :: calls =>
    match c.run ied with
    | .kept ied' => appendAll ied' calls
    | stopped => stopped

variable {ied ied' : IeData} {ie : UInt8} {data : List UInt8} {calls : List AppendCall}

lemma length_append_encode (ied : IeData) (ie : UInt8) (data : List UInt8) :
    (ied.bytes ++ Element.encode ⟨ie, data⟩).length = ied.pos + data.length + 2 := by
  rw [length_append, Element.length_encode, IeData.pos, Nat.add_assoc]

/-- The end of the buffer is passed when the payload fits and the two bytes in front of it do
not. -/
lemma appendRaw_overrun_iff :
    appendRaw ied ie data = .overrun ↔ ied.pos + data.length = 1023 ∨ ied.pos + data.length = 1024 := by
  have hlen := length_append_encode ied ie data
  unfold appendRaw
  split_ifs with hspc hfit
  · exact ⟨nofun, by unfold ieBufSize at hspc; omega⟩
  · exact ⟨nofun, by unfold ieBufSize at hfit; omega⟩
  · exact ⟨fun _ => by unfold ieBufSize at hspc hfit; omega, fun _ => rfl⟩

lemma appendRaw_kept_iff :
    appendRaw ied ie data = .kept ied' ↔ ied'.bytes = ied.bytes ++ Element.encode ⟨ie, data⟩ := by
  have hlen := length_append_encode ied ie data
  unfold appendRaw
  constructor
  · intro h
    split_ifs at h with hspc hfit
    rw [← Appended.kept.inj h]
  · intro h
    obtain ⟨bytes, hfit⟩ := ied'
    obtain rfl : bytes = _ := h
    rw [if_neg (by omega), dif_pos hfit]

lemma appendAll_kept_iff : appendAll ied calls = .kept ied' ↔
      ied'.bytes = ied.bytes ++ encodeAll (calls.map AppendCall.element) := by
  induction calls generalizing ied with
  | nil =>
    cases ied
    cases ied'
    simp [appendAll, eq_comm]
  | cons c calls ih =>
    rw [appendAll, map_cons, encodeAll_cons, ← append_assoc]
    cases hc : c.run ied with
    | kept mid =>
      rw [← appendRaw_kept_iff.mp hc]
      exact ih
    | refused | overrun =>
      refine ⟨nofun, fun h => ?_⟩
      have hfit : (ied.bytes ++ c.element.encode).length ≤ ieBufSize := by
        have hall := ied'.fits
        rw [h, length_append] at hall
        omega
      have hkept : c.run ied = .kept ⟨_, hfit⟩ := appendRaw_kept_iff.mpr rfl
      exact absurd (hc.symm.trans hkept) nofun

/-! ## The walk -/

/-- The elements that the walk visits, and the bytes that are left where it stops.
Source: `iax_parse_ies` (`while (datalen >= 2)`) -/
def splitIes : List UInt8 → List Element × List UInt8
  | ie :: len :: rest =>
    if len.toNat > rest.length then ([], ie :: len :: rest)
    else
      let more := splitIes (rest.drop len.toNat)
      (⟨ie, rest.take len.toNat⟩ :: more.1, more.2)
  | data => ([], data)
  termination_by data => data.length
  decreasing_by simp only [length_drop, length_cons]; omega

def visitedIes (data : List UInt8) : List Element := (splitIes data).1

/-- The elements of bytes that are parsed up to their end.
Source: `iax_parse_ies` (`if (datalen)`) -/
def walkIes (data : List UInt8) : Option (List Element) :=
  if (splitIes data).2 = [] then some (visitedIes data) else none

lemma splitIes_nil : splitIes [] = ([], []) := by rw [splitIes]; nofun

lemma splitIes_singleton (b : UInt8) : splitIes [b] = ([], [b]) := by rw [splitIes]; nofun

lemma splitIes_long {len : UInt8} {rest : List UInt8} (h : rest.length < len.toNat) :
    splitIes (ie :: len :: rest) = ([], ie :: len :: rest) := by
  rw [splitIes, if_pos h]

lemma splitIes_encode_append (e : Element) (rest : List UInt8) (he : e.payload.length ≤ 255) :
    splitIes (e.encode ++ rest) = (e :: (splitIes rest).1, (splitIes rest).2) := by
  have hlen := UInt8.toNat_ofNat_of_lt' (show e.payload.length < 256 by omega)
  simp only [Element.encode, cons_append]
  rw [splitIes, hlen, if_neg (by simp), drop_left, take_left]

lemma walkIes_eq_some {es : List Element} : walkIes data = some es ↔ splitIes data = (es, []) := by
  simp only [walkIes, visitedIes, Prod.ext_iff]
  split_ifs with h <;> simp [h]

lemma length_le_of_splitIes {e : Element} {es : List Element} {rest : List UInt8}
    (h : (splitIes (e.encode ++ rest)).1 = e :: es) : e.payload.length ≤ 255 := by
  simp only [Element.encode, cons_append] at h
  rw [splitIes] at h
  split_ifs at h with hlong
  have hpay := congrArg (fun f : Element => f.payload.length) (List.cons.inj h).1
  simp only [length_take] at hpay
  have hbyte := (UInt8.ofNat e.payload.length).toNat_lt
  omega

lemma walkIes_encodeAll_iff (es : List Element) :
    walkIes (encodeAll es) = some es ↔ ∀ e ∈ es, e.payload.length ≤ 255 := by
  rw [walkIes_eq_some]
  induction es with
  | nil => simp [splitIes_nil]
  | cons e es ih =>
    rw [forall_mem_cons, ← ih, encodeAll_cons]
    constructor
    · intro h
      have he := length_le_of_splitIes (congrArg Prod.fst h)
      rw [splitIes_encode_append e _ he] at h
      obtain ⟨hes, hend⟩ := Prod.mk.inj h
      exact ⟨he, Prod.ext (List.cons.inj hes).2 hend⟩
    · rintro ⟨he, hes⟩
      rw [splitIes_encode_append e _ he, hes]

/-! ## Round trip -/

/-- Calls that return 0 stay in the buffer, and the walk finds what was appended. -/
def RoundTrips (calls : List AppendCall) : Prop :=
  appendAll IeData.empty calls ≠ .refused →
    ∃ ied, appendAll IeData.empty calls = .kept ied ∧ walkIes ied.bytes = some (calls.map AppendCall.element)

/-- **Information elements round-trip** for calls that all return 0 just if every payload has at
most 255 bytes and the elements have at most 1024 bytes. -/
theorem appendAll_walkIes_iff (calls : List AppendCall) (hcalls : appendAll IeData.empty calls ≠ .refused) :
    RoundTrips calls ↔
      (∀ c ∈ calls, c.element.payload.length ≤ 255) ∧
        (calls.map fun c => c.element.payload.length + 2).sum ≤ ieBufSize := by
  have hwalk : walkIes (encodeAll (calls.map AppendCall.element)) = some (calls.map AppendCall.element) ↔
      ∀ c ∈ calls, c.element.payload.length ≤ 255 :=
    (walkIes_encodeAll_iff _).trans forall_mem_map
  have hsum : (encodeAll (calls.map AppendCall.element)).length =
      (calls.map fun c => c.element.payload.length + 2).sum := by
    simp [length_encodeAll, comp_def]
  constructor
  · intro h
    obtain ⟨ied, hkept, hies⟩ := h hcalls
    have hbytes : ied.bytes = encodeAll (calls.map AppendCall.element) := appendAll_kept_iff.mp hkept
    exact ⟨hwalk.mp (hbytes ▸ hies), hsum ▸ hbytes ▸ ied.fits⟩
  · rintro ⟨hlen, hfit⟩ -
    exact ⟨⟨_, hsum ▸ hfit⟩, appendAll_kept_iff.mpr rfl, hwalk.mpr hlen⟩

/-- A user name and a version fit. -/
theorem appendAll_walkIes_iff_username : RoundTrips [.str 6 [117, 115, 101, 114], .short 11 2] :=
  (appendAll_walkIes_iff [.str 6 [117, 115, 101, 114], .short 11 2] (by decide)).mpr (by decide)

/-- **A string of 256 bytes** is appended with return value 0, and has the length 0 in the
buffer. -/
theorem appendAll_long_string :
    ∃ ied, appendAll IeData.empty [.str 7 (replicate 256 97)] = .kept ied ∧
      ied.bytes = 7 :: 0 :: replicate 256 97 ∧ ¬RoundTrips [.str 7 (replicate 256 97)] := by
  obtain ⟨text, htext⟩ : ∃ text, text = replicate 256 (97 : UInt8) := ⟨_, rfl⟩
  have hlen : text.length = 256 := by rw [htext, length_replicate]
  rw [← htext]
  have hfit : (7 :: 0 :: text).length ≤ ieBufSize := by
    rw [length_cons, length_cons, hlen]
    decide
  have hkept : appendAll IeData.empty [.str 7 text] = .kept ⟨7 :: 0 :: text, hfit⟩ :=
    appendAll_kept_iff.mpr (by simp [IeData.empty, AppendCall.element, Element.encode, hlen])
  refine ⟨_, hkept, rfl, fun h => ?_⟩
  obtain ⟨ied, hied, hwalk⟩ := h (by rw [hkept]; nofun)
  have hshort := (walkIes_encodeAll_iff _).mp ((appendAll_kept_iff.mp hied) ▸ hwalk)
  simp [AppendCall.element, hlen] at hshort

end Telephony.Iax2
