import Telephony.Lib.NetworkOrder

/-!
# Information elements of events

An event is a block of memory: a type, its length and the elements, each with its type, the length
of its payload and the payload. The lengths have 16 bits.
-/

namespace Telephony.Event

open Lib List

/-- Source: `struct ast_event_ie` -/
structure Ie where
  type : UInt16
  payload : List UInt8
  deriving DecidableEq, Repr

def Ie.encode (ie : Ie) : List UInt8 :=
  bigEndian 2 ie.type.toNat ++ (bigEndian 2 ie.payload.length ++ ie.payload)

/-- Source: `ast_event_append_ie_str`, `ast_event_append_ie_uint`, `ast_event_append_ie_bitflags` -/
inductive Append where
  | str (type : UInt16) (str : List UInt8)
  | uint (type : UInt16) (data : UInt32)
  | bitflags (type : UInt16) (flags : UInt32)
  | raw (type : UInt16) (data : List UInt8)

/-- The payload of a string has its hash in front, in the byte order of the host.
Source: `struct ast_event_ie_str_payload` -/
def Append.ie (strHash : List UInt8 → UInt32) : Append → Ie
  | .str type s => ⟨type, (bigEndian 4 (strHash s).toNat).reverse ++ s ++ [0]⟩
  | .uint type data => ⟨type, bigEndian 4 data.toNat⟩
  | .bitflags type flags => ⟨type, bigEndian 4 flags.toNat⟩
  | .raw type data => ⟨type, data⟩

/-- The sizes are added in 32 bits. `none` if the element does not fit into the new block.
Source: `ast_event_append_ie_raw` -/
def appendIeRaw (event : List UInt8) (ie : Ie) : Option (List UInt8) :=
  let eventLen := u16At event 2
  let extraLen := (4 + ie.payload.length) % 2 ^ 32
  if eventLen + (4 + ie.payload.length) ≤ (eventLen + extraLen) % 2 ^ 32 then
    let block := event.take eventLen ++ ie.encode
    some (block.take 2 ++ bigEndian 2 (eventLen + extraLen) ++ block.drop 4)
  else none

/-- Source: `ast_event_new` -/
def eventNew (type : UInt16) : List UInt8 := bigEndian 2 type.toNat ++ bigEndian 2 4

/-- The places of the elements.
Source: `ast_event_iterator_next` -/
def iteratorFrom (event : List UInt8) (ie : ℕ) : List ℕ :=
  let next := ie + 4 + u16At event (ie + 2)
  if u16At event 2 ≤ next then [ie] else ie :: iteratorFrom event next
  termination_by u16At event 2 - ie

/-- Source: `ast_event_iterator_init` -/
def iterator (event : List UInt8) : List ℕ := if 4 + 4 ≤ u16At event 2 then iteratorFrom event 4 else []

/-- Source: `ast_event_iterator_get_ie_type`, `event_iterator_get_ie_raw_payload_len` -/
def ieAt (event : List UInt8) (ie : ℕ) : Ie :=
  ⟨.ofNat (u16At event ie), (event.drop (ie + 4)).take (u16At event (ie + 2))⟩

/-- Source: `ast_event_get_ie_raw`, `ast_event_get_ie_raw_payload_len` -/
def getIeRaw (event : List UInt8) (type : UInt16) : Option (List UInt8) :=
  ((iterator event).find? fun ie => (ieAt event ie).type = type).map fun ie => (ieAt event ie).payload

/-- The iteration gives the elements, and a search the first one of its type. -/
def Carries (event : List UInt8) (ies : List Ie) : Prop :=
  (iterator event).map (ieAt event) = ies ∧
    ∀ type, getIeRaw event type = (ies.find? fun ie => ie.type = type).map Ie.payload

def eventOf (type : UInt16) (ies : List Ie) : List UInt8 :=
  bigEndian 2 type.toNat ++ (bigEndian 2 (4 + (ies.flatMap Ie.encode).length) ++ ies.flatMap Ie.encode)

variable {event rest : List UInt8} {ie : Ie} {ies : List Ie} {pos : ℕ}

lemma length_encode (ie : Ie) : ie.encode.length = 4 + ie.payload.length := by
  simp [Ie.encode]
  omega

lemma eventOf_len (type : UInt16) (h : 4 + (ies.flatMap Ie.encode).length < 65536) :
    u16At (eventOf type ies) 2 = 4 + (ies.flatMap Ie.encode).length := by
  rw [eventOf, u16At_bigEndian (drop_left' (length_bigEndian 2 _)), Nat.mod_eq_of_lt h]

lemma appendIeRaw_eventOf (type : UInt16) (h : 4 + ((ies ++ [ie]).flatMap Ie.encode).length < 65536) :
    appendIeRaw (eventOf type ies) ie = some (eventOf type (ies ++ [ie])) := by
  rw [flatMap_append, flatMap_singleton, length_append, length_encode] at h
  have hlen : (eventOf type ies).length = 4 + (ies.flatMap Ie.encode).length := by
    simp only [eventOf, length_append, length_bigEndian]
    omega
  have hextra : (4 + ie.payload.length) % 2 ^ 32 = 4 + ie.payload.length := Nat.mod_eq_of_lt (by omega)
  simp only [appendIeRaw, eventOf_len type (show 4 + (ies.flatMap Ie.encode).length < 65536 by omega), hextra, ← hlen,
    take_length]
  rw [if_pos (by omega), hlen]
  simp only [eventOf, flatMap_append, flatMap_singleton, length_append, length_encode, append_assoc, Nat.add_assoc]
  rw [take_left' (length_bigEndian 2 _), ← append_assoc _ (bigEndian 2 (4 + (ies.flatMap Ie.encode).length)),
    drop_left' (by simp)]

lemma ieAt_encode (h : event.drop pos = ie.encode ++ rest) (hlen : ie.payload.length < 65536) :
    ieAt event pos = ie ∧ u16At event (pos + 2) = ie.payload.length := by
  simp only [Ie.encode, append_assoc] at h
  have htype := ie.type.toNat_lt
  have hsize := drop_add_of_drop h (length_bigEndian 2 _)
  have hdata := drop_add_of_drop hsize (length_bigEndian 2 _)
  have hread : u16At event (pos + 2) = ie.payload.length := by rw [u16At_bigEndian hsize, Nat.mod_eq_of_lt hlen]
  refine ⟨?_, hread⟩
  rw [ieAt, hread, u16At_bigEndian h, Nat.mod_eq_of_lt htype, hdata, take_left, UInt16.ofNat_toNat]

/-- Induction on the elements behind the first one. -/
lemma iteratorFrom_encode (h : event.drop pos = (ie :: ies).flatMap Ie.encode)
    (hlen : u16At event 2 = pos + ((ie :: ies).flatMap Ie.encode).length)
    (hfit : ((ie :: ies).flatMap Ie.encode).length < 65536) :
    (iteratorFrom event pos).map (ieAt event) = ie :: ies := by
  induction ies generalizing ie pos with
  | nil =>
    simp only [flatMap_cons, length_append, length_encode] at h hlen hfit
    obtain ⟨hie, hsize⟩ := ieAt_encode h (by omega)
    rw [iteratorFrom, hsize, if_pos (by rw [hlen, flatMap_nil, length_nil]; omega), map_singleton, hie]
  | cons next ies ih =>
    rw [flatMap_cons] at h hlen hfit
    rw [length_append, length_encode] at hlen hfit
    obtain ⟨hie, hsize⟩ := ieAt_encode h (by omega)
    have hpos : 0 < ((next :: ies).flatMap Ie.encode).length := by
      rw [flatMap_cons, length_append, length_encode]
      omega
    rw [iteratorFrom, hsize, if_neg (by omega), map_cons, hie, Nat.add_assoc,
      ih (drop_add_of_drop h (length_encode ie)) (by omega) (by omega)]

lemma carries_eventOf (type : UInt16) (h : 4 + (ies.flatMap Ie.encode).length < 65536) :
    Carries (eventOf type ies) ies := by
  have hiter : (iterator (eventOf type ies)).map (ieAt (eventOf type ies)) = ies := by
    unfold iterator
    rw [eventOf_len type h]
    cases ies with
    | nil => rfl
    | cons ie ies =>
      rw [if_pos (by rw [flatMap_cons, length_append, length_encode]; omega)]
      refine iteratorFrom_encode ?_ (eventOf_len type h) (by omega)
      rw [eventOf, ← append_assoc]
      exact drop_left' (by simp)
  refine ⟨hiter, fun t => ?_⟩
  conv_rhs => rw [← hiter, find?_map, Option.map_map]
  rfl

/-- **Events carry what was appended**, as long as the length fits into 16 bits. -/
theorem appendIeRaw_carries (strHash : List UInt8 → UInt32) (type : UInt16) (calls : List Append)
    (hfits : 4 + ((calls.map (Append.ie strHash)).flatMap Ie.encode).length < 65536) :
    ∃ event, (calls.map (Append.ie strHash)).foldlM appendIeRaw (eventNew type) = some event ∧
      Carries event (calls.map (Append.ie strHash)) := by
  refine ⟨eventOf type (calls.map (Append.ie strHash)), ?_, carries_eventOf type hfits⟩
  generalize calls.map (Append.ie strHash) = ies at hfits ⊢
  induction ies using List.reverseRecOn with
  | nil => rfl
  | append_singleton ies ie ih =>
    have hless : 4 + (ies.flatMap Ie.encode).length < 65536 := by
      rw [flatMap_append, length_append] at hfits
      omega
    rw [foldlM_append, ih hless]
    simpa using appendIeRaw_eventOf type hfits

theorem appendIeRaw_carries_two :
    ∃ event, ([.str 1 [65], .uint 2 9].map (Append.ie fun _ => 7)).foldlM appendIeRaw (eventNew 3) = some event ∧
      Carries event ([.str 1 [65], .uint 2 9].map (Append.ie fun _ => 7)) :=
  appendIeRaw_carries _ 3 [.str 1 [65], .uint 2 9] (by simp [Append.ie, Ie.encode])

/-- A payload of 65536 bytes is read as one of none. -/
theorem appendIeRaw_truncates :
    ∃ data event, data.length = 65536 ∧ appendIeRaw (eventNew 3) ⟨1, data⟩ = some event ∧
      ¬ Carries event [⟨1, data⟩] := by
  obtain ⟨data, hdata⟩ : ∃ data : List UInt8, data.length = 65536 := ⟨replicate 65536 0, length_replicate⟩
  refine ⟨data, 0 :: 3 :: 0 :: 8 :: 0 :: 1 :: 0 :: 0 :: data, hdata, ?_, fun h => ?_⟩
  · simp [appendIeRaw, u16At, Ie.encode, hdata, eventNew, bigEndian]
  · have hnone := congrArg (List.map Ie.payload) h.1
    simp [iterator, iteratorFrom, u16At, ieAt] at hnone
    simp [hnone] at hdata

end Telephony.Event
