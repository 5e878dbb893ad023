import Mathlib.Data.Int.Notation
import Telephony.Lib.Traced

/-!
# Reading an RTP packet

The header part of `ast_rtp_interpret` on a packet of `length` octets, at least twelve, as it is
after decryption: the octets of `mem` below `length`. The padding, the list of contributing sources
and the header extension each move the payload, and their lengths all come from the packet.
-/

namespace Telephony.Rtp

open Lib
open Traced (within_pure within_bind within_read)

/-! ## Data model -/

/-- A packet that is passed on: the header fields, the octets of the payload from `start` to `stop`,
and the transport-wide sequence numbers of its extensions.
Source: `ast_rtp_interpret` (`seqno`, `payloadtype`, `mark`, `timestamp`, `ssrc`, `hdrlen`,
`res`) -/
structure RtpPacket where
  seqno : ℕ
  payloadtype : ℕ
  mark : Bool
  timestamp : ℕ
  ssrc : ℕ
  start : ℕ
  stop : ℕ
  transportCc : List ℕ
  deriving DecidableEq, Repr

/-- Source: `ast_rtp_interpret` (`ntohl(rtpheader[k])`) -/
def readWord (mem : ℕ → ℕ) (k : ℕ) : Traced ℕ ℕ := do
  let a ← Traced.read mem (4 * k)
  let b ← Traced.read mem (4 * k + 1)
  let c ← Traced.read mem (4 * k + 2)
  let d ← Traced.read mem (4 * k + 3)
  pure (a <<< 24 ||| b <<< 16 ||| c <<< 8 ||| d)

/-- Source: `rtp_instance_parse_transport_wide_cc` (`ntohs(*seqno)`) -/
def readTransportWideCc (mem : ℕ → ℕ) (i : ℕ) : Traced ℕ ℕ := do
  let a ← Traced.read mem i
  let b ← Traced.read mem (i + 1)
  pure (a <<< 8 ||| b)

/-- Source: `rtp_instance_parse_extmap_extensions` (`id`) -/
def elementId (octet : ℕ) : ℕ := octet >>> 4

/-- Source: `rtp_instance_parse_extmap_extensions` (`extension_len`) -/
def elementLen (octet : ℕ) : ℕ := (octet &&& 0xF) + 1

/-- Walk over the elements in the `len` octets from `base` on, from offset `pos`; the sequence
numbers of the transport-cc elements. -/
def parseExtmapExtensions (ccId : ℕ) (mem : ℕ → ℕ) (base len pos : ℕ) : Traced ℕ (List ℕ) :=
  if pos < len then do
    let octet ← Traced.read mem (base + pos)
    -- a padding octet
    if elementId octet = 0 then parseExtmapExtensions ccId mem base len (pos + 1)
    else if elementId octet = 15 then pure []
    else if len < pos + 1 + elementLen octet then pure []
    else if elementId octet = ccId then do
      let number ← readTransportWideCc mem (base + (pos + 1))
      let rest ← parseExtmapExtensions ccId mem base len (pos + 1 + elementLen octet)
      pure (number :: rest)
    else parseExtmapExtensions ccId mem base len (pos + 1 + elementLen octet)
  else pure []
termination_by len - pos

/-- The size of the extensions in octets, and the profile.
Source: `ast_rtp_interpret` (`extensions_size`, `profile`) -/
def readExtensionHeader (mem : ℕ → ℕ) (hdrlen : ℕ) : Traced ℕ (ℕ × ℕ) := do
  let size ← readWord mem (hdrlen / 4)
  let profile ← readWord mem 3
  pure ((size &&& 0xFFFF) <<< 2, profile >>> 16)

/-- The elements of extensions with one-octet headers, when transport-cc is negotiated.
Source: `ast_rtp_interpret` (`profile == 0xbede`), `rtp_instance_parse_extmap_extensions` -/
def readExtensions (ccId : Option ℕ) (mem : ℕ → ℕ) (hdrlen : ℕ) (header : ℕ × ℕ) : Traced ℕ (List ℕ) :=
  match ccId with
  | none => pure []
  | some id => if header.2 = 0xBEDE then parseExtmapExtensions id mem (hdrlen + 4) header.1 0 else pure []

/-- The header extension: the length of the header with it, and the transport-cc numbers.
Source: `ast_rtp_interpret` (`if (ext)`) -/
def skipExtension (ccId : Option ℕ) (mem : ℕ → ℕ) (ext : Bool) (hdrlen : ℕ) : Traced ℕ (ℕ × List ℕ) :=
  if ext then do
    let header ← readExtensionHeader mem hdrlen
    let numbers ← readExtensions ccId mem hdrlen header
    pure (hdrlen + header.1 + 4, numbers)
  else pure (hdrlen, [])

/-- Source: `ast_rtp_interpret` (`if (padding)`) -/
def readPadding (mem : ℕ → ℕ) (padding : Bool) (length : ℕ) : Traced ℕ ℕ :=
  if padding then Traced.read mem (length - 1) else pure 0

/-- Source: `ast_rtp_interpret` (`ext = seqno & (1 << 28)`) -/
def extBit (word : ℕ) : Bool := word.testBit 28

/-- Source: `ast_rtp_interpret` (`cc = (seqno & 0xF000000) >> 24`) -/
def csrcCount (word : ℕ) : ℕ := word >>> 24 &&& 0xF

/-- The packet that is passed on; `none` when its lengths do not fit.
Source: `ast_rtp_interpret` (`if (res < hdrlen)`) -/
def acceptPacket (word timestamp ssrc length padding : ℕ) (header : ℕ × List ℕ) : Option RtpPacket :=
  if (length : ℤ) - padding < header.1 then none
  else some
    { seqno := word &&& 0xFFFF
      payloadtype := word >>> 16 &&& 0x7F
      mark := word.testBit 23
      timestamp := timestamp
      ssrc := ssrc
      start := header.1
      stop := length - padding
      transportCc := header.2 }

def rtpInterpret (ccId : Option ℕ) (mem : ℕ → ℕ) (length : ℕ) : Traced ℕ (Option RtpPacket) := do
  let ssrc ← readWord mem 2
  let word ← readWord mem 0
  let timestamp ← readWord mem 1
  let padding ← readPadding mem (word.testBit 29) length
  let header ← skipExtension ccId mem (extBit word) (12 + csrcCount word * 4)
  pure (acceptPacket word timestamp ssrc length padding header)

/-! ## The walk over extension elements -/

/-- The walk from `pos` comes to an element, or a padding octet, at `q`.
Source: `rtp_instance_parse_extmap_extensions` (`while (pos < len)`) -/
inductive ElementAt (mem : ℕ → ℕ) (base len : ℕ) : ℕ → ℕ → Prop where
  | here {pos : ℕ} : pos < len → ElementAt mem base len pos pos
  | padding {pos q : ℕ} : pos < len → elementId (mem (base + pos)) = 0 →
      ElementAt mem base len (pos + 1) q → ElementAt mem base len pos q
  | next {pos q : ℕ} : pos < len → elementId (mem (base + pos)) ≠ 0 →
      elementId (mem (base + pos)) ≠ 15 → pos + 1 + elementLen (mem (base + pos)) ≤ len →
      ElementAt mem base len (pos + 1 + elementLen (mem (base + pos))) q → ElementAt mem base len pos q

def TransportCcAt (ccId : ℕ) (mem : ℕ → ℕ) (base len q : ℕ) : Prop :=
  elementId (mem (base + q)) = ccId ∧ elementId (mem (base + q)) ≠ 0 ∧ elementId (mem (base + q)) ≠ 15 ∧
    q + 1 + elementLen (mem (base + q)) ≤ len

section Walk

variable {p : ℕ → Prop} {mem : ℕ → ℕ}

lemma within_readWord (k : ℕ) :
    (readWord mem k).Within p ↔ p (4 * k) ∧ p (4 * k + 1) ∧ p (4 * k + 2) ∧ p (4 * k + 3) := by
  simp [readWord]

lemma within_readTransportWideCc (i : ℕ) : (readTransportWideCc mem i).Within p ↔ p i ∧ p (i + 1) := by
  simp [readTransportWideCc]

def ElementReads (p : ℕ → Prop) (ccId : ℕ) (mem : ℕ → ℕ) (base len q : ℕ) : Prop :=
  p (base + q) ∧ (TransportCcAt ccId mem base len q → p (base + q + 1) ∧ p (base + q + 2))

/-- The walk goes on from `pos`, and comes to the element at `q`. -/
def ElementAfter (mem : ℕ → ℕ) (base len pos q : ℕ) : Prop :=
  elementId (mem (base + pos)) = 0 ∧ ElementAt mem base len (pos + 1) q ∨
    elementId (mem (base + pos)) ≠ 0 ∧ elementId (mem (base + pos)) ≠ 15 ∧
      pos + 1 + elementLen (mem (base + pos)) ≤ len ∧ ElementAt mem base len (pos + 1 + elementLen (mem (base + pos))) q

lemma elementAt_iff {base len pos q : ℕ} : ElementAt mem base len pos q ↔ pos < len ∧ (q = pos ∨ ElementAfter mem base len pos q) := by
  constructor
  · intro h
    cases h with
    | here hlt => exact ⟨hlt, .inl rfl⟩
    | padding hlt hid hrest => exact ⟨hlt, .inr (.inl ⟨hid, hrest⟩)⟩
    | next hlt hid hid' hfit hrest => exact ⟨hlt, .inr (.inr ⟨hid, hid', hfit, hrest⟩)⟩
  · rintro ⟨hlt, rfl | ⟨hid, hrest⟩ | ⟨hid, hid', hfit, hrest⟩⟩
    · exact .here hlt
    · exact .padding hlt hid hrest
    · exact .next hlt hid hid' hfit hrest

lemma within_parseExtmap (ccId base len pos : ℕ) :
    (parseExtmapExtensions ccId mem base len pos).Within p ↔
      ∀ q, ElementAt mem base len pos q → ElementReads p ccId mem base len q := by
  induction hleft : len - pos using Nat.strongRecOn generalizing pos with
  | _ left ih =>
  rw [parseExtmapExtensions]
  by_cases hlt : pos < len
  swap
  · rw [if_neg hlt]
    exact iff_of_true (within_pure _) fun q hq => absurd (elementAt_iff.mp hq).1 hlt
  rw [if_pos hlt]
  simp only [within_bind, within_read, Traced.val_read]
  -- what is due here, and what the rest of the walk reads
  have hhere : (∀ q, ElementAt mem base len pos q → ElementReads p ccId mem base len q) ↔
      ElementReads p ccId mem base len pos ∧
        ∀ q, ElementAfter mem base len pos q → ElementReads p ccId mem base len q := by
    constructor
    · intro h
      exact ⟨h pos (.here hlt), fun q hq => h q (elementAt_iff.mpr ⟨hlt, .inr hq⟩)⟩
    · rintro ⟨hpos, hrest⟩ q hq
      rcases (elementAt_iff.mp hq).2 with rfl | hq'
      · exact hpos
      · exact hrest q hq'
  rw [hhere]
  unfold ElementAfter
  by_cases hzero : elementId (mem (base + pos)) = 0
  · rw [if_pos hzero, ih _ (by omega) (pos + 1) rfl]
    simp [ElementReads, TransportCcAt, hzero]
  rw [if_neg hzero]
  by_cases hlast : elementId (mem (base + pos)) = 15
  · simp [ElementReads, TransportCcAt, hlast]
  rw [if_neg hlast]
  by_cases hfit : len < pos + 1 + elementLen (mem (base + pos))
  · rw [if_pos hfit]
    simp [ElementReads, TransportCcAt, hzero, Nat.not_le.mpr hfit]
  rw [if_neg hfit]
  have hfit' := Nat.not_lt.mp hfit
  have hnext := ih _ (by omega) (pos + 1 + elementLen (mem (base + pos))) rfl
  simp only [hzero, hlast, hfit', ne_eq, not_false_eq_true, true_and, false_and, false_or]
  by_cases hcc : elementId (mem (base + pos)) = ccId
  · have hat : TransportCcAt ccId mem base len pos := ⟨hcc, hzero, hlast, hfit'⟩
    rw [if_pos hcc]
    simp only [within_bind, within_pure, and_true, hnext, within_readTransportWideCc,
      ElementReads, hat, true_imp_iff]
    simp only [and_assoc]
    rfl
  · rw [if_neg hcc, hnext]
    simp [ElementReads, TransportCcAt, hcc]

end Walk

/-! ## Reads of the whole header -/

/-- The header of the extension is inside the packet, and where its elements are read, each element
that the walk comes to starts inside, with both octets of a transport-cc number.
Source: `ast_rtp_interpret`, `rtp_instance_parse_extmap_extensions` -/
def ExtensionInside (ccId : Option ℕ) (mem : ℕ → ℕ) (length : ℕ) : Prop :=
  16 ≤ length ∧ ∀ id ∈ ccId, (readExtensionHeader mem 12).val.2 = 0xBEDE →
    ∀ q, ElementAt mem 16 (readExtensionHeader mem 12).val.1 0 q →
      16 + q < length ∧
        (TransportCcAt id mem 16 (readExtensionHeader mem 12).val.1 q → 16 + q + 1 < length ∧ 16 + q + 2 < length)

section Header

variable (ccId : Option ℕ) (mem : ℕ → ℕ) {length : ℕ}

lemma within_readPadding (padding : Bool) (hlen : 12 ≤ length) :
    (readPadding mem padding length).Within (· < length) := by
  unfold readPadding
  split_ifs
  · rw [within_read]
    omega
  · exact within_pure _

lemma readExtensionHeader_placed_iff (c : ℕ) :
    ((readExtensionHeader mem (12 + c * 4)).Within fun k => 12 + c * 4 ≤ k ∧ k < 12 + c * 4 + 4) ↔ c = 0 := by
  simp only [readExtensionHeader, within_bind, within_pure, within_readWord, and_true]
  omega

lemma within_readExtensionHeader : (readExtensionHeader mem 12).Within (· < length) ↔ 16 ≤ length := by
  simp only [readExtensionHeader, within_bind, within_pure, within_readWord, and_true]
  omega

lemma within_readExtensions (p : ℕ → Prop) (hdrlen : ℕ) (header : ℕ × ℕ) :
    (readExtensions ccId mem hdrlen header).Within p ↔
      ∀ id ∈ ccId, header.2 = 0xBEDE → ∀ q, ElementAt mem (hdrlen + 4) header.1 0 q →
        ElementReads p id mem (hdrlen + 4) header.1 q := by
  unfold readExtensions
  cases ccId with
  | none => simp
  | some id =>
    split_ifs with hprofile
    · rw [within_parseExtmap]
      simp [hprofile]
    · simp [hprofile]

lemma within_skipExtension :
    (skipExtension ccId mem true 12).Within (· < length) ↔ ExtensionInside ccId mem length := by
  rw [skipExtension, if_pos rfl]
  simp only [within_bind, within_pure, and_true]
  rw [within_readExtensionHeader, within_readExtensions]
  rfl

lemma acceptPacket_inside {word timestamp ssrc padding : ℕ} {header : ℕ × List ℕ} {packet : RtpPacket}
    (h : acceptPacket word timestamp ssrc length padding header = some packet) :
    packet.start = header.1 ∧ packet.start ≤ packet.stop ∧ packet.stop ≤ length := by
  unfold acceptPacket at h
  split_ifs at h with hsht
  simp only [Option.some.injEq] at h
  subst h
  refine ⟨rfl, ?_, ?_⟩ <;> dsimp only <;> omega

end Header

end Telephony.Rtp
