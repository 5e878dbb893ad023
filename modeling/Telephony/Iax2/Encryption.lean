import Mathlib.Data.List.Basic

/-!
# Encrypted IAX2 frames

An encrypted frame keeps the start of its header; what follows is encrypted behind 16 to 31 bytes of
padding, whose number stands in the last byte of the first block. The number of bytes is a multiple
of 16 if the sender made it so.
-/

namespace Telephony.Iax2

open List

/-- Source: `ntohs(fh->scallno) & IAX_FLAG_FULL` -/
def isFull (mem : List UInt8) : Bool := 128 ≤ mem.headD 0

/-- Source: `struct ast_iax2_full_hdr`, `struct ast_iax2_mini_hdr` -/
def plainHdrSize (mem : List UInt8) : ℕ := if isFull mem then 12 else 4

/-- Source: `struct ast_iax2_full_enc_hdr`, `struct ast_iax2_mini_enc_hdr` -/
def encHdrSize (mem : List UInt8) : ℕ := if isFull mem then 4 else 2

/-- So many blocks, each combined with the encrypted block in front of it.
Source: `memcpy_decrypt` -/
def memcpyDecrypt (decrypt : List UInt8 → List UInt8) : ℕ → List UInt8 → List UInt8 → List UInt8
  | 0, _, _ => []
  | n + 1, lastblock, src =>
    zipWith (· ^^^ ·) (decrypt (src.take 16)) lastblock ++ memcpyDecrypt decrypt n (src.take 16) (src.drop 16)

/-- What became of a datagram: whether it was decoded, its new length and bytes, up to where its
bytes were read, and how many bytes of the workspace were written. -/
structure Decoding where
  ok : Bool
  datalen : ℕ
  mem : List UInt8
  reads : ℕ
  written : ℕ
  deriving DecidableEq, Repr

/-- The bytes at the start of `mem` are the datagram. The loop over the blocks ends behind the last
byte.
Source: `decode_frame` -/
def decodeFrame (decrypt : List UInt8 → List UInt8) (mem : List UInt8) (datalen : ℕ) : Decoding :=
  let enc := encHdrSize mem
  if datalen < 16 + plainHdrSize mem then ⟨false, datalen, mem, 2, 0⟩
  else
    let rounds := (datalen - enc + 15) / 16
    let workspace := memcpyDecrypt decrypt rounds (replicate 16 0) (mem.drop enc)
    let padding := 16 + (workspace.getD 15 0).toNat % 16
    if datalen < padding + plainHdrSize mem then ⟨false, datalen, mem, enc + 16 * rounds, 16 * rounds⟩
    else
      let len := datalen - padding
      ⟨true, len, mem.take enc ++ (workspace.drop padding).take (len - enc) ++ mem.drop len, enc + 16 * rounds,
        16 * rounds⟩

/-- Nothing is read behind the datagram or written behind it or the workspace, and a decoded frame
has a header. -/
def Decoding.Safe (d : Decoding) (header datalen : ℕ) : Prop :=
  d.reads ≤ datalen ∧ d.written ≤ datalen ∧ d.datalen ≤ datalen ∧ (d.ok → header ≤ d.datalen)

/-- A datagram is decoded inside of its bounds just if it is refused for its length or what is
encrypted are whole blocks. -/
theorem decodeFrame_safe_iff (decrypt : List UInt8 → List UInt8) (mem : List UInt8) (datalen : ℕ) :
    (decodeFrame decrypt mem datalen).Safe (plainHdrSize mem) datalen ↔
      2 ≤ datalen ∧ (datalen < 16 + plainHdrSize mem ∨ (datalen - encHdrSize mem) % 16 = 0) := by
  have hhdr : encHdrSize mem < plainHdrSize mem := by
    unfold encHdrSize plainHdrSize
    split_ifs <;> decide
  unfold decodeFrame Decoding.Safe
  dsimp only
  split_ifs with hshort hpad
  · simp [hshort]
  · simp only [IsEmpty.forall_iff, and_true]
    omega
  · simp only [forall_const]
    omega

/-- A mini frame of 29 bytes: 34 bytes are read, and 32 are written into 29. -/
theorem decodeFrame_overrun :
    ¬(decodeFrame id (replicate 64 0) 29).Safe 4 29 ∧ (decodeFrame id (replicate 64 0) 29).written = 32 :=
  ⟨fun h => absurd h.2.1 (by decide), by decide⟩

end Telephony.Iax2
