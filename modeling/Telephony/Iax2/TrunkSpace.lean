import Telephony.Iax2.Trunk
import Telephony.Lib.Runs

/-!
# The space of the trunk data

How much of the memory of `trunkdata` behind its first `IAX2_TRUNK_PREFACE` bytes is written when
entries are queued. Lengths are counted in 32 bits, as in the source.
-/

namespace Telephony.Iax2

open Lib

/-- Source: `struct iax2_trunk_peer` (`trunkdatalen`, `trunkdataalloc`) -/
structure TrunkSpace where
  datalen : ℕ
  dataAlloc : ℕ
  deriving DecidableEq, Repr

/-- A frame of at most 4096 bytes is queued, where memory can be had or not, or the timer sends what
there is. The configuration may be another one each time. -/
inductive SpaceCall where
  | queue (cfg : TrunkConfig) (datalen : Fin 4097) (granted : Bool)
  | send
  deriving DecidableEq, Repr

/-- The allocation that the entry is written into; `none` if the frame is dropped.
Source: `iax2_trunk_queue` (`Need to reallocate space`) -/
def TrunkSpace.reserve (s : TrunkSpace) (cfg : TrunkConfig) (datalen : ℕ) (granted : Bool) : Option ℕ :=
  if (s.datalen + datalen + 4) % 2 ^ 32 ≥ s.dataAlloc then
    if s.dataAlloc < cfg.trunkmaxsize ∧ granted then some ((s.dataAlloc + 6400) % 2 ^ 32) else none
  else some s.dataAlloc

/-- The entry is written; `none` if it does not end inside of the allocation.
Source: `iax2_trunk_queue` (`Append to meta frame`, `if we have enough for a full MTU, ship it
now`) -/
def TrunkSpace.append (s : TrunkSpace) (cfg : TrunkConfig) (datalen room : ℕ) : Option TrunkSpace :=
  let stop := s.datalen + entryHeaderSize cfg.timestamps + datalen
  if stop ≤ room then
    if cfg.maxTrunkMtu > 0 ∧ (stop + datalen + 4) % 2 ^ 32 ≥ cfg.maxTrunkMtu then some ⟨0, room⟩
    else some ⟨stop, room⟩
  else none

/-- Source: `iax2_trunk_queue`, `send_trunk` -/
def TrunkSpace.step (s : TrunkSpace) : SpaceCall → Option TrunkSpace
  | .queue cfg datalen granted =>
    match s.reserve cfg datalen granted with
    | none => some s
    | some room => s.append cfg datalen room
  | .send => some { s with datalen := 0 }

/-- The entry with a timestamp is not the one byte too long that the test for space overlooks, and
the numbers of 32 bits suffice for the length that is tested and for the allocation. -/
def TrunkSpace.Roomy (s : TrunkSpace) : SpaceCall → Prop
  | .queue cfg datalen granted =>
    let need := s.datalen + datalen + 4
    need < 2 ^ 32 ∧ (s.dataAlloc ≤ need → s.dataAlloc < cfg.trunkmaxsize → granted → s.dataAlloc + 6400 < 2 ^ 32) ∧
      ¬(cfg.timestamps ∧ need + 1 = s.dataAlloc)
  | .send => True

def TrunkSpace.Inside (s : TrunkSpace) : Prop := s.datalen ≤ s.dataAlloc ∧ s.dataAlloc < 2 ^ 32

lemma TrunkSpace.Inside.step {s s' : TrunkSpace} (h : s.Inside) (c : SpaceCall) (hs : s' ∈ s.step c) : s'.Inside := by
  obtain ⟨hlen, hlt⟩ := h
  cases c with
  | send =>
    cases hs
    exact ⟨Nat.zero_le _, hlt⟩
  | queue cfg datalen granted =>
    unfold TrunkSpace.step TrunkSpace.reserve TrunkSpace.append at hs
    unfold TrunkSpace.Inside
    grind

lemma TrunkSpace.Inside.isSome_iff {s : TrunkSpace} (h : s.Inside) (c : SpaceCall) :
    (s.step c).isSome ↔ s.Roomy c := by
  obtain ⟨hlen, hlt⟩ := h
  cases c with
  | send => exact iff_of_true rfl trivial
  | queue cfg datalen granted =>
    unfold TrunkSpace.step TrunkSpace.reserve TrunkSpace.append TrunkSpace.Roomy entryHeaderSize
    grind

/-- Every entry is written into the allocation just if no queued frame meets one of the overlooked
lengths. -/
theorem trunkSpace_inside_iff (calls : List SpaceCall) :
    Each TrunkSpace.step (fun s c => (s.step c).isSome) ⟨0, 0⟩ calls ↔
      Each TrunkSpace.step TrunkSpace.Roomy ⟨0, 0⟩ calls :=
  each_iff_of_inv (fun _ c hs => hs.isSome_iff c) (fun _ c hs _ _ => hs.step c)
    (show TrunkSpace.Inside ⟨0, 0⟩ from ⟨le_rfl, by decide⟩)

theorem trunkSpace_overrun :
    [.queue ⟨true, 128000, 0⟩ 4096 true, .queue ⟨true, 128000, 0⟩ 2293 true].foldlM TrunkSpace.step ⟨0, 0⟩ = none := by
  decide

end Telephony.Iax2
