import Telephony.Lib.Word

/-!
# IAX2 timestamps of mini frames

A mini frame has only the lower bits of its timestamp, 16 for voice and 15 for video. The receiver
takes the upper bits from the last timestamp of the call and corrects them if the result is far from
that timestamp.
-/

namespace Telephony.Iax2

open Lib

/-- Source: `iax2_send` (`fr->af.frametype`, `fr->af.subclass.frame_ending`, `fr->ts`) -/
structure MiniFrame where
  video : Bool
  frameEnding : Bool
  ts : UInt32
  deriving DecidableEq, Repr

/-- What the lower bits count up to.
Source: `unwrap_timestamp` (`1 << ts_shift`) -/
def tsSize (video : Bool) : ℕ := if video then 32768 else 65536

/-- Source: `iax2_send` (`vh->ts`, `mh->ts`) -/
def MiniFrame.wireTs (f : MiniFrame) : ℕ :=
  f.ts.toNat % tsSize f.video + if f.video ∧ f.frameEnding then 32768 else 0

/-- Source: `last & upper_mask` -/
def upperBits (video : Bool) (last : ℕ) : ℕ := last / tsSize video * tsSize video

/-- Source: `socket_process_helper` (`fr->ts = …`) -/
def rebuildTimestamp (video : Bool) (last wire : ℕ) : ℕ := upperBits video last + wire % tsSize video

/-- Source: `unwrap_timestamp` -/
def unwrapTimestamp (video : Bool) (last ts : ℕ) : ℕ :=
  if upperBits video ts = upperBits video last then
    let x := int32 (ts - last)
    let threshold := if video then 25000 else 50000
    if x < -threshold then (upperBits video last + tsSize video) % 2 ^ 32 + ts % tsSize video
    else if x > threshold then
      (upperBits video last + 2 ^ 32 - tsSize video) % 2 ^ 32 + ts % tsSize video
    else ts
  else ts

/-- The timestamp that the frame is delivered with.
Source: `socket_process_helper`, `schedule_delivery` -/
def MiniFrame.recovered (f : MiniFrame) (last : ℕ) : ℕ :=
  unwrapTimestamp f.video last (rebuildTimestamp f.video last f.wireTs)

/-- What reaches a call: a mini frame, or another frame that gives the last timestamp any value. -/
inductive Arrival where
  | mini (f : MiniFrame)
  | other (last : UInt32)
  deriving DecidableEq, Repr

/-- The timestamps that mini frames are delivered with.
Source: `socket_process_helper` (`iaxs[fr->callno]->last < fr->ts`) -/
def receive : ℕ → List Arrival → List ℕ
  | _, [] => []
  | _, .other last :: as => receive last.toNat as
  | last, .mini f :: as => f.recovered last :: receive (max last (f.recovered last)) as

/-- The frame's timestamp is near the last one, in the numbers of 32 bits. -/
def MiniFrame.Near (f : MiniFrame) (last : ℕ) : Prop :=
  |int32 (f.ts.toNat - last)| < if f.video then 7768 else 15536

/-- Each mini frame is near the timestamp that is the last one when the frame comes. -/
def AllNear : ℕ → List Arrival → Prop
  | _, [] => True
  | _, .other last :: as => AllNear last.toNat as
  | last, .mini f :: as => f.Near last ∧ AllNear (max last (f.recovered last)) as

def Arrival.trueTs : Arrival → Option ℕ
  | .mini f => some f.ts.toNat
  | .other _ => none

lemma rebuildTimestamp_wireTs (f : MiniFrame) (last : ℕ) :
    rebuildTimestamp f.video last f.wireTs = upperBits f.video last + f.ts.toNat % tsSize f.video := by
  unfold rebuildTimestamp MiniFrame.wireTs tsSize
  cases f.video <;> cases f.frameEnding <;> simp

lemma int32_upperBits (video : Bool) (last : ℕ) {low : ℕ} (hlow : low < tsSize video) :
    int32 ((upperBits video last + low : ℕ) - last) = low - (last % tsSize video : ℕ) := by
  unfold upperBits tsSize at *
  unfold int32
  rw [Int.bmod_def]
  cases video <;> simp only [if_true, Bool.false_eq_true, if_false] at hlow ⊢ <;> split_ifs <;> omega

/-- The thresholds and the bounds fit: a frame near the last timestamp lies in the same block of
upper bits, where it is left alone, or in a block next to it, and then the distance in the block
passes the threshold. -/
lemma MiniFrame.Near.recovered_eq {f : MiniFrame} {last : ℕ} (h : f.Near last) (hlast : last < 2 ^ 32) :
    f.recovered last = f.ts.toNat := by
  have hts := f.ts.toNat_lt
  obtain ⟨d, j, hdiff, hnear⟩ : ∃ d j : ℤ, d + 4294967296 * j = f.ts.toNat - last ∧
      |d| < if f.video then 7768 else 15536 := ⟨_, _, Int.bmod_add_bdiv _ (2 ^ 32), h⟩
  rw [abs_lt] at hnear
  unfold MiniFrame.recovered unwrapTimestamp
  rw [rebuildTimestamp_wireTs, int32_upperBits _ _ (Nat.mod_lt _ (by cases f.video <;> decide))]
  unfold upperBits tsSize
  cases hvideo : f.video <;> simp only [hvideo, if_true, Bool.false_eq_true, if_false] at hnear ⊢ <;>
    rw [if_pos (by omega)] <;> split_ifs <;> omega

theorem receive_recovers (arrivals : List Arrival) (h : AllNear 0 arrivals) :
    receive 0 arrivals = arrivals.filterMap Arrival.trueTs := by
  suffices ∀ last < 2 ^ 32, AllNear last arrivals → receive last arrivals = arrivals.filterMap Arrival.trueTs from
    this 0 (by decide) h
  clear h
  induction arrivals with
  | nil => exact fun _ _ _ => rfl
  | cons a arrivals ih =>
    intro last hlast h
    cases a with
    | other l => exact ih _ l.toNat_lt h
    | mini f =>
      have heq := h.1.recovered_eq hlast
      have hrest := ih _ (max_lt hlast (heq ▸ f.ts.toNat_lt)) h.2
      simp only [receive, hrest, List.filterMap_cons, Arrival.trueTs]
      rw [heq]

/-- Two voice frames and a video frame around the wrap of all 32 bits. -/
theorem receive_recovers_wrap :
    receive 0 [.other 4294967290, .mini ⟨false, false, 5⟩, .mini ⟨true, true, 4294967200⟩, .mini ⟨false, false, 7⟩] =
      [5, 4294967200, 7] :=
  receive_recovers _ ⟨by unfold MiniFrame.Near; decide, by unfold MiniFrame.Near; decide,
    by unfold MiniFrame.Near; decide, trivial⟩

end Telephony.Iax2
