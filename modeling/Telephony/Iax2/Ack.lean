import Telephony.Lib.Loop
import Mathlib.Data.List.Sort

/-!
# The acknowledgement window of an IAX2 call

Every full frame of the peer carries the number of the next frame that the peer expects. A frame in
the queue of the call whose number is before it is acknowledged and is not sent again. All numbers
have 8 bits.
-/

namespace Telephony.Iax2

open Lib List

/-! ## The queue of a call -/

structure Frame where
  oseqno : UInt8
  retries : ℤ
  final : Bool
  deriving DecidableEq, Repr

/-- Source: `struct chan_iax2_pvt` -/
structure Call where
  rseqno : UInt8
  oseqno : UInt8
  owner : Bool
  lastRef : Bool
  deriving DecidableEq, Repr

structure Queue where
  call : Option Call
  frames : List Frame
  deriving DecidableEq, Repr

/-- Source: `cur->retries = -1` -/
def Frame.cancel (f : Frame) : Frame := { f with retries := -1 }

/-- Destroy the call. A call with an owner stays until the channel hangs up. The last reference
takes all its frames with it.
Source: `iax2_destroy`, `pvt_destructor` -/
def destroy (q : Queue) : Queue :=
  match q.call with
  | none => q
  | some c =>
    if c.owner then q
    else ⟨none, if c.lastRef then q.frames.map Frame.cancel else q.frames⟩

/-- The frames with number `x` are acknowledged, and the call is destroyed if one of them is final.
Source: `socket_process_helper` (`AST_LIST_TRAVERSE (&frame_queue[fr->callno], cur, list)`) -/
def ackNumber (x : UInt8) (q : Queue) : Queue :=
  let marked := { q with frames := q.frames.map fun f => if f.oseqno = x then f.cancel else f }
  if q.frames.any fun f => f.oseqno = x ∧ f.final then destroy marked else marked

/-- Source: `socket_process_helper` (`for (x = rseqno; x != fr->iseqno; x++)`) -/
def ackRound (iseqno : UInt8) (s : UInt8 × Queue) : Option ((UInt8 × Queue) ⊕ Queue) :=
  if s.1 = iseqno then some (.inr s.2) else some (.inl (s.1 + 1, ackNumber s.1 s.2))

/-- A full frame: the number that it carries, whether its address is that of the call, and whether
it is an `INVAL`. -/
structure AckFrame where
  iseqno : UInt8
  fromPeer : Bool
  inval : Bool
  deriving DecidableEq, Repr

/-- The number is compared with the window by plain comparisons of the 8-bit numbers.
Source: `socket_process_helper` (`First we have to qualify that the ACKed value is within our
window`) -/
def accepts (c : Call) (iseqno : UInt8) : Bool :=
  let x := if c.rseqno ≥ c.oseqno ∨ (iseqno ≥ c.rseqno ∧ iseqno < c.oseqno) then iseqno else c.oseqno
  x ≠ c.oseqno ∨ c.oseqno = iseqno

/-- Source: `socket_process_helper` (`Handle implicit ACKing unless this is an INVAL`) -/
def implicitAck (fuel : ℕ) (c : Call) (frames : List Frame) (fr : AckFrame) : Option Queue :=
  if fr.fromPeer ∧ ¬ fr.inval then
    if accepts c fr.iseqno then
      (iterate (ackRound fr.iseqno) fuel (c.rseqno, ⟨some c, frames⟩)).map fun q =>
        { q with call := q.call.map fun c => { c with rseqno := fr.iseqno } }
    else some ⟨some c, frames⟩
  else some ⟨some c, frames⟩

/-! ## The loop -/

/-- The number `k` lies in the range from `x` up to but excluding `i`, modulo 256. -/
def InRange (x i k : UInt8) : Prop := (k - x).toNat < (i - x).toNat

instance (x i k : UInt8) : Decidable (InRange x i k) := inferInstanceAs (Decidable (_ < _))

lemma not_inRange_self (i k : UInt8) : ¬ InRange i i k := by
  simp [InRange]

variable {x i : UInt8} {frames : List Frame} {c : Call}

lemma inRange_succ_iff (k : UInt8) (hx : x ≠ i) : InRange x i k ↔ k = x ∨ InRange (x + 1) i k := by
  have hxi : x.toNat ≠ i.toNat := fun h => hx (UInt8.toNat_inj.mp h)
  have hk := k.toNat_lt
  have hx' := x.toNat_lt
  have hi := i.toNat_lt
  rw [← UInt8.toNat_inj]
  unfold InRange
  simp only [UInt8.toNat_sub, UInt8.toNat_add, UInt8.toNat_one]
  omega

/-- The frames with the numbers from `x` up to but excluding `i` are acknowledged, the others are
not changed. -/
def ackRange (x i : UInt8) (frames : List Frame) : List Frame :=
  frames.map fun f => if InRange x i f.oseqno then f.cancel else f

/-- A final frame is among those with the numbers from `x` up to but excluding `i`. -/
def FinalIn (x i : UInt8) (frames : List Frame) : Prop :=
  ∃ f ∈ frames, InRange x i f.oseqno ∧ f.final = true

instance (x i : UInt8) (frames : List Frame) : Decidable (FinalIn x i frames) :=
  inferInstanceAs (Decidable (∃ f ∈ frames, _))

/-- The queue after the numbers from `x` up to but excluding `i` were acknowledged: the call is
destroyed once if one of the frames is final. -/
def ackAll (x i : UInt8) (q : Queue) : Queue :=
  if FinalIn x i q.frames then destroy { q with frames := ackRange x i q.frames }
  else { q with frames := ackRange x i q.frames }

@[simp]
lemma Frame.cancel_oseqno (f : Frame) : f.cancel.oseqno = f.oseqno := rfl

@[simp]
lemma Frame.cancel_final (f : Frame) : f.cancel.final = f.final := rfl

@[simp]
lemma Frame.cancel_cancel (f : Frame) : f.cancel.cancel = f.cancel := rfl

lemma finalIn_map (x i : UInt8) (frames : List Frame) (p : Frame → Prop) [DecidablePred p] :
    FinalIn x i (frames.map fun f => if p f then f.cancel else f) ↔ FinalIn x i frames := by
  have hsame : ∀ f : Frame, (if p f then f.cancel else f).oseqno = f.oseqno ∧
      (if p f then f.cancel else f).final = f.final := by
    intro f
    split_ifs <;> simp
  simp [FinalIn, hsame]

lemma ackRange_map_cancel (x i : UInt8) (frames : List Frame) :
    ackRange x i (frames.map Frame.cancel) = frames.map Frame.cancel := by
  simp only [ackRange, map_map]
  refine map_congr_left fun f _ => ?_
  simp only [Function.comp]
  split_ifs <;> simp

lemma map_cancel_map (frames : List Frame) (p : Frame → Prop) [DecidablePred p] :
    (frames.map fun f => if p f then f.cancel else f).map Frame.cancel = frames.map Frame.cancel := by
  rw [map_map]
  refine map_congr_left fun f _ => ?_
  simp only [Function.comp]
  split_ifs <;> simp

lemma ackRange_succ (hx : x ≠ i) (frames : List Frame) :
    ackRange (x + 1) i (frames.map fun f => if f.oseqno = x then f.cancel else f) = ackRange x i frames := by
  simp only [ackRange, map_map]
  refine map_congr_left fun f _ => ?_
  simp only [inRange_succ_iff f.oseqno hx]
  by_cases hf : f.oseqno = x <;> simp [hf]

lemma finalIn_succ (hx : x ≠ i) (frames : List Frame) :
    FinalIn x i frames ↔ (∃ f ∈ frames, f.oseqno = x ∧ f.final = true) ∨ FinalIn (x + 1) i frames := by
  simp only [FinalIn, inRange_succ_iff _ hx]
  constructor
  · rintro ⟨f, hf, hrng | hrng, hfin⟩
    · exact .inl ⟨f, hf, hrng, hfin⟩
    · exact .inr ⟨f, hf, hrng, hfin⟩
  · rintro (⟨f, hf, hrng, hfin⟩ | ⟨f, hf, hrng, hfin⟩)
    · exact ⟨f, hf, .inl hrng, hfin⟩
    · exact ⟨f, hf, .inr hrng, hfin⟩

lemma destroy_of_kept {call : Option Call} (h : ∀ c, call = some c → c.owner = true)
    (frames : List Frame) : destroy ⟨call, frames⟩ = ⟨call, frames⟩ := by
  rcases call with _ | c
  · rfl
  · simp [destroy, h c rfl]

lemma destroy_of_owned (h : c.owner = false) :
    destroy ⟨some c, frames⟩ = ⟨none, if c.lastRef then frames.map Frame.cancel else frames⟩ := by
  simp [destroy, h]

lemma ackAll_ackNumber (hx : x ≠ i) (q : Queue) : ackAll (x + 1) i (ackNumber x q) = ackAll x i q := by
  obtain ⟨call, frames⟩ := q
  have hany : (frames.any fun f => f.oseqno = x ∧ f.final) = true ↔ ∃ f ∈ frames, f.oseqno = x ∧ f.final = true := by
    simp
  simp only [ackNumber]
  by_cases hfst : ∃ f ∈ frames, f.oseqno = x ∧ f.final = true
  · rw [if_pos (hany.mpr hfst)]
    have hfin : FinalIn x i frames := (finalIn_succ hx frames).mpr (.inl hfst)
    rcases Classical.em (∀ c, call = some c → c.owner = true) with hkept | hkept
    · -- the call stays, and nothing but the frames changes
      simp only [ackAll]
      rw [if_pos hfin, destroy_of_kept hkept, ackRange_succ hx]
      rw [destroy_of_kept hkept, ite_self]
    obtain ⟨c, rfl, howner⟩ : ∃ c, call = some c ∧ c.owner = false := by simpa using hkept
    rw [destroy_of_owned howner]
    have hgone : ∀ fs : List Frame, destroy ⟨none, fs⟩ = ⟨none, fs⟩ := fun _ => rfl
    simp only [ackAll]
    rw [if_pos hfin, destroy_of_owned howner, hgone, ite_self]
    by_cases hlast : c.lastRef = true
    · rw [if_pos hlast, if_pos hlast, map_cancel_map, ackRange_map_cancel, ackRange, map_cancel_map]
    · rw [if_neg hlast, if_neg hlast, ackRange_succ hx]
  · rw [if_neg (fun h => hfst (hany.mp h))]
    have hiff : FinalIn (x + 1) i (frames.map fun f => if f.oseqno = x then f.cancel else f) ↔
        FinalIn x i frames := by
      rw [finalIn_map, finalIn_succ hx]
      simp [hfst]
    simp [ackAll, ackRange_succ hx, hiff]

lemma ackAll_self (i : UInt8) (q : Queue) : ackAll i i q = q := by
  have hfin : ¬ FinalIn i i q.frames := by
    rintro ⟨f, -, hf, -⟩
    exact not_inRange_self i f.oseqno hf
  rw [ackAll, if_neg hfin, ackRange]
  simp [not_inRange_self]

lemma ackLoop_eq (i : UInt8) (n : ℕ) (x : UInt8) (q : Queue) (hn : (i - x).toNat = n) (fuel : ℕ)
    (hfuel : n < fuel) : iterate (ackRound i) fuel (x, q) = some (ackAll x i q) := by
  induction n generalizing x q fuel with
  | zero =>
    have hx : x = i := by
      have hx' := x.toNat_lt
      have hi := i.toNat_lt
      rw [UInt8.toNat_sub] at hn
      rw [← UInt8.toNat_inj]
      omega
    obtain _ | k := fuel
    · omega
    rw [iterate_done (by rw [ackRound, if_pos hx]), hx, ackAll_self]
  | succ n ih =>
    have hx : x ≠ i := by
      rintro rfl
      simp at hn
    have hrest : (i - (x + 1)).toNat = n := by
      have hx' := x.toNat_lt
      simp only [UInt8.toNat_sub, UInt8.toNat_add, UInt8.toNat_one] at hn ⊢
      omega
    obtain _ | k := fuel
    · omega
    rw [iterate_next (by rw [ackRound, if_neg hx]), ih (x + 1) (ackNumber x q) hrest k (by omega),
      ackAll_ackNumber hx]

/-! ## The window -/

/-- The number lies in the window of the numbers that are outstanding, or is the next one to be
sent. -/
def InWindow (c : Call) (iseqno : UInt8) : Prop :=
  (iseqno - c.rseqno).toNat ≤ (c.oseqno - c.rseqno).toNat

instance (c : Call) (iseqno : UInt8) : Decidable (InWindow c iseqno) := inferInstanceAs (Decidable (_ ≤ _))

def AcksWindow (c : Call) (frames : List Frame) (iseqno : UInt8) (q : Queue) : Prop :=
  if InWindow c iseqno then q.frames = ackRange c.rseqno iseqno frames
  else q = ⟨some c, frames⟩

instance (c : Call) (frames : List Frame) (iseqno : UInt8) (q : Queue) :
    Decidable (AcksWindow c frames iseqno q) := by
  unfold AcksWindow
  infer_instance

def Proper (c : Call) (frames : List Frame) (fr : AckFrame) : Prop :=
  if fr.inval then
    InWindow c fr.iseqno → ∀ f ∈ frames, InRange c.rseqno fr.iseqno f.oseqno → f.retries = -1
  else
    (c.rseqno < c.oseqno ∨ InWindow c fr.iseqno) ∧
      (InWindow c fr.iseqno → FinalIn c.rseqno fr.iseqno frames → c.owner = false → c.lastRef = true →
        ∀ f ∈ frames, ¬ InRange c.rseqno fr.iseqno f.oseqno → f.retries = -1)

instance (c : Call) (frames : List Frame) (fr : AckFrame) : Decidable (Proper c frames fr) := by
  unfold Proper
  infer_instance

lemma Frame.cancel_eq_self_iff (f : Frame) : f.cancel = f ↔ f.retries = -1 := by
  obtain ⟨oseqno, retries, final⟩ := f
  simp [Frame.cancel, eq_comm]

lemma ackRange_eq_self_iff (x i : UInt8) (frames : List Frame) :
    frames = ackRange x i frames ↔ ∀ f ∈ frames, InRange x i f.oseqno → f.retries = -1 := by
  have hmap : ackRange x i frames = frames ↔ ∀ f ∈ frames, (if InRange x i f.oseqno then f.cancel else f) = f := by
    conv_lhs => rhs; rw [← map_id frames]
    exact map_inj_left
  rw [eq_comm, hmap]
  refine forall₂_congr fun f _ => ?_
  split_ifs with hrng
  · simp [hrng, Frame.cancel_eq_self_iff]
  · simp [hrng]

lemma map_cancel_eq_ackRange_iff (x i : UInt8) (frames : List Frame) :
    (ackRange x i frames).map Frame.cancel = ackRange x i frames ↔
      ∀ f ∈ frames, ¬ InRange x i f.oseqno → f.retries = -1 := by
  rw [ackRange, map_cancel_map, map_inj_left]
  refine forall₂_congr fun f _ => ?_
  split_ifs with hrng
  · simp [hrng]
  · simp [hrng, Frame.cancel_eq_self_iff]

lemma accepts_iff (c : Call) (iseqno : UInt8) :
    accepts c iseqno = true ↔ (c.rseqno < c.oseqno → InWindow c iseqno) := by
  have ho := c.oseqno.toNat_lt
  have hi := iseqno.toNat_lt
  unfold accepts InWindow
  simp only [decide_eq_true_eq, ne_eq, UInt8.le_iff_toNat_le, UInt8.lt_iff_toNat_lt, ← UInt8.toNat_inj, UInt8.toNat_sub]
  split_ifs with hcmp <;> omega

lemma ackAll_frames_iff (x i : UInt8) (c : Call) (frames : List Frame) :
    (ackAll x i ⟨some c, frames⟩).frames = ackRange x i frames ↔
      (FinalIn x i frames → c.owner = false → c.lastRef = true →
        ∀ f ∈ frames, ¬ InRange x i f.oseqno → f.retries = -1) := by
  unfold ackAll
  by_cases hfin : FinalIn x i frames
  · rw [if_pos hfin]
    cases howner : c.owner with
    | true =>
      rw [destroy_of_kept (by rintro c' ⟨⟩; exact howner)]
      simp
    | false =>
      rw [destroy_of_owned howner]
      by_cases hlast : c.lastRef = true
      · simpa [hfin, hlast] using map_cancel_eq_ackRange_iff x i frames
      · simp [hlast]
  · simp [hfin]

lemma implicitAck_of_accepts {fr : AckFrame} (hpeer : fr.fromPeer = true) (hinval : fr.inval = false)
    (hacs : accepts c fr.iseqno = true) (fuel : ℕ) (hfuel : 256 ≤ fuel) :
    implicitAck fuel c frames fr =
      some { ackAll c.rseqno fr.iseqno ⟨some c, frames⟩ with
        call := (ackAll c.rseqno fr.iseqno ⟨some c, frames⟩).call.map fun c =>
          { c with rseqno := fr.iseqno } } := by
  have hrds := (fr.iseqno - c.rseqno).toNat_lt
  rw [implicitAck, if_pos ⟨hpeer, by simp [hinval]⟩, if_pos hacs,
    ackLoop_eq fr.iseqno _ c.rseqno _ rfl fuel (by omega)]
  rfl

/-- **The acknowledgement window**: processing a full frame of the peer ends, and it acknowledges
what it is to acknowledge just if the frame is proper. -/
theorem implicitAck_window_iff (c : Call) (frames : List Frame) (fr : AckFrame)
    (hpeer : fr.fromPeer = true) :
    (∃ q, (∀ fuel, 256 ≤ fuel → implicitAck fuel c frames fr = some q) ∧
        AcksWindow c frames fr.iseqno q) ↔
      Proper c frames fr := by
  cases hinval : fr.inval with
  | true =>
    rw [exists_result_iff (b := ⟨some c, frames⟩) (le_refl 256) fun fuel _ => by
      rw [implicitAck, if_neg (by simp [hinval])], AcksWindow, Proper, if_pos hinval]
    by_cases hwin : InWindow c fr.iseqno
    · rw [ackRange_eq_self_iff]
      simp
    · simp [hwin]
  | false =>
    rw [Proper, if_neg (by simp [hinval])]
    by_cases hwin : InWindow c fr.iseqno
    · have hacs : accepts c fr.iseqno = true := (accepts_iff c fr.iseqno).mpr fun _ => hwin
      rw [exists_result_iff (le_refl 256) (implicitAck_of_accepts hpeer hinval hacs), AcksWindow]
      simpa [hwin] using ackAll_frames_iff c.rseqno fr.iseqno c frames
    by_cases hwrap : c.rseqno < c.oseqno
    · -- a window that does not wrap: the number is turned down
      have hrejects : ¬ accepts c fr.iseqno = true :=
        fun h => hwin ((accepts_iff c fr.iseqno).mp h hwrap)
      rw [exists_result_iff (b := ⟨some c, frames⟩) (le_refl 256) fun fuel _ => by rw [implicitAck, if_pos ⟨hpeer,
        by simp [hinval]⟩, if_neg hrejects], AcksWindow]
      simp [hwrap, hwin]
    -- otherwise it passes, and `rseqno` is changed or the call is gone
    have hacs : accepts c fr.iseqno = true :=
      (accepts_iff c fr.iseqno).mpr fun h => absurd h hwrap
    rw [exists_result_iff (le_refl 256) (implicitAck_of_accepts hpeer hinval hacs), AcksWindow, if_neg hwin]
    refine iff_of_false ?_ (by simp [hwrap, hwin])
    intro hsame
    have hcall := congrArg Queue.call hsame
    obtain ⟨c', -, hc'⟩ := Option.map_eq_some_iff.mp hcall
    have hseq : fr.iseqno = c.rseqno := congrArg Call.rseqno hc'
    exact hwin (by simp [InWindow, hseq])

/-- Three frames are out, two of them are acknowledged. -/
theorem implicitAck_window_iff_two :
    ∃ q, (∀ fuel, 256 ≤ fuel →
        implicitAck fuel ⟨4, 7, false, true⟩ [⟨4, 0, false⟩, ⟨5, 1, false⟩, ⟨6, 0, true⟩] ⟨6, true, false⟩ =
          some q) ∧
      AcksWindow ⟨4, 7, false, true⟩ [⟨4, 0, false⟩, ⟨5, 1, false⟩, ⟨6, 0, true⟩] 6 q :=
  (implicitAck_window_iff ⟨4, 7, false, true⟩ [⟨4, 0, false⟩, ⟨5, 1, false⟩, ⟨6, 0, true⟩] ⟨6, true, false⟩
    rfl).mpr (by decide)

/-- Exactly the numbers from `rseqno` up to but excluding `oseqno` are outstanding, fewer than
128. -/
def Outstanding (c : Call) (frames : List Frame) : Prop :=
  (c.oseqno - c.rseqno).toNat < 128 ∧ ∀ k, (∃ f ∈ frames, f.retries ≠ -1 ∧ f.oseqno = k) ↔ InRange c.rseqno c.oseqno k

/-- The frames 254, 255, 0 and 1 are out when a delayed frame of the peer with number 253 comes: all
four are given up and `rseqno` is set back. -/
theorem implicitAck_stale_cancels :
    let c : Call := ⟨254, 2, true, false⟩
    let frames : List Frame := [⟨254, 0, false⟩, ⟨255, 0, false⟩, ⟨0, 0, false⟩, ⟨1, 0, false⟩]
    Outstanding c frames ∧ ¬ InWindow c 253 ∧
      implicitAck 256 c frames ⟨253, true, false⟩ =
        some ⟨some { c with rseqno := 253 }, frames.map Frame.cancel⟩ := by
  intro c frames
  have hnums : ∀ n : Fin 256, (∃ f ∈ frames, f.retries ≠ -1 ∧ f.oseqno = UInt8.ofNat n.val) ↔
      InRange c.rseqno c.oseqno (UInt8.ofNat n.val) := by
    decide +kernel
  refine ⟨⟨by decide, fun k => ?_⟩, by decide, by decide +kernel⟩
  have hk := hnums ⟨k.toNat, k.toNat_lt⟩
  rwa [UInt8.ofNat_toNat] at hk

/-! ## Deferred full frames -/

section Deferred

variable {β : Type}

/-- A busy thread's packets stand in the order of their numbers, compared as plain bytes.
Source: `defer_full_frame` -/
def deferFullFrame (oseqno : β → UInt8) (fullFrames : List β) (pkt : β) : List β :=
  fullFrames.orderedInsert (fun a b => oseqno a < oseqno b) pkt

/-- The packets, as `socket_process` gets them.
Source: `handle_deferred_full_frames` -/
def handleDeferredFullFrames : List β → List β
  | [] => []
  | pkt :: fullFrames => pkt :: handleDeferredFullFrames fullFrames

lemma handleDeferredFullFrames_eq (l : List β) : handleDeferredFullFrames l = l := by
  induction l with
  | nil => rfl
  | cons pkt l ih => rw [handleDeferredFullFrames, ih]

variable {oseqno : β → UInt8} {fullFrames : List β}

section

variable (h : fullFrames.Pairwise fun a b => oseqno a ≤ oseqno b)
include h

lemma deferFullFrame_sorted (pkt : β) :
    (deferFullFrame oseqno fullFrames pkt).Pairwise fun a b => oseqno a ≤ oseqno b := by
  induction fullFrames with
  | nil => simp [deferFullFrame]
  | cons cur rest ih =>
    obtain ⟨hcur, hrest⟩ := pairwise_cons.1 h
    rw [deferFullFrame, orderedInsert_cons]
    split_ifs with hbef
    · refine pairwise_cons.2 ⟨fun b hb => ?_, h⟩
      rcases mem_cons.1 hb with rfl | hb
      · exact UInt8.le_of_lt hbef
      · exact UInt8.le_trans (UInt8.le_of_lt hbef) (hcur b hb)
    · refine pairwise_cons.2 ⟨fun b hb => ?_, ih hrest⟩
      rcases (mem_orderedInsert _).1 hb with rfl | hb
      · exact UInt8.not_lt.1 hbef
      · exact hcur b hb

/-- One frame after the other, the queue stays sorted and has what arrived. -/
lemma deferAll_sorted (arrived : List β) :
    (arrived.foldl (deferFullFrame oseqno) fullFrames).Pairwise (fun a b => oseqno a ≤ oseqno b) ∧
      (arrived.foldl (deferFullFrame oseqno) fullFrames).Perm (arrived ++ fullFrames) := by
  induction arrived generalizing fullFrames with
  | nil => exact ⟨h, .rfl⟩
  | cons pkt arrived ih =>
    obtain ⟨hsrt, hperm⟩ := ih (deferFullFrame_sorted h pkt)
    exact ⟨hsrt, hperm.trans (((perm_orderedInsert _ pkt fullFrames).append_left _).trans perm_middle)⟩

end

/-- **Deferred full frames** are processed in the order of the sequence just if none of them is 128
or more above another one as a plain byte. -/
theorem deferredFullFrames_in_sequence_iff (oseqno : β → UInt8) (arrived : List β) :
    (handleDeferredFullFrames (arrived.foldl (deferFullFrame oseqno) [])).Pairwise
        (fun a b => oseqno b - oseqno a < 128) ↔
      ∀ a ∈ arrived, ∀ b ∈ arrived, oseqno a ≤ oseqno b → oseqno b - oseqno a < 128 := by
  obtain ⟨hsrt, hperm⟩ := @deferAll_sorted _ oseqno _ .nil arrived
  rw [append_nil] at hperm
  rw [handleDeferredFullFrames_eq]
  constructor
  · intro hsequence a ha b hb
    refine Pairwise.forall_of_forall_of_flip (R := fun a b => oseqno a ≤ oseqno b → oseqno b - oseqno a < 128)
      (by simp) ?_ ?_ (hperm.mem_iff.2 ha) (hperm.mem_iff.2 hb)
    · refine hsequence.imp ?_
      intro a b h _
      exact h
    · -- the other way round, the numbers are the same
      refine hsrt.imp fun {a b} hle hge => ?_
      rw [UInt8.le_antisymm hge hle, UInt8.sub_self]
      decide
  · intro h
    exact hsrt.imp_of_mem fun ha hb hle => h _ (hperm.mem_iff.1 ha) _ (hperm.mem_iff.1 hb) hle

/-- The frame with number 0 follows the one with number 255, and is processed first. -/
theorem deferredFullFrames_wrap :
    (0 : UInt8) - 255 < 128 ∧
      handleDeferredFullFrames ([255, 0].foldl (deferFullFrame id) []) = [(0 : UInt8), 255] := by
  decide

end Deferred

end Telephony.Iax2
