import Mathlib.Algebra.Order.Ring.Int
import Telephony.Lib.Loop

/-!
# The adaptive jitter buffer: data and operations

`main/jitterbuf.c` keeps the received frames in a circular doubly linked list, with the frame of the
lowest timestamp at `jb->frames`, and recycles the nodes of delivered frames through a list
`jb->free`. The nodes are modelled with their pointers, in a heap; following a null pointer is
`none`. `long` is modelled by `ℤ` (signed overflow is undefined in the source).
-/

namespace Telephony.Jitter.Adaptive

open Lib Function

/-! ## Data model -/

inductive JbFrameType
  | control
  | voice
  | video
  | silence
  deriving DecidableEq, Repr, Inhabited

/-- Source: `struct jb_frame` (`data`, `ts`, `ms`, `type`) -/
structure JbFrame (δ : Type) where
  data : δ
  ts : ℤ
  ms : ℤ
  type : JbFrameType
  deriving DecidableEq, Repr, Inhabited

/-- Source: `struct jb_frame` -/
structure JbNode (δ : Type) where
  frame : JbFrame δ
  next : Option ℕ
  prev : Option ℕ
  deriving DecidableEq, Repr, Inhabited

/-- Source: `struct jitterbuf` (`frames`, `free`) -/
structure JbStore (δ : Type) where
  frames : Option ℕ
  free : Option ℕ
  heap : ℕ → JbNode δ
  fresh : ℕ

structure JbConf where
  maxJitterbuf : ℤ
  resyncThreshold : ℤ
  maxContigInterp : ℤ
  targetExtra : ℤ
  deriving DecidableEq, Repr

structure JbInfo where
  conf : JbConf
  framesIn : ℤ := 0
  framesOut : ℤ := 0
  framesLate : ℤ := 0
  framesLost : ℤ := 0
  framesDropped : ℤ := 0
  framesOoo : ℤ := 0
  framesCur : ℤ := 0
  jitter : ℤ := 0
  min : ℤ := 0
  current : ℤ := 0
  target : ℤ := 0
  losspct : ℤ := 0
  nextVoiceTs : ℤ := 0
  lastVoiceMs : ℤ := 0
  silenceBeginTs : ℤ := 0
  lastAdjustment : ℤ := 0
  lastDelay : ℤ := 0
  cntDelayDiscont : ℤ := 0
  resyncOffset : ℤ := 0
  cntContigInterp : ℤ := 0
  deriving DecidableEq, Repr

structure Jitterbuf (δ : Type) where
  info : JbInfo
  history : ℕ → ℤ
  histPtr : ℕ
  histMaxbuf : List ℤ
  histMinbuf : List ℤ
  histMaxbufValid : Bool
  dropem : Bool
  store : JbStore δ

def jbHistorySz : ℕ := 500

def jbHistoryDroppct : ℕ := 3

def jbHistoryMaxbufSz : ℕ := 20

def jbTargetExtra : ℤ := 40

def jbAdjustDelay : ℤ := 40

def jbLongmax : ℤ := 2147483647

def jbLongmin : ℤ := -jbLongmax - 1

/-- What a get hands back: a frame to play or to drop, nothing, or the length of a frame to
interpolate.
Source: `enum jb_return_code`, `jb_get` (`frameout`) -/
inductive JbResult (δ : Type)
  | ok (frame : JbFrame δ)
  | drop (frame : JbFrame δ)
  | noframe
  | interp (ms : ℤ)
  deriving DecidableEq, Repr

/-- Source: `jb_put` (`JB_OK`, `JB_SCHED`, `JB_DROP`) -/
inductive JbPutCode
  | ok
  | sched
  | drop
  deriving DecidableEq, Repr

def JbResult.frame? {δ : Type} : JbResult δ → Option (JbFrame δ)
  | .ok f => some f
  | .drop f => some f
  | _ => none

section Operations

variable {δ : Type}

/-! ## The history of delays -/

def JbInfo.incrementLosspct (info : JbInfo) : JbInfo :=
  { info with losspct := (100000 + 499 * info.losspct).tdiv 500 }

def JbInfo.decrementLosspct (info : JbInfo) : JbInfo :=
  { info with losspct := (499 * info.losspct).tdiv 500 }

/-- Whether the new or the replaced delay may change the extreme values.
Source: `history_put` (`goto invalidate`) -/
def Jitterbuf.invalidates (jb : Jitterbuf δ) (histPtr : ℕ) (delay kicked : ℤ) : Bool :=
  let minLast := jb.histMinbuf.getLastD 0
  let maxLast := jb.histMaxbuf.getLastD 0
  histPtr < jbHistorySz || delay < minLast || maxLast < delay || kicked ≤ minLast || maxLast ≤ kicked

def historyPut (jb : Jitterbuf δ) (ts delay : ℤ) : Jitterbuf δ :=
  if ts ≤ 0 then jb
  else
    let kicked := jb.history (jb.histPtr % jbHistorySz)
    let valid := jb.histMaxbufValid && !jb.invalidates (jb.histPtr + 1) delay kicked
    { jb with
      history := update jb.history (jb.histPtr % jbHistorySz) delay
      histPtr := jb.histPtr + 1
      histMaxbufValid := valid }

/-- Insert a value before the first one it goes before, and drop the last one.
Source: `history_calc_maxbuf` (`memmove`) -/
def insertExtreme (goesBefore : ℤ → ℤ → Bool) (toins : ℤ) : List ℤ → List ℤ
  | [] => []
  | b :: bs =>
    if goesBefore toins b then (toins :: b :: bs).dropLast
    else b :: insertExtreme goesBefore toins bs

/-- Source: `history_calc_maxbuf` (`for (;i<jb->hist_ptr;i++)`) -/
def Jitterbuf.delays (jb : Jitterbuf δ) : List ℤ :=
  let start := if jbHistorySz < jb.histPtr then jb.histPtr - jbHistorySz else 0
  (List.range' start (jb.histPtr - start)).map fun i => jb.history (i % jbHistorySz)

def historyCalcMaxbuf (jb : Jitterbuf δ) : Jitterbuf δ :=
  if jb.histPtr = 0 then jb
  else
    { jb with
      histMaxbuf := jb.delays.foldl (fun buf toins => insertExtreme (fun a b => b < a) toins buf)
        (List.replicate jbHistoryMaxbufSz jbLongmin)
      histMinbuf := jb.delays.foldl (fun buf toins => insertExtreme (fun a b => a < b) toins buf)
        (List.replicate jbHistoryMaxbufSz jbLongmax)
      histMaxbufValid := true }

def historyGet (jb : Jitterbuf δ) : Jitterbuf δ :=
  let jb := if jb.histMaxbufValid then jb else historyCalcMaxbuf jb
  let count := if jb.histPtr < jbHistorySz then jb.histPtr else jbHistorySz
  let idx := Nat.min (count * jbHistoryDroppct / 100) (jbHistoryMaxbufSz - 1)
  let max := jb.histMaxbuf.getD idx 0
  let min := jb.histMinbuf.getD idx 0
  { jb with info := { jb.info with min := min, jitter := max - min } }

/-! ## The queue -/

def JbStore.setNext (s : JbStore δ) (a : ℕ) (v : Option ℕ) : JbStore δ :=
  { s with heap := update s.heap a { s.heap a with next := v } }

def JbStore.setPrev (s : JbStore δ) (a : ℕ) (v : Option ℕ) : JbStore δ :=
  { s with heap := update s.heap a { s.heap a with prev := v } }

def JbStore.setFrame (s : JbStore δ) (a : ℕ) (f : JbFrame δ) : JbStore δ :=
  { s with heap := update s.heap a { s.heap a with frame := f } }

/-- Source: `queue_put` (`frame = jb->free`, `ast_malloc`) -/
def JbStore.allocFrame (s : JbStore δ) : ℕ × JbStore δ :=
  match s.free with
  | some frame => (frame, { s with free := (s.heap frame).next })
  | none => (s.fresh, { s with fresh := s.fresh + 1 })

/-- Source: `queue_put` (`frame->next = p; frame->prev = p->prev; …`) -/
def JbStore.linkBefore (s : JbStore δ) (frame p : ℕ) : Option (JbStore δ) := do
  let u ← (s.heap p).prev
  return (((s.setNext frame (some p)).setPrev frame (some u)).setPrev p (some frame)).setNext u (some frame)

/-- Source: `queue_put` (`while (resync_ts < p->prev->ts && p->prev != jb->frames)`) -/
def JbStore.walkStep (s : JbStore δ) (resyncTs : ℤ) (p : ℕ) : Option (ℕ ⊕ ℕ) := do
  let u ← (s.heap p).prev
  return if resyncTs < (s.heap u).frame.ts ∧ some u ≠ s.frames then .inl u else .inr p

/-- The node before which a frame goes. There are fewer nodes than `fresh` rounds.
Source: `queue_put` (`p = p->prev`) -/
def JbStore.walkBack (s : JbStore δ) (resyncTs : ℤ) (p : ℕ) : Option ℕ :=
  iterate (s.walkStep resyncTs) (s.fresh + 1) p

/-- Put a filled node in its place in the list; whether it became the head, and whether it is out of
order.
Source: `queue_put` (from `if (!jb->frames)`) -/
def JbStore.linkFrame (s : JbStore δ) (frame : ℕ) (resyncTs : ℤ) : Option (Bool × Bool × JbStore δ) :=
  match s.frames with
  | none =>
    some (true, false, { (s.setNext frame (some frame)).setPrev frame (some frame) with frames := some frame })
  | some head =>
    if resyncTs < (s.heap head).frame.ts then do
      let s' ← s.linkBefore frame head
      return (true, true, { s' with frames := some frame })
    else do
      let last ← (s.heap head).prev
      let p ← s.walkBack resyncTs head
      let s' ← s.linkBefore frame p
      return (false, resyncTs < (s.heap last).frame.ts, s')

/-- Source: `queue_put` -/
def JbStore.put (s : JbStore δ) (f : JbFrame δ) : Option (Bool × Bool × JbStore δ) :=
  (s.allocFrame.2.setFrame s.allocFrame.1 f).linkFrame s.allocFrame.1 f.ts

def queuePut (jb : Jitterbuf δ) (data : δ) (type : JbFrameType) (ms ts : ℤ) :
    Option (Bool × Jitterbuf δ) := do
  let (head, ooo, store) ← jb.store.put ⟨data, ts - jb.info.resyncOffset, ms, type⟩
  return (head,
    { jb with
      info := { jb.info with
        framesCur := jb.info.framesCur + 1
        framesOoo := jb.info.framesOoo + if ooo then 1 else 0 }
      store := store })

def JbStore.queueNext (s : JbStore δ) : Option ℤ :=
  match s.frames with
  | none => some (-1)
  | some head => some (s.heap head).frame.ts

def JbStore.queueLast (s : JbStore δ) : Option ℤ :=
  match s.frames with
  | none => some (-1)
  | some head => do
    let last ← (s.heap head).prev
    return (s.heap last).frame.ts

/-- Take the head of the list if it is due, or in any case; its node goes onto the free list and is
still read from there.
Source: `_queue_get` -/
def JbStore.get (s : JbStore δ) (ts : ℤ) (all : Bool) : Option (Option ℕ × JbStore δ) :=
  match s.frames with
  | none => some (none, s)
  | some frame =>
    if all = true ∨ (s.heap frame).frame.ts ≤ ts then do
      let u ← (s.heap frame).prev
      let v ← (s.heap frame).next
      let s := (s.setNext u (some v)).setPrev v (some u)
      let frames := if (s.heap frame).next = some frame then none else (s.heap frame).next
      let s := s.setNext frame s.free
      return (some frame, { s with frames := frames, free := some frame })
    else some (none, s)

/-- Source: `_queue_get` -/
def queueGetCore (jb : Jitterbuf δ) (ts : ℤ) (all : Bool) : Option (Option (JbFrame δ) × Jitterbuf δ) := do
  let (frame, store) ← jb.store.get ts all
  match frame with
  | none => return (none, jb)
  | some a =>
    return (some (store.heap a).frame,
      { jb with info := { jb.info with framesCur := jb.info.framesCur - 1 }, store := store })

def queueGet (jb : Jitterbuf δ) (ts : ℤ) : Option (Option (JbFrame δ) × Jitterbuf δ) :=
  queueGetCore jb ts false

def queueGetall (jb : Jitterbuf δ) : Option (Option (JbFrame δ) × Jitterbuf δ) := queueGetCore jb 0 true

/-! ## Putting frames -/

/-- Check for an overfull buffer and for a drastic change of delay: the delay to use, `none` when
the frame is dropped. -/
def checkResync (jb : Jitterbuf δ) (ts now : ℤ) (type : JbFrameType) (delay : ℤ) :
    Option (Option ℤ × Jitterbuf δ) := do
  let threshold := 2 * jb.info.jitter + jb.info.conf.resyncThreshold
  let last ← jb.store.queueLast
  let next ← jb.store.queueNext
  -- zero when the queue is empty
  let numts := last - next
  if jb.info.conf.maxJitterbuf ≤ numts then
    return (none,
      { jb with dropem := true, info := { jb.info with framesDropped := jb.info.framesDropped + 1 } })
  else
    let jb := { jb with dropem := false }
    if jb.info.conf.resyncThreshold = -1 then return (some delay, jb)
    else if threshold < |delay - jb.info.lastDelay| then
      if 3 < jb.info.cntDelayDiscont + 1 ∨ type = .control then
        -- after the resync the frame is right on time
        return (some 0,
          { jb with
            histPtr := 0
            histMaxbufValid := false
            info := { jb.info with cntDelayDiscont := 0, resyncOffset := ts - now, lastDelay := 0 } })
      else
        return (none,
          { jb with
            info := { jb.info with
              cntDelayDiscont := jb.info.cntDelayDiscont + 1
              framesDropped := jb.info.framesDropped + 1 } })
    else
      return (some delay, { jb with info := { jb.info with lastDelay := delay, cntDelayDiscont := 0 } })

def jbPut (jb : Jitterbuf δ) (data : δ) (type : JbFrameType) (ms ts now : ℤ) :
    Option (JbPutCode × Jitterbuf δ) := do
  let (delay, jb) ← checkResync jb ts now type (now - (ts - jb.info.resyncOffset))
  match delay with
  | none => return (.drop, jb)
  | some delay =>
    let jb := if type = .voice then historyPut jb ts delay else jb
    let jb := { jb with info := { jb.info with framesIn := jb.info.framesIn + 1 } }
    let (head, jb) ← queuePut jb data type ms ts
    return (if head then .sched else .ok, jb)

/-! ## Getting frames -/

/-- Source: `_jb_get` (`jb->info.target`) -/
def JbInfo.setTarget (info : JbInfo) : JbInfo :=
  let target := info.jitter + info.min + info.conf.targetExtra
  { info with
    target :=
      if info.conf.maxJitterbuf ≠ 0 ∧ info.conf.maxJitterbuf < target - info.min then
        info.min + info.conf.maxJitterbuf
      else target }

/-- One more frame is interpolated; after too many, silence begins.
Source: `_jb_get` (`cnt_contig_interp`) -/
def JbInfo.interpolate (info : JbInfo) (interpl : ℤ) : JbInfo :=
  let info := { info with
    nextVoiceTs := info.nextVoiceTs + interpl
    lastVoiceMs := interpl
    cntContigInterp := info.cntContigInterp + 1 }
  if info.conf.maxContigInterp ≠ 0 ∧ info.conf.maxContigInterp ≤ info.cntContigInterp then
    { info with silenceBeginTs := info.nextVoiceTs - info.current }
  else info

/-- Source: `_jb_get` ("we want to grow") -/
def JbInfo.grow (info : JbInfo) (now interpl : ℤ) : JbInfo :=
  { info with current := info.current + interpl, lastAdjustment := now }.interpolate interpl

def JbInfo.out (info : JbInfo) : JbInfo := { info with framesOut := info.framesOut + 1 }

/-- Source: `_jb_get` ("voice frame is late") -/
def JbInfo.late (info : JbInfo) : JbInfo :=
  { info.out.decrementLosspct with framesLate := info.framesLate + 1, framesLost := info.framesLost - 1 }

/-- Source: `_jb_get` (`!frame`) -/
def getMissing (info : JbInfo) (diff now interpl : ℤ) : JbResult δ × JbInfo :=
  if diff < -info.conf.targetExtra ∧ (info.lastAdjustment + 80 < now ∨ info.lastAdjustment + 500 < now) then
    (.noframe,
      { info with
        lastAdjustment := now
        cntContigInterp := 0
        current := info.current - info.lastVoiceMs
        framesLost := info.framesLost + 1 }.incrementLosspct)
  else
    let info := ({ info with framesLost := info.framesLost + 1 }.incrementLosspct).interpolate interpl
    (.interp info.lastVoiceMs, info)

/-- Source: `_jb_get` ("let's work on non-silent") -/
def getVoice (info : JbInfo) (frame : JbFrame δ) (diff now : ℤ) : JbResult δ × JbInfo :=
  if frame.type ≠ .voice then
    let info :=
      if frame.type = .silence then { info with silenceBeginTs := frame.ts, cntContigInterp := 0 } else info
    (.ok frame, info.out)
  else if frame.ts + info.current < info.nextVoiceTs then
    if info.nextVoiceTs - info.lastVoiceMs < frame.ts + info.current then
      -- interpolated past this frame already, or it came a little too quick
      (.ok frame,
        { info.out.decrementLosspct with
          nextVoiceTs := frame.ts + info.current + frame.ms
          cntContigInterp := 0 })
    else (.drop frame, info.late)
  else
    let info := if 0 < frame.ms then { info with lastVoiceMs := frame.ms } else info
    if diff < -info.conf.targetExtra ∧ info.lastAdjustment + 500 < now then
      (.drop frame,
        { info.out.decrementLosspct with
          lastAdjustment := now
          cntContigInterp := 0
          current := info.current - frame.ms
          framesDropped := info.framesDropped + 1 })
    else
      (.ok frame,
        { info.out with nextVoiceTs := info.nextVoiceTs + frame.ms, cntContigInterp := 0 }.decrementLosspct)

/-- Source: `_jb_get` ("silent case") -/
def getSilent (info : JbInfo) (frame : JbFrame δ) : JbResult δ × JbInfo :=
  if frame.type ≠ .voice then (.ok frame, info.out)
  else if frame.ts < info.silenceBeginTs then (.drop frame, info.late)
  else
    (.ok frame,
      { info.out.decrementLosspct with
        current := info.target
        silenceBeginTs := 0
        nextVoiceTs := frame.ts + info.target + frame.ms
        lastVoiceMs := frame.ms })

/-- Source: `_jb_get` ("get jitter info") -/
def prepareGet (jb : Jitterbuf δ) : Jitterbuf δ :=
  let jb := historyGet jb
  { jb with info := jb.info.setTarget }

/-- Source: `_jb_get` (`if (!jb->info.silence_begin_ts)`) -/
def getOutsideSilence (jb : Jitterbuf δ) (now interpl : ℤ) : Option (JbResult δ × Jitterbuf δ) := do
  let diff := jb.info.target - jb.info.current
  let last ← jb.store.queueLast
  let next ← jb.store.queueNext
  if 0 < diff ∧ (jb.info.lastAdjustment + jbAdjustDelay < now ∨ last - next < diff) then
    let info := jb.info.grow now interpl
    return (.interp info.lastVoiceMs, { jb with info := info })
  else do
    let (frame, jb) ← queueGet jb (jb.info.nextVoiceTs - jb.info.current)
    let out := match frame with
      | none => getMissing jb.info diff now interpl
      | some frame => getVoice jb.info frame diff now
    return (out.1, { jb with info := out.2 })

/-- Source: `_jb_get` ("shrink interpl len every") -/
def JbInfo.shrinkSilent (info : JbInfo) (now interpl : ℤ) : JbInfo :=
  if info.target - info.current < -info.conf.targetExtra ∧ info.lastAdjustment + 10 ≤ now then
    { info with current := info.current - interpl, lastAdjustment := now }
  else info

/-- Source: `_jb_get` ("silent case") -/
def getInSilence (jb : Jitterbuf δ) (now interpl : ℤ) : Option (JbResult δ × Jitterbuf δ) := do
  let info := jb.info.shrinkSilent now interpl
  let (frame, jb) ← queueGet { jb with info := info } (now - info.current)
  match frame with
  | none => return (.noframe, jb)
  | some frame =>
    let out := getSilent jb.info frame
    return (out.1, { jb with info := out.2 })

/-- Source: `_jb_get`, `jb_get` -/
def jbGet (jb : Jitterbuf δ) (now interpl : ℤ) : Option (JbResult δ × Jitterbuf δ) :=
  if (prepareGet jb).info.silenceBeginTs = 0 then getOutsideSilence (prepareGet jb) now interpl
  else getInSilence (prepareGet jb) now interpl

def jbGetall (jb : Jitterbuf δ) : Option (JbResult δ × Jitterbuf δ) := do
  let (frame, jb) ← queueGetall jb
  match frame with
  | none => return (.noframe, jb)
  | some frame => return (.ok frame, jb)

/-! ## New buffers -/

/-- Source: `jb_new`, `jb_reset` -/
def jbNew [Inhabited δ] : Jitterbuf δ where
  info :=
    { conf := ⟨0, 0, 0, jbTargetExtra⟩
      current := jbTargetExtra
      target := jbTargetExtra
      silenceBeginTs := -1 }
  history := fun _ => 0
  histPtr := 0
  histMaxbuf := List.replicate jbHistoryMaxbufSz 0
  histMinbuf := List.replicate jbHistoryMaxbufSz 0
  histMaxbufValid := false
  dropem := false
  store := ⟨none, none, fun _ => default, 0⟩

def jbSetconf (jb : Jitterbuf δ) (conf : JbConf) : Jitterbuf δ :=
  let extra := if conf.targetExtra = -1 then jbTargetExtra else conf.targetExtra
  { jb with info := { jb.info with conf := { conf with targetExtra := extra }, current := extra, target := extra } }

end Operations

end Telephony.Jitter.Adaptive
