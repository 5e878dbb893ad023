import Mathlib.Algebra.Order.Ring.Int
import Mathlib.Data.List.DropRight

/-!
# The fixed jitter buffer: data and operations

`main/fixedjitterbuf.c` keeps the received frames in a doubly linked list sorted by delivery time.
The list is modelled from head to tail. `long` is modelled by `ℤ` (signed overflow is undefined in
the source).

`fixed_jb_put`, `resynch_jb` and `fixed_jb_put_first` call one another. They are given by recursion
on the call depth, and `putAt_total` shows that four calls are always enough.
-/

namespace Telephony.Jitter

/-! ## Data model -/

/-- Source: `fixedjitterbuf.h` (`FIXED_JB_OK`, `FIXED_JB_DROP`, `FIXED_JB_INTERP`,
`FIXED_JB_NOFRAME`) -/
inductive JbCode
  | ok
  | drop
  | interp
  | noframe
  deriving DecidableEq, Repr

structure FixedJbConf where
  jbsize : ℤ
  resyncThreshold : ℤ
  deriving DecidableEq, Repr

/-- A configuration after the checks of `fixed_jb_new`: both values are at least one.
Source: `fixed_jb_new` ("validate the configuration") -/
structure ValidConf extends FixedJbConf where
  one_le_jbsize : 1 ≤ jbsize
  one_le_resyncThreshold : 1 ≤ resyncThreshold
  deriving DecidableEq, Repr

structure JbFrame (δ : Type) where
  data : δ
  ts : ℤ
  ms : ℤ
  delivery : ℤ
  deriving DecidableEq, Repr

structure FixedJb (δ : Type) where
  frames : List (JbFrame δ)
  conf : ValidConf
  rxcore : ℤ
  delay : ℤ
  one_le_delay : 1 ≤ delay
  nextDelivery : ℤ
  forceResynch : Bool
  deriving DecidableEq, Repr

variable {δ : Type}

/-- `FIXED_JB_SIZE_DEFAULT` and `FIXED_JB_RESYNCH_THRESHOLD_DEFAULT` replace values below one.
Source: `fixed_jb_new` -/
def FixedJbConf.validate (conf : FixedJbConf) : ValidConf where
  jbsize := if conf.jbsize < 1 then 200 else conf.jbsize
  resyncThreshold := if conf.resyncThreshold < 1 then 1000 else conf.resyncThreshold
  one_le_jbsize := by split_ifs <;> omega
  one_le_resyncThreshold := by split_ifs <;> omega

def fixedJbNew (conf : FixedJbConf) : FixedJb δ where
  frames := []
  conf := conf.validate
  rxcore := 0
  delay := conf.validate.jbsize
  one_le_delay := conf.validate.one_le_jbsize
  nextDelivery := 0
  forceResynch := false

/-! ## Putting frames -/

def FixedJb.deliveryOf (jb : FixedJb δ) (ts : ℤ) : ℤ := jb.rxcore + jb.delay + ts

/-- The frames up to and including the one the backward walk from the tail stops at.
Source: `fixed_jb_put` (`while (frame && frame->delivery > delivery) frame = frame->prev`) -/
def before (frames : List (JbFrame δ)) (delivery : ℤ) : List (JbFrame δ) :=
  frames.rdropWhile fun f => decide (delivery < f.delivery)

def after (frames : List (JbFrame δ)) (delivery : ℤ) : List (JbFrame δ) :=
  frames.rtakeWhile fun f => decide (delivery < f.delivery)

/-- The new delivery time is covered already by the chosen frame, or the new frame reaches into the
next one. There is no such check when the walk runs off the head of the list.
Source: `fixed_jb_put` ("Check if the new") -/
def covered (frames : List (JbFrame δ)) (delivery ms : ℤ) : Bool :=
  match (before frames delivery).getLast? with
  | none => false
  | some frame =>
    frame.delivery == delivery || decide (delivery < frame.delivery + frame.ms) ||
      (match (after frames delivery).head? with
        | none => false
        | some next => decide (next.delivery < delivery + ms))

/-- Insert the frame right on place and reset the force resynch flag.
Source: `fixed_jb_put` (from "Reset the force resynch flag") -/
def FixedJb.insertFrame (jb : FixedJb δ) (data : δ) (ms ts : ℤ) : FixedJb δ :=
  { jb with
    forceResynch := false
    frames := before jb.frames (jb.deliveryOf ts) ++
      ⟨data, ts, ms, jb.deliveryOf ts⟩ :: after jb.frames (jb.deliveryOf ts) }

/-- Apply an offset to the time base and to every queued timestamp.
Source: `resynch_jb` ("apply the offset to") -/
def FixedJb.rebase (jb : FixedJb δ) (offset : ℤ) : FixedJb δ :=
  { jb with
    forceResynch := false
    rxcore := jb.rxcore - offset
    frames := jb.frames.map fun f => { f with ts := f.ts + offset } }

/-- Source: `fixed_jb_put_first` -/
def FixedJb.restart (jb : FixedJb δ) (ts now : ℤ) : FixedJb δ :=
  { jb with rxcore := now - ts, nextDelivery := now + jb.delay }

mutual

/-- Source: `fixed_jb_put` -/
def putAt : ℕ → FixedJb δ → δ → ℤ → ℤ → ℤ → Option (JbCode × FixedJb δ)
  | 0, _, _, _, _, _ => none
  | depth + 1, jb, data, ms, ts, now =>
    let delivery := jb.deliveryOf ts
    -- too late, too far in the future, or covered: `resynch_jb` decides
    if delivery < jb.nextDelivery then resynchAt depth jb data ms ts now
    else if jb.nextDelivery + jb.delay + jb.conf.resyncThreshold < delivery then
      resynchAt depth jb data ms ts now
    else if covered jb.frames delivery ms then resynchAt depth jb data ms ts now
    else some (.ok, jb.insertFrame data ms ts)

/-- Source: `resynch_jb` -/
def resynchAt : ℕ → FixedJb δ → δ → ℤ → ℤ → ℤ → Option (JbCode × FixedJb δ)
  | 0, _, _, _, _, _ => none
  | depth + 1, jb, data, ms, ts, now =>
    match jb.frames.getLast? with
    | none => putFirstAt depth jb data ms ts now
    | some tail =>
      let offset := ts - tail.ts - tail.ms
      if jb.forceResynch = false ∧ offset < jb.conf.resyncThreshold ∧
          -jb.conf.resyncThreshold < offset then
        some (.drop, jb)
      else putAt depth (jb.rebase offset) data ms ts now

/-- Source: `fixed_jb_put_first` -/
def putFirstAt : ℕ → FixedJb δ → δ → ℤ → ℤ → ℤ → Option (JbCode × FixedJb δ)
  | 0, _, _, _, _, _ => none
  | depth + 1, jb, data, ms, ts, now => putAt depth (jb.restart ts now) data ms ts now

end

def FixedJb.Accepts (jb : FixedJb δ) (ms ts : ℤ) : Prop :=
  jb.nextDelivery ≤ jb.deliveryOf ts ∧
    jb.deliveryOf ts ≤ jb.nextDelivery + jb.delay + jb.conf.resyncThreshold ∧
    covered jb.frames (jb.deliveryOf ts) ms = false

instance decidableAccepts (jb : FixedJb δ) (ms ts : ℤ) : Decidable (jb.Accepts ms ts) :=
  inferInstanceAs (Decidable (_ ∧ _))

/-- Source: `fixed_jb_put`, `resynch_jb`, `fixed_jb_put_first`, as one call -/
inductive PutSpec (jb : FixedJb δ) (data : δ) (ms ts now : ℤ) : JbCode × FixedJb δ → Prop
  | insert (h : jb.Accepts ms ts) : PutSpec jb data ms ts now (.ok, jb.insertFrame data ms ts)
  | restart (he : jb.frames = []) :
      PutSpec jb data ms ts now (.ok, (jb.restart ts now).insertFrame data ms ts)
  | discard (hne : jb.frames ≠ []) : PutSpec jb data ms ts now (.drop, jb)
  | resynch (hne : jb.frames ≠ []) (offset : ℤ) (h : (jb.rebase offset).Accepts ms ts) :
      PutSpec jb data ms ts now (.ok, (jb.rebase offset).insertFrame data ms ts)
  | resynchDiscard (hne : jb.frames ≠ []) (offset : ℤ) :
      PutSpec jb data ms ts now (.drop, jb.rebase offset)

section

variable (depth : ℕ) (jb : FixedJb δ) (data : δ) (ms ts now : ℤ)

lemma putAt_succ : putAt (depth + 1) jb data ms ts now = if jb.Accepts ms ts then some (.ok, jb.insertFrame data ms ts)
      else resynchAt depth jb data ms ts now := by
  have hacc : jb.Accepts ms ts ↔ ¬jb.deliveryOf ts < jb.nextDelivery ∧
      ¬jb.nextDelivery + jb.delay + jb.conf.resyncThreshold < jb.deliveryOf ts ∧
      ¬covered jb.frames (jb.deliveryOf ts) ms := by
    simp [FixedJb.Accepts]
  simp only [putAt]
  split_ifs <;> simp_all

lemma putFirstAt_of_nil (he : jb.frames = []) :
    putFirstAt (depth + 2) jb data ms ts now = some (.ok, (jb.restart ts now).insertFrame data ms ts) := by
  have hd : (jb.restart ts now).deliveryOf ts = now + jb.delay := by
    simp only [FixedJb.deliveryOf, FixedJb.restart]
    omega
  have hcov : covered (jb.restart ts now).frames (now + jb.delay) ms = false := by
    simp [FixedJb.restart, he, covered, before]
  have hdelay := jb.one_le_delay
  have hthr := jb.conf.one_le_resyncThreshold
  simp only [putFirstAt, putAt, hd, hcov]
  rw [if_neg (by simp [FixedJb.restart]), if_neg (by simp only [FixedJb.restart]; omega)]
  simp

lemma resynchAt_rebase {tail : JbFrame δ} (ht : jb.frames.getLast? = some tail) :
    resynchAt (depth + 1) (jb.rebase (ts - tail.ts - tail.ms)) data ms ts now =
      some (.drop, jb.rebase (ts - tail.ts - tail.ms)) := by
  have hlast : (jb.rebase (ts - tail.ts - tail.ms)).frames.getLast? =
      some { tail with ts := tail.ts + (ts - tail.ts - tail.ms) } := by
    simp [FixedJb.rebase, ht]
  have hthr := (jb.rebase (ts - tail.ts - tail.ms)).conf.one_le_resyncThreshold
  simp only [resynchAt, hlast]
  rw [if_pos ⟨rfl, by omega, by omega⟩]

end

/-- What a put comes to when the calls of the three functions are followed.
Source: `fixed_jb_put`, `resynch_jb`, `fixed_jb_put_first` -/
def FixedJb.putResult (jb : FixedJb δ) (data : δ) (ms ts now : ℤ) : JbCode × FixedJb δ :=
  if jb.Accepts ms ts then (.ok, jb.insertFrame data ms ts)
  else
    match jb.frames.getLast? with
    | none => (.ok, (jb.restart ts now).insertFrame data ms ts)
    | some tail =>
      let offset := ts - tail.ts - tail.ms
      if jb.forceResynch = false ∧ offset < jb.conf.resyncThreshold ∧
          -jb.conf.resyncThreshold < offset then
        (.drop, jb)
      else if (jb.rebase offset).Accepts ms ts then (.ok, (jb.rebase offset).insertFrame data ms ts)
      else (.drop, jb.rebase offset)

lemma putAt_eq (depth : ℕ) (jb : FixedJb δ) (data : δ) (ms ts now : ℤ) :
    putAt (depth + 4) jb data ms ts now = some (jb.putResult data ms ts now) := by
  rw [putAt_succ, FixedJb.putResult]
  split_ifs with hacc
  · rfl
  rw [resynchAt]
  cases hlast : jb.frames.getLast? with
  | none => exact putFirstAt_of_nil depth jb data ms ts now (List.getLast?_eq_none_iff.mp hlast)
  | some tail =>
    dsimp only
    rw [putAt_succ, resynchAt_rebase depth jb data ms ts now hlast]
    split_ifs <;> rfl

lemma putAt_total (jb : FixedJb δ) (data : δ) (ms ts now : ℤ) : (putAt 4 jb data ms ts now).isSome := by
  rw [putAt_eq 0]
  rfl

def fixedJbPut (jb : FixedJb δ) (data : δ) (ms ts now : ℤ) : JbCode × FixedJb δ :=
  (putAt 4 jb data ms ts now).get (putAt_total jb data ms ts now)

def fixedJbPutFirst (jb : FixedJb δ) (data : δ) (ms ts now : ℤ) : JbCode × FixedJb δ :=
  fixedJbPut (jb.restart ts now) data ms ts now

section

variable (jb : FixedJb δ) (data : δ) (ms ts now : ℤ)

lemma fixedJbPut_eq : fixedJbPut jb data ms ts now = jb.putResult data ms ts now := by
  simp [fixedJbPut, putAt_eq 0]

lemma fixedJbPut_spec : PutSpec jb data ms ts now (fixedJbPut jb data ms ts now) := by
  rw [fixedJbPut_eq, FixedJb.putResult]
  split_ifs with hacc
  · exact .insert hacc
  cases hlast : jb.frames.getLast? with
  | none => exact .restart (List.getLast?_eq_none_iff.mp hlast)
  | some tail =>
    have hne : jb.frames ≠ [] := List.ne_nil_of_mem (List.mem_of_getLast? hlast)
    dsimp only
    split_ifs with hsml hacc'
    · exact .discard hne
    · exact .resynch hne _ hacc'
    · exact .resynchDiscard hne _

end

/-! ## Taking frames out -/

def getJbHead (jb : FixedJb δ) (head : JbFrame δ) (rest : List (JbFrame δ)) : FixedJb δ :=
  { jb with frames := rest, nextDelivery := head.delivery + head.ms }

/-- Ask for a frame at time `now`; `interpl` is the length of an interpolated frame. -/
def fixedJbGet (jb : FixedJb δ) (now interpl : ℤ) : JbCode × Option (JbFrame δ) × FixedJb δ :=
  if now < jb.nextDelivery then (.noframe, none, jb)
  else
    match jb.frames with
    | [] => (.interp, none, { jb with nextDelivery := jb.nextDelivery + interpl })
    | head :: rest =>
      if head.delivery + head.ms < now then (.drop, some head, getJbHead jb head rest)
      else if now < head.delivery then
        (.interp, none, { jb with nextDelivery := jb.nextDelivery + interpl })
      else (.ok, some head, getJbHead jb head rest)

def fixedJbRemove (jb : FixedJb δ) : JbCode × Option (JbFrame δ) × FixedJb δ :=
  match jb.frames with
  | [] => (.noframe, none, jb)
  | head :: rest => (.ok, some head, getJbHead jb head rest)

def fixedJbSetForceResynch (jb : FixedJb δ) : FixedJb δ := { jb with forceResynch := true }

lemma fixedJbGet_cases (jb : FixedJb δ) (now interpl : ℤ) :
    (fixedJbGet jb now interpl = (.noframe, none, jb)) ∨
    (fixedJbGet jb now interpl =
      (.interp, none, { jb with nextDelivery := jb.nextDelivery + interpl })) ∨
    (∃ code head rest, jb.frames = head :: rest ∧ (code = .ok ∨ code = .drop) ∧
      (head.ms < 0 ∨ head.delivery ≤ now) ∧
      fixedJbGet jb now interpl = (code, some head, getJbHead jb head rest)) := by
  unfold fixedJbGet
  by_cases hearly : now < jb.nextDelivery
  · exact .inl (by rw [if_pos hearly])
  rw [if_neg hearly]
  rcases hf : jb.frames with _ | ⟨head, rest⟩
  · exact .inr (.inl rfl)
  simp only
  split_ifs with hlate hsoon
  · exact .inr (.inr ⟨.drop, head, rest, rfl, .inr rfl, by omega, rfl⟩)
  · exact .inr (.inl rfl)
  · exact .inr (.inr ⟨.ok, head, rest, rfl, .inl rfl, by omega, rfl⟩)

end Telephony.Jitter
