import Mathlib.Data.List.Chain
import Telephony.Jitter.FixedRuns

/-!
# The fixed jitter buffer: overlaps and resynchronisation

A frame that goes in front of all others is not compared with the head. And when `resynch_jb` has
moved the time base, the frame it puts again can still be too late or too early.
-/

namespace Telephony.Jitter

open List

variable {δ : Type} {jb : FixedJb δ} {data : δ} {ms ts now : ℤ}

/-! ## Overlaps -/

/-- Each frame ends before the next one starts. -/
def NoOverlap (frames : List (JbFrame δ)) : Prop := frames.IsChain fun f g => f.delivery + f.ms ≤ g.delivery

/-- If the frame is accepted, and goes in front of the head, it ends before the head starts. -/
def FixedJb.Clears (jb : FixedJb δ) (ms ts : ℤ) : Prop :=
  jb.Accepts ms ts →
    ∀ head ∈ jb.frames.head?, jb.deliveryOf ts < head.delivery → jb.deliveryOf ts + ms ≤ head.delivery

/-- The same for a put, which may be made again on the rebased buffer. -/
def FixedJb.PutClears (jb : FixedJb δ) (ms ts : ℤ) : Prop :=
  jb.Clears ms ts ∧ (¬jb.Accepts ms ts →
    ∀ tail ∈ jb.frames.getLast?, (jb.rebase (ts - tail.ts - tail.ms)).Clears ms ts)

def JbOp.ClearsHead (jb : FixedJb δ) : JbOp δ → Prop
  | .putFirst _ ms ts now => (jb.restart ts now).PutClears ms ts
  | .put _ ms ts _ => jb.PutClears ms ts
  | _ => True

def ClearRun : FixedJb δ → List (JbOp δ) → Prop
  | _, [] => True
  | jb, op :: ops => op.ClearsHead jb ∧ ClearRun (stepJb jb op).2 ops

section

variable (h : NoOverlap jb.frames)
include h

lemma noOverlap_insertFrame (hacc : jb.Accepts ms ts) (hclr : jb.Clears ms ts) :
    NoOverlap (jb.insertFrame data ms ts).frames := by
  have hcov := hacc.2.2
  rw [NoOverlap, ← before_append_after jb.frames (jb.deliveryOf ts), isChain_append] at h
  obtain ⟨hbef, haft, -⟩ := h
  refine isChain_append.mpr ⟨hbef, isChain_cons.mpr ⟨fun g hg => ?_, haft⟩, fun f hf g hg => ?_⟩
  · cases hlast : (before jb.frames (jb.deliveryOf ts)).getLast? with
    | none =>
      have hall : after jb.frames (jb.deliveryOf ts) = jb.frames := by
        conv_rhs => rw [← before_append_after jb.frames (jb.deliveryOf ts), getLast?_eq_none_iff.mp hlast, nil_append]
      exact hclr hacc g (hall ▸ hg) (lt_of_mem_after (mem_of_mem_head? hg))
    | some f =>
      simp only [covered, hlast, Option.mem_def.mp hg, Bool.or_eq_false_iff, decide_eq_false_iff_not] at hcov
      exact not_lt.mp hcov.2
  · simp only [covered, Option.mem_def.mp hf, Bool.or_eq_false_iff, decide_eq_false_iff_not] at hcov
    obtain rfl : _ = g := Option.some.inj hg
    exact not_lt.mp hcov.1.2

lemma noOverlap_rebase (offset : ℤ) : NoOverlap (jb.rebase offset).frames :=
  (isChain_map _).mpr h

lemma noOverlap_put (hclr : jb.PutClears ms ts) : NoOverlap (fixedJbPut jb data ms ts now).2.frames := by
  rw [fixedJbPut_eq, FixedJb.putResult]
  split_ifs with hacc
  · exact noOverlap_insertFrame h hacc hclr.1
  cases hlast : jb.frames.getLast? with
  | none =>
    have he := getLast?_eq_none_iff.mp hlast
    simp [NoOverlap, FixedJb.insertFrame, FixedJb.restart, he, before, after]
  | some tail =>
    dsimp only
    split_ifs with hsml hacc'
    · exact h
    · exact noOverlap_insertFrame (noOverlap_rebase h _) hacc' (hclr.2 hacc tail hlast)
    · exact noOverlap_rebase h _

lemma noOverlap_step (op : JbOp δ) (hclr : op.ClearsHead jb) : NoOverlap (stepJb jb op).2.frames := by
  cases op with
  | putFirst data ms ts now | put data ms ts now => exact noOverlap_put h hclr
  | get now interpl =>
    simp only [stepJb]
    rcases fixedJbGet_cases jb now interpl with heq | heq | ⟨code, head, rest, hf, -, -, heq⟩
    · rwa [heq]
    · rwa [heq]
    · rw [heq]
      exact (hf ▸ h : NoOverlap (head :: rest)).tail
  | remove =>
    simp only [stepJb, fixedJbRemove]
    cases hf : jb.frames with
    | nil => simp [NoOverlap, hf]
    | cons head rest => exact (hf ▸ h : NoOverlap (head :: rest)).tail
  | setForceResynch => exact h

end

/-- **No overlaps** in every state a run reaches, as long as no accepted frame that goes in front of
the head reaches into it. Induction on the calls. -/
theorem fixedJb_noOverlap (h : NoOverlap jb.frames) (ops : List (JbOp δ)) (hclear : ClearRun jb ops) :
    NoOverlap (runJb jb ops).2.frames := by
  induction ops generalizing jb with
  | nil => exact h
  | cons op ops ih => exact ih (noOverlap_step h op hclear.1) hclear.2

/-- A frame that fits in front of the head. -/
theorem fixedJb_noOverlap_in_front :
    NoOverlap (runJb (runJb (fixedJbNew ⟨100, 40⟩) [.putFirst 'a' 20 0 0, .get 100 20,
      .put 'b' 20 50 100]).2 [.put 'c' 20 30 100]).2.frames :=
  fixedJb_noOverlap (by exact isChain_singleton _) _
    ⟨⟨fun _ head hhead _ => by cases hhead; decide, fun hacc => absurd (by decide) hacc⟩, trivial⟩

/-- The frame at 140 lasts until 160 and is put in front of the one at 150. -/
theorem overlap_in_front :
    ((runJb (fixedJbNew ⟨100, 40⟩) [.putFirst 'a' 20 0 0, .get 100 20, .put 'b' 20 50 100,
      .put 'c' 20 40 100]).2.frames.map fun f => (f.delivery, f.ms)) = [(140, 20), (150, 20)] := by
  decide

/-! ## Resynchronisation -/

variable {tail f : JbFrame δ}

lemma before_of_getLast? {frames : List (JbFrame δ)} {delivery : ℤ} (hlast : frames.getLast? = some tail)
    (hle : tail.delivery ≤ delivery) : before frames delivery = frames ∧ after frames delivery = [] := by
  obtain ⟨init, rfl⟩ := getLast?_eq_some_iff.mp hlast
  have hnot : ¬decide (delivery < tail.delivery) := by simpa using hle
  exact ⟨rdropWhile_concat_neg _ _ _ hnot, rtakeWhile_concat_neg _ _ _ hnot⟩

/-- A last frame that does not start with the old tail is the new one. -/
lemma deliveryOf_of_getLast? (hlast : jb.frames.getLast? = some tail)
    (hnew : (jb.insertFrame data ms ts).frames.getLast? = some f) (hne : tail.delivery ≠ f.delivery) :
    jb.deliveryOf ts = f.delivery := by
  cases haft : after jb.frames (jb.deliveryOf ts) with
  | nil =>
    rw [FixedJb.insertFrame, haft, getLast?_concat] at hnew
    exact congrArg JbFrame.delivery (Option.some.inj hnew)
  | cons g rest =>
    rw [← before_append_after jb.frames (jb.deliveryOf ts), haft, getLast?_append_cons] at hlast
    rw [FixedJb.insertFrame, haft, getLast?_append_cons, getLast?_cons_cons, hlast] at hnew
    exact absurd (congrArg JbFrame.delivery (Option.some.inj hnew)) hne

/-- **A put that moves the time base** ends after one more put, however deep the calls may go, and
it queues the frame right behind the old tail exactly when the tail still has the delivery time of
the time base, its end is not behind the next delivery, and it is not too far in the future. -/
theorem fixedJbPut_resynch_iff (htail : jb.frames.getLast? = some tail) (hms : 2 ≤ tail.ms)
    (hacc : ¬jb.Accepts ms ts)
    (hresynch : jb.forceResynch = true ∨ jb.conf.resyncThreshold ≤ |ts - tail.ts - tail.ms|) :
    (∀ depth, putAt (depth + 4) jb data ms ts now = some (fixedJbPut jb data ms ts now)) ∧
      ((fixedJbPut jb data ms ts now).1 = .ok ∧
          (fixedJbPut jb data ms ts now).2.frames.getLast? = some ⟨data, ts, ms, tail.delivery + tail.ms⟩ ↔
        tail.delivery = jb.deliveryOf tail.ts ∧ jb.nextDelivery ≤ tail.delivery + tail.ms ∧
          tail.delivery + tail.ms ≤ jb.nextDelivery + jb.delay + jb.conf.resyncThreshold) := by
  refine ⟨fun depth => by rw [fixedJbPut_eq, putAt_eq depth], ?_⟩
  have hbig : ¬(jb.forceResynch = false ∧ ts - tail.ts - tail.ms < jb.conf.resyncThreshold ∧
      -jb.conf.resyncThreshold < ts - tail.ts - tail.ms) := by
    rintro ⟨hforce, hlt, hgt⟩
    rcases hresynch with hforce' | habs
    · simp [hforce] at hforce'
    · exact absurd (abs_lt.mpr ⟨hgt, hlt⟩) (not_lt.mpr habs)
  rw [fixedJbPut_eq, FixedJb.putResult, if_neg hacc, htail]
  dsimp only
  rw [if_neg hbig]
  set jb' := jb.rebase (ts - tail.ts - tail.ms) with hjb'
  have hdelivery : jb'.deliveryOf ts = jb.deliveryOf tail.ts + tail.ms := by
    simp only [hjb', FixedJb.deliveryOf, FixedJb.rebase]
    omega
  have hlast : jb'.frames.getLast? = some { tail with ts := tail.ts + (ts - tail.ts - tail.ms) } := by
    simp [hjb', FixedJb.rebase, htail]
  constructor
  · intro hput
    split_ifs at hput with hacc'
    · have hd : jb'.deliveryOf ts = tail.delivery + tail.ms :=
        deliveryOf_of_getLast? hlast hput.2 (by simp only; omega)
      obtain ⟨hnext, hfar, -⟩ := hacc'
      exact ⟨by omega, hd ▸ hnext, hd ▸ hfar⟩
    · exact absurd hput.1 (by simp)
  · rintro ⟨heq, hnext, hfar⟩
    have hd : jb'.deliveryOf ts = tail.delivery + tail.ms := by omega
    obtain ⟨hbef, haft⟩ := @before_of_getLast? _ _ _ (jb'.deliveryOf ts) hlast (by simp only; omega)
    have hcov : covered jb'.frames (jb'.deliveryOf ts) ms = false := by
      simp only [covered, hbef, haft, hlast, head?_nil, Bool.or_false, Bool.or_eq_false_iff,
        decide_eq_false_iff_not, beq_eq_false_iff_ne]
      omega
    rw [if_pos ⟨hd ▸ hnext, hd ▸ hfar, hcov⟩, FixedJb.insertFrame, haft, getLast?_concat, hd]
    exact ⟨rfl, rfl⟩

/-- A forced resynchronisation that succeeds. -/
theorem fixedJbPut_resynch_iff_forced :
    (fixedJbPut (runJb (fixedJbNew ⟨100, 40⟩) [.putFirst 'a' 20 0 0, .setForceResynch]).2 'b' 20 1000 0).1 = .ok :=
  ((@fixedJbPut_resynch_iff _ _ _ _ _ _ ⟨'a', 0, 20, 100⟩ (by decide) (by decide) (by decide)
    (.inl (by decide))).2.mpr (by decide)).1

/-- The tail ends at 260, more than the delay and the threshold after the next delivery at 100: the
frame is dropped. -/
theorem resynch_drops :
    (runJb (fixedJbNew ⟨100, 40⟩) [.putFirst 'a' 20 0 0, .put 'b' 20 140 0, .setForceResynch,
      .put 'c' 20 1000 0]).1.map JbEvent.code = [.ok, .ok, .ok, .drop] := by
  decide

end Telephony.Jitter
