import Mathlib.Data.List.Perm.Basic
import Mathlib.Data.List.Nodup
import Telephony.Jitter.Fixed

/-!
# Runs of the fixed jitter buffer: order and conservation

`Legal` is the use the callers make of the buffer: frames of at least two milliseconds, a clock that
does not go back, and `fixed_jb_put_first` only on the empty buffer. The log of a run records the
return code and the frame of every operation.
-/

namespace Telephony.Jitter

open List

open scoped List

variable {α δ : Type}

/-! ## Operations, logs and runs -/

/-- Source: `fixedjitterbuf.h` (the jb interface) -/
inductive JbOp (δ : Type)
  | putFirst (data : δ) (ms ts now : ℤ)
  | put (data : δ) (ms ts now : ℤ)
  | get (now interpl : ℤ)
  | remove
  | setForceResynch
  deriving DecidableEq, Repr

/-- One entry of the log: the data the call put in, its return code, and the frame it gave out. -/
structure JbEvent (δ : Type) where
  put : Option δ
  isGet : Bool
  code : JbCode
  frame : Option (JbFrame δ)
  deriving DecidableEq, Repr

/-- Source: `fixed_jb_put_first`, `fixed_jb_put`, `fixed_jb_get`, `fixed_jb_remove`,
`fixed_jb_set_force_resynch` -/
def stepJb (jb : FixedJb δ) : JbOp δ → JbEvent δ × FixedJb δ
  | .putFirst data ms ts now =>
    let r := fixedJbPutFirst jb data ms ts now
    (⟨some data, false, r.1, none⟩, r.2)
  | .put data ms ts now =>
    let r := fixedJbPut jb data ms ts now
    (⟨some data, false, r.1, none⟩, r.2)
  | .get now interpl =>
    let r := fixedJbGet jb now interpl
    (⟨none, true, r.1, r.2.1⟩, r.2.2)
  | .remove =>
    let r := fixedJbRemove jb
    (⟨none, false, r.1, r.2.1⟩, r.2.2)
  | .setForceResynch => (⟨none, false, .ok, none⟩, fixedJbSetForceResynch jb)

def runJb : FixedJb δ → List (JbOp δ) → List (JbEvent δ) × FixedJb δ
  | jb, [] => ([], jb)
  | jb, op :: ops =>
    let e := stepJb jb op
    let r := runJb e.2 ops
    (e.1 :: r.1, r.2)

def JbOp.clock (clock : ℤ) : JbOp δ → ℤ
  | .putFirst _ _ _ now => now
  | .put _ _ _ now => now
  | .get now _ => now
  | .remove => clock
  | .setForceResynch => clock

/-- What the callers promise for one call; the bounds on `ms` and `interpl` are the assertions of
`fixed_jb_put` and `fixed_jb_get`. -/
def LegalOp (clock : ℤ) (jb : FixedJb δ) : JbOp δ → Prop
  | .putFirst _ ms _ now => jb.frames = [] ∧ 2 ≤ ms ∧ clock ≤ now
  | .put _ ms _ now => 2 ≤ ms ∧ clock ≤ now
  | .get now interpl => 2 ≤ interpl ∧ clock ≤ now
  | .remove => True
  | .setForceResynch => True

def Legal : ℤ → FixedJb δ → List (JbOp δ) → Prop
  | _, _, [] => True
  | clock, jb, op :: ops => LegalOp clock jb op ∧ Legal (op.clock clock) (stepJb jb op).2 ops

instance decidableLegalOp (clock : ℤ) (jb : FixedJb δ) : (op : JbOp δ) → Decidable (LegalOp clock jb op)
  | .putFirst _ ms _ now =>
    haveI : Decidable (jb.frames = []) := decidable_of_iff _ isEmpty_iff
    inferInstanceAs (Decidable (jb.frames = [] ∧ 2 ≤ ms ∧ clock ≤ now))
  | .put _ ms _ now => inferInstanceAs (Decidable (2 ≤ ms ∧ clock ≤ now))
  | .get now interpl => inferInstanceAs (Decidable (2 ≤ interpl ∧ clock ≤ now))
  | .remove => isTrue trivial
  | .setForceResynch => isTrue trivial

instance decidableLegal : (clock : ℤ) → (jb : FixedJb δ) → (ops : List (JbOp δ)) →
    Decidable (Legal clock jb ops)
  | _, _, [] => isTrue trivial
  | clock, jb, op :: ops =>
    haveI := decidableLegal (op.clock clock) (stepJb jb op).2 ops
    inferInstanceAs (Decidable (LegalOp clock jb op ∧ Legal (op.clock clock) (stepJb jb op).2 ops))

def accepted (log : List (JbEvent δ)) : List δ :=
  log.flatMap fun e => if e.code = .ok then e.put.toList else []

def discarded (log : List (JbEvent δ)) : List δ :=
  log.flatMap fun e => if e.code = .drop then e.put.toList else []

/-- The frames given out by gets and removes with `FIXED_JB_OK` or `FIXED_JB_DROP`. -/
def returned (log : List (JbEvent δ)) : List (JbFrame δ) :=
  log.flatMap fun e => if e.code = .ok ∨ e.code = .drop then e.frame.toList else []

def gotten (log : List (JbEvent δ)) : List (JbFrame δ) :=
  log.flatMap fun e => if e.isGet then e.frame.toList else []

/-! ## Inserting into the queue -/

@[simp] lemma before_append_after (frames : List (JbFrame δ)) (delivery : ℤ) :
    before frames delivery ++ after frames delivery = frames :=
  rdropWhile_append_rtakeWhile

variable {frames : List (JbFrame δ)} {delivery ms ts : ℤ} {f : JbFrame δ} {jb : FixedJb δ} {data : δ}

lemma lt_of_mem_after (hf : f ∈ after frames delivery) : delivery < f.delivery := by
  have := mem_rtakeWhile_imp hf
  simpa using this

lemma lt_of_mem_before (hsrt : frames.Pairwise fun f g => f.delivery < g.delivery)
    (hcov : covered frames delivery ms = false) (hf : f ∈ before frames delivery) :
    f.delivery < delivery := by
  have hne : before frames delivery ≠ [] := ne_nil_of_mem hf
  have hlast : ¬ delivery < ((before frames delivery).getLast hne).delivery := by
    have h := rdropWhile_last_not (fun f : JbFrame δ => decide (delivery < f.delivery)) frames hne
    exact fun hlt => h (decide_eq_true hlt)
  have hneq : ((before frames delivery).getLast hne).delivery ≠ delivery := by
    intro heq
    simp [covered, getLast?_eq_some_getLast hne, heq] at hcov
  have hle : f.delivery ≤ ((before frames delivery).getLast hne).delivery := by
    have hp : (before frames delivery).Pairwise fun f g => f.delivery < g.delivery :=
      hsrt.sublist ( rdropWhile_prefix _ _).sublist
    rw [← dropLast_append_getLast hne] at hp hf
    rcases mem_append.mp hf with h | h
    · exact le_of_lt ((pairwise_append.mp hp).2.2 f h _ (mem_singleton_self _))
    · exact le_of_eq (by rw [mem_singleton.mp h])
  omega

lemma pairwise_insertFrame (hsrt : jb.frames.Pairwise fun f g => f.delivery < g.delivery)
    (hacc : jb.Accepts ms ts) :
    (jb.insertFrame data ms ts).frames.Pairwise fun f g => f.delivery < g.delivery := by
  have hspl := hsrt
  rw [← before_append_after jb.frames (jb.deliveryOf ts), pairwise_append] at hspl
  obtain ⟨hb, ha, hba⟩ := hspl
  simp only [FixedJb.insertFrame]
  rw [pairwise_append, pairwise_cons]
  refine ⟨hb, ⟨fun g hg => lt_of_mem_after hg, ha⟩, ?_⟩
  intro f hf g hg
  rcases mem_cons.mp hg with rfl | hg
  · exact lt_of_mem_before hsrt hacc.2.2 hf
  · exact hba f hf g hg

lemma mem_insertFrame :
    f ∈ (jb.insertFrame data ms ts).frames ↔ f = ⟨data, ts, ms, jb.deliveryOf ts⟩ ∨ f ∈ jb.frames := by
  conv_rhs => rw [← before_append_after jb.frames (jb.deliveryOf ts)]
  simp only [FixedJb.insertFrame, mem_append, mem_cons]
  tauto

/-! ## The invariant -/

/-- The frames that were gotten and those in the queue are one increasing list, and the gotten ones
are before the clock and before what is to be delivered next. -/
structure JbInv (clock : ℤ) (got : List (JbFrame δ)) (jb : FixedJb δ) : Prop where
  sorted : (got ++ jb.frames).Pairwise fun f g => f.delivery < g.delivery
  frames : ∀ f ∈ jb.frames, 2 ≤ f.ms ∧ f.delivery = jb.rxcore + jb.delay + f.ts
  got_le_clock : ∀ g ∈ got, g.delivery ≤ clock
  got_lt_next : ∀ g ∈ got, g.delivery < jb.nextDelivery

section inv

variable {clock now interpl : ℤ} {got : List (JbFrame δ)} {jb : FixedJb δ} {data : δ} {ms ts : ℤ}

lemma JbInv.rebase (h : JbInv clock got jb) (offset : ℤ) : JbInv clock got (jb.rebase offset) where
  sorted := by
    simpa [FixedJb.rebase, pairwise_append, pairwise_map] using pairwise_append.mp h.sorted
  frames := by
    intro f hf
    simp only [FixedJb.rebase, mem_map] at hf ⊢
    obtain ⟨g, hg, rfl⟩ := hf
    obtain ⟨hms, hdel⟩ := h.frames g hg
    exact ⟨hms, by simp only; omega⟩
  __ := h

lemma accepts_restart (he : jb.frames = []) : (jb.restart ts now).Accepts ms ts := by
  have hdelay := jb.one_le_delay
  have hthr := jb.conf.one_le_resyncThreshold
  refine ⟨?_, ?_, ?_⟩
  · simp only [FixedJb.deliveryOf, FixedJb.restart]
    omega
  · simp only [FixedJb.deliveryOf, FixedJb.restart]
    omega
  · simp [FixedJb.restart, he, covered, before]

section

variable (h : JbInv clock got jb)
include h

lemma JbInv.insertFrame (hms : 2 ≤ ms) (hacc : jb.Accepts ms ts) : JbInv clock got (jb.insertFrame data ms ts) where
  sorted := by
    obtain ⟨hgot, hsrt, hlt⟩ := pairwise_append.mp h.sorted
    refine pairwise_append.mpr ⟨hgot, pairwise_insertFrame hsrt hacc, fun g hg f hf => ?_⟩
    rcases mem_insertFrame.mp hf with rfl | hf
    · exact lt_of_lt_of_le (h.got_lt_next g hg) hacc.1
    · exact hlt g hg f hf
  frames := by
    intro f hf
    rcases mem_insertFrame.mp hf with rfl | hf
    · exact ⟨hms, rfl⟩
    · exact h.frames f hf
  __ := h

lemma JbInv.restart (hnow : clock ≤ now) (he : jb.frames = []) : JbInv now got (jb.restart ts now) where
  sorted := h.sorted
  frames := by simp [FixedJb.restart, he]
  got_le_clock := fun g hg => (h.got_le_clock g hg).trans hnow
  got_lt_next := by
    intro g hg
    have hdelay := jb.one_le_delay
    have := h.got_le_clock g hg
    simp only [FixedJb.restart]
    omega

lemma JbInv.mono (hnow : clock ≤ now) : JbInv now got jb :=
  { h with got_le_clock := fun g hg => (h.got_le_clock g hg).trans hnow }

lemma JbInv.put (hms : 2 ≤ ms) (hnow : clock ≤ now) : JbInv now got (fixedJbPut jb data ms ts now).2 := by
  have hspec := fixedJbPut_spec jb data ms ts now
  have h' := h.mono hnow
  generalize fixedJbPut jb data ms ts now = r at hspec ⊢
  cases hspec with
  | insert hacc => exact h'.insertFrame hms hacc
  | restart he => exact (h.restart hnow he).insertFrame hms (accepts_restart he)
  | discard hne => exact h'
  | resynch hne offset hacc => exact (h'.rebase offset).insertFrame hms hacc
  | resynchDiscard hne offset => exact h'.rebase offset

end

variable {head : JbFrame δ} {rest : List (JbFrame δ)}

lemma JbInv.head_lt_next (h : JbInv clock got jb) (hf : jb.frames = head :: rest) :
    head.delivery < (getJbHead jb head rest).nextDelivery := by
  have hms := (h.frames head (by simp [hf])).1
  simp only [Jitter.getJbHead]
  omega

lemma JbInv.getJbHead (h : JbInv clock got jb) (hf : jb.frames = head :: rest) :
    JbInv clock got (getJbHead jb head rest) where
  sorted := (hf ▸ h.sorted).sublist ((sublist_cons_self head rest).append_left got)
  frames := fun f hfr => h.frames f (hf ▸ mem_cons_of_mem _ hfr)
  __ := h
  got_lt_next := by
    intro g hg
    have hlt := (pairwise_append.mp h.sorted).2.2 g hg head (by simp [hf])
    exact hlt.trans (h.head_lt_next hf)

lemma JbInv.interpolate (h : JbInv clock got jb) (hi : 2 ≤ interpl) :
    JbInv clock got { jb with nextDelivery := jb.nextDelivery + interpl } :=
  { h with
    got_lt_next := fun g hg => by
      have := h.got_lt_next g hg
      simp only
      omega }

lemma JbInv.get_head (h : JbInv clock got jb) (hf : jb.frames = head :: rest) (hdue : head.delivery ≤ clock) :
    JbInv clock (got ++ [head]) (Jitter.getJbHead jb head rest) := by
  have hr := h.getJbHead hf
  have hsrt := hf ▸ h.sorted
  refine ⟨?_, hr.frames, ?_, ?_⟩
  · rwa [append_assoc]
  · exact forall_mem_append.mpr ⟨h.got_le_clock, forall_mem_singleton.mpr hdue⟩
  · exact forall_mem_append.mpr ⟨hr.got_lt_next, forall_mem_singleton.mpr (h.head_lt_next hf)⟩

lemma JbInv.step (h : JbInv clock got jb) (op : JbOp δ) (hleg : LegalOp clock jb op) :
    JbInv (op.clock clock) (got ++ gotten [(stepJb jb op).1]) (stepJb jb op).2 := by
  cases op with
  | putFirst data ms ts now =>
    obtain ⟨he, hms, hnow⟩ := hleg
    simpa [gotten, stepJb, fixedJbPutFirst, JbOp.clock] using (h.restart hnow he).put hms le_rfl
  | put data ms ts now =>
    obtain ⟨hms, hnow⟩ := hleg
    simpa [gotten, stepJb, JbOp.clock] using h.put hms hnow
  | get now interpl =>
    obtain ⟨hi, hnow⟩ := hleg
    have h' : JbInv now got jb := h.mono hnow
    simp only [JbOp.clock, gotten, stepJb]
    rcases fixedJbGet_cases jb now interpl with heq | heq | ⟨code, head, rest, hf, -, hdue, heq⟩
    · simpa [heq] using h'
    · simpa [heq] using h'.interpolate hi
    · have hms := (h.frames head (by simp [hf])).1
      simpa [heq] using h'.get_head hf (by omega)
  | remove =>
    simp only [JbOp.clock, gotten, stepJb, fixedJbRemove]
    rcases hf : jb.frames with _ | ⟨head, rest⟩
    · simpa using h
    · simpa using h.getJbHead hf
  | setForceResynch =>
    have h' : JbInv clock got (fixedJbSetForceResynch jb) := { h with }
    simpa [gotten, stepJb, JbOp.clock] using h'

def endClock : ℤ → List (JbOp δ) → ℤ
  | clock, [] => clock
  | clock, op :: ops => endClock (op.clock clock) ops

/-- **A legal run keeps the invariant.** Induction on the calls, with the returned frames so far
carried along. -/
lemma JbInv.run (h : JbInv clock got jb) (ops : List (JbOp δ)) (hleg : Legal clock jb ops) :
    JbInv (endClock clock ops) (got ++ gotten (runJb jb ops).1) (runJb jb ops).2 := by
  induction ops generalizing clock got jb with
  | nil => simpa [runJb, gotten, endClock] using h
  | cons op ops ih =>
    have hrun := ih (h.step op hleg.1) hleg.2
    simpa [runJb, gotten, endClock] using hrun

end inv

lemma jbInv_new (conf : FixedJbConf) (clock : ℤ) : JbInv clock [] (fixedJbNew conf : FixedJb δ) := by
  constructor <;> simp [fixedJbNew]

/-! ## Conservation -/

def FixedJb.queued (jb : FixedJb δ) : List δ := jb.frames.map JbFrame.data

section

variable (jb : FixedJb δ)

lemma queued_insertFrame (data : δ) (ms ts : ℤ) : (jb.insertFrame data ms ts).queued ~ data :: jb.queued := by
  have hspl : jb.queued = (before jb.frames (jb.deliveryOf ts)).map JbFrame.data ++
      (after jb.frames (jb.deliveryOf ts)).map JbFrame.data := by
    rw [← map_append, before_append_after, FixedJb.queued]
  rw [hspl]
  simp only [FixedJb.queued, FixedJb.insertFrame, map_append]
  exact perm_middle

@[simp] lemma queued_rebase (offset : ℤ) : (jb.rebase offset).queued = jb.queued := by
  simp [FixedJb.queued, FixedJb.rebase]

lemma fixedJbPut_queued (data : δ) (ms ts now : ℤ) : ((fixedJbPut jb data ms ts now).1 = .ok ∧
        (fixedJbPut jb data ms ts now).2.queued ~ data :: jb.queued) ∨
      ((fixedJbPut jb data ms ts now).1 = .drop ∧ (fixedJbPut jb data ms ts now).2.queued = jb.queued) := by
  have hspec := fixedJbPut_spec jb data ms ts now
  generalize fixedJbPut jb data ms ts now = r at hspec ⊢
  cases hspec with
  | insert hacc => exact .inl ⟨rfl, queued_insertFrame jb data ms ts⟩
  | restart he => exact .inl ⟨rfl, queued_insertFrame (jb.restart ts now) data ms ts⟩
  | discard hne => exact .inr ⟨rfl, rfl⟩
  | resynch hne offset hacc =>
    simpa using queued_insertFrame (jb.rebase offset) data ms ts
  | resynchDiscard hne offset => exact .inr ⟨rfl, queued_rebase jb offset⟩

lemma stepJb_perm (op : JbOp δ) : accepted [(stepJb jb op).1] ++ jb.queued ~
      (returned [(stepJb jb op).1]).map JbFrame.data ++ (stepJb jb op).2.queued := by
  have hput : ∀ (jb' : FixedJb δ) (data : δ) (ms ts now : ℤ), jb'.queued = jb.queued →
      (if (fixedJbPut jb' data ms ts now).1 = .ok then [data] else []) ++ jb.queued ~
        (fixedJbPut jb' data ms ts now).2.queued := by
    intro jb' data ms ts now hq
    rcases fixedJbPut_queued jb' data ms ts now with ⟨hcode, hperm⟩ | ⟨hcode, heq⟩
    · simpa [hcode, ← hq] using hperm.symm
    · simp [hcode, heq, hq]
  cases op with
  | putFirst data ms ts now =>
    simpa [accepted, returned, stepJb, fixedJbPutFirst] using hput (jb.restart ts now) data ms ts now rfl
  | put data ms ts now =>
    simpa [accepted, returned, stepJb] using hput jb data ms ts now rfl
  | get now interpl =>
    rcases fixedJbGet_cases jb now interpl with heq | heq | ⟨code, head, rest, hf, hcode, -, heq⟩
    · simp [accepted, returned, stepJb, heq]
    · simp [accepted, returned, stepJb, heq, FixedJb.queued]
    · simp [accepted, returned, stepJb, heq, hcode, FixedJb.queued, hf, getJbHead]
  | remove =>
    rcases hf : jb.frames with _ | ⟨head, rest⟩
    · simp [accepted, returned, stepJb, fixedJbRemove, hf]
    · simp [accepted, returned, stepJb, fixedJbRemove, hf, FixedJb.queued, getJbHead]
  | setForceResynch => simp [accepted, returned, stepJb, fixedJbSetForceResynch, FixedJb.queued]

end

lemma accepted_cons (e : JbEvent δ) (log : List (JbEvent δ)) :
    accepted (e :: log) = accepted [e] ++ accepted log := by
  simp [accepted]

lemma runJb_perm [DecidableEq δ] (jb : FixedJb δ) (ops : List (JbOp δ)) :
    accepted (runJb jb ops).1 ++ jb.queued ~
      (returned (runJb jb ops).1).map JbFrame.data ++ (runJb jb ops).2.queued := by
  induction ops generalizing jb with
  | nil => simp [runJb, accepted, returned]
  | cons op ops ih =>
    have hret : returned (runJb jb (op :: ops)).1 =
        returned [(stepJb jb op).1] ++ returned (runJb (stepJb jb op).2 ops).1 := by
      simp [runJb, returned]
    -- how often a frame occurs
    refine perm_iff_count.mpr fun x => ?_
    have hstep := (stepJb_perm jb op).count_eq x
    have hrest := (ih (stepJb jb op).2).count_eq x
    rw [hret, runJb, accepted_cons]
    simp only [map_append, count_append] at hstep hrest ⊢
    omega

/-! ## Frames numbered by their call -/

def putData (ops : List (JbOp δ)) : List δ :=
  ops.flatMap fun
    | .putFirst data _ _ _ => [data]
    | .put data _ _ _ => [data]
    | _ => []

def JbOp.number (k : ℕ) : JbOp α → JbOp (ℕ × α)
  | .putFirst data ms ts now => .putFirst (k, data) ms ts now
  | .put data ms ts now => .put (k, data) ms ts now
  | .get now interpl => .get now interpl
  | .remove => .remove
  | .setForceResynch => .setForceResynch

/-- Number the data of every call from `k` on, which makes the frames of different calls
distinguishable. -/
def numbered : ℕ → List (JbOp α) → List (JbOp (ℕ × α))
  | _, [] => []
  | k, op :: ops => op.number k :: numbered (k + 1) ops

lemma putData_numbered_sublist (k : ℕ) (ops : List (JbOp α)) :
    ((putData (numbered k ops)).map Prod.fst).Sublist (range' k ops.length) := by
  induction ops generalizing k with
  | nil => exact nil_sublist _
  | cons op ops ih =>
    have hrest := ih (k + 1)
    rw [length_cons, range'_succ]
    cases op with
    | putFirst | put => exact hrest.cons_cons k
    | get | remove | setForceResynch => exact hrest.cons k

lemma nodup_putData_numbered (k : ℕ) (ops : List (JbOp α)) : (putData (numbered k ops)).Nodup :=
  ((putData_numbered_sublist k ops).nodup nodup_range').of_map _

lemma accepted_append_discarded [DecidableEq δ] (jb : FixedJb δ) (ops : List (JbOp δ)) :
    accepted (runJb jb ops).1 ++ discarded (runJb jb ops).1 ~ putData ops := by
  induction ops generalizing jb with
  | nil => simp [runJb, accepted, discarded, putData]
  | cons op ops ih =>
    have hstep : accepted [(stepJb jb op).1] ++ discarded [(stepJb jb op).1] ~ putData [op] := by
      have hput : ∀ (jb' : FixedJb δ) (data : δ) (ms ts now : ℤ),
          (if (fixedJbPut jb' data ms ts now).1 = .ok then [data] else []) ++
            (if (fixedJbPut jb' data ms ts now).1 = .drop then [data] else []) ~ [data] := by
        intro jb' data ms ts now
        rcases fixedJbPut_queued jb' data ms ts now with ⟨hcode, -⟩ | ⟨hcode, -⟩ <;> simp [hcode]
      cases op with
      | putFirst data ms ts now =>
        simpa [accepted, discarded, putData, stepJb, fixedJbPutFirst] using hput (jb.restart ts now) data ms ts now
      | put data ms ts now =>
        simpa [accepted, discarded, putData, stepJb] using hput jb data ms ts now
      | get | remove | setForceResynch => simp [accepted, discarded, putData, stepJb]
    have hdis : discarded (runJb jb (op :: ops)).1 =
        discarded [(stepJb jb op).1] ++ discarded (runJb (stepJb jb op).2 ops).1 := by
      simp [runJb, discarded]
    have hdata : putData (op :: ops) = putData [op] ++ putData ops := by simp [putData]
    refine perm_iff_count.mpr fun x => ?_
    have hstep := hstep.count_eq x
    have hrest := (ih (stepJb jb op).2).count_eq x
    rw [hdis, hdata, runJb, accepted_cons]
    simp only [count_append] at hstep hrest ⊢
    omega

/-- **The fixed jitter buffer keeps order and loses nothing.** In every state of a legal run the
queue is strictly increasing in delivery, with `delivery = rxcore + delay + ts`; every accepted
frame is queued or was returned, by exactly one get or remove; no dropped frame is; and successive
gets return strictly increasing delivery times. -/
theorem fixedJb_run_ordered_and_conserved [DecidableEq α] (conf : FixedJbConf) (clock : ℤ)
    (ops : List (JbOp α)) (hlegal : Legal clock (fixedJbNew conf) (numbered 0 ops)) :
    let log := (runJb (fixedJbNew conf) (numbered 0 ops)).1
    let jb := (runJb (fixedJbNew conf) (numbered 0 ops)).2
    jb.frames.Pairwise (fun f g => f.delivery < g.delivery) ∧
      (∀ f ∈ jb.frames, f.delivery = jb.rxcore + jb.delay + f.ts) ∧
      (∀ x ∈ accepted log, ((returned log).map JbFrame.data).count x + jb.queued.count x = 1) ∧
      (∀ x ∈ discarded log, x ∉ (returned log).map JbFrame.data ∧ x ∉ jb.queued) ∧
      (gotten log).Pairwise (fun f g => f.delivery < g.delivery) := by
  intro log jb
  have hinv : JbInv _ ([] ++ gotten log) jb := (jbInv_new conf clock).run _ hlegal
  have hperm : accepted log ++ [] ~ (returned log).map JbFrame.data ++ jb.queued :=
    runJb_perm (fixedJbNew conf) (numbered 0 ops)
  rw [append_nil] at hperm
  have hnd : (accepted log ++ discarded log).Nodup :=
    (accepted_append_discarded (fixedJbNew conf) (numbered 0 ops)).nodup_iff.mpr (nodup_putData_numbered 0 ops)
  rw [nodup_append] at hnd
  obtain ⟨hgot, hsrt, -⟩ := pairwise_append.mp hinv.sorted
  refine ⟨hsrt, fun f hf => (hinv.frames f hf).2, ?_, ?_, hgot⟩
  · intro x hx
    rw [← count_append, ← hperm.count_eq]
    exact count_eq_one_of_mem hnd.1 hx
  · intro x hx
    have hx' : x ∉ accepted log := fun h => hnd.2.2 x h x hx rfl
    rw [hperm.mem_iff, mem_append] at hx'
    exact ⟨fun h => hx' (.inl h), fun h => hx' (.inr h)⟩

/-- A run that takes the covered, the forced-resynch and the restart branch. -/
def sampleRun : List (JbOp (ℕ × Unit)) :=
  numbered 0 [.putFirst () 20 0 0, .put () 20 20 20, .put () 20 10 30, .setForceResynch, .put () 20 10 35,
    .get 100 20, .get 200 20, .get 250 20, .put () 20 500 260]

theorem fixedJb_run_ordered_and_conserved_sample :
    Legal 0 (fixedJbNew ⟨100, 40⟩) sampleRun ∧
      (gotten (runJb (fixedJbNew ⟨100, 40⟩) sampleRun).1).Pairwise (fun f g => f.delivery < g.delivery) :=
  have hleg : Legal 0 (fixedJbNew ⟨100, 40⟩) sampleRun := by decide
  ⟨hleg, (fixedJb_run_ordered_and_conserved ⟨100, 40⟩ 0 _ hleg).2.2.2.2⟩

end Telephony.Jitter
