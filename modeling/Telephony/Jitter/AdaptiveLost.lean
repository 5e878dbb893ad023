import Telephony.Jitter.AdaptiveRuns

/-!
# The loss counter of the adaptive jitter buffer

`_jb_get` counts a frame as lost when there is none, and takes one back when a voice frame comes too
late. A frame can be late without having been counted, as a repeated frame is. `jbGet_lost` says
what one get does to the counter; `jbRun_lost_nonneg` is the result for runs in which every late
frame was reported as lost before, and `jbRun_lost_neg` the run of a repeated frame.
-/

namespace Telephony.Jitter.Adaptive

open Option

variable {δ : Type} {jb jb' : Jitterbuf δ} {info : JbInfo} {f : JbFrame δ} {ts : ℤ} {all : Bool}

/-- Source: `_jb_get` ("voice frame is late") -/
def JbInfo.IsLate (info : JbInfo) (f : JbFrame δ) : Prop :=
  f.type = .voice ∧
    if info.silenceBeginTs = 0 then
      f.ts + info.current < info.nextVoiceTs ∧ f.ts + info.current ≤ info.nextVoiceTs - info.lastVoiceMs
    else f.ts < info.silenceBeginTs

instance (info : JbInfo) (f : JbFrame δ) : Decidable (info.IsLate f) := inferInstanceAs (Decidable (_ ∧ ite _ _ _))

/-- The timestamp of the voice frame that is to be played next.
Source: `_jb_get` (`queue_get(jb, jb->info.next_voice_ts - jb->info.current)`) -/
def JbInfo.expectedTs (info : JbInfo) : ℤ := info.nextVoiceTs - info.current

/-- Whether a timestamp falls into a stretch of time that was reported as lost. -/
def InGap (ts : ℤ) (gap : ℤ × ℤ) : Prop := gap.1 ≤ ts ∧ ts < gap.2

instance (ts : ℤ) (gap : ℤ × ℤ) : Decidable (InGap ts gap) := inferInstanceAs (Decidable (_ ∧ _))

/-- The stretches of time that were reported as lost and whose frame has not come since. A get
outside silence that has no frame reports the time by which it moves the expected timestamp on (none
when it only grows the buffer), and a late frame closes the gap it falls into. -/
def gapsAfter (jb jb' : Jitterbuf δ) (gaps : List (ℤ × ℤ)) : JbEvent δ → List (ℤ × ℤ)
  | .get res =>
    match res.frame? with
    | some f => if jb.info.IsLate f then gaps.eraseP fun gap => InGap f.ts gap else gaps
    | none =>
      if jb.info.silenceBeginTs = 0 ∧ jb.info.expectedTs < jb'.info.expectedTs then
        (jb.info.expectedTs, jb'.info.expectedTs) :: gaps
      else gaps
  | .put _ _ => gaps
  | .getall _ => gaps

/-- If the first frame of the queue is late, it falls into a gap. -/
def Jitterbuf.LateInGap (jb : Jitterbuf δ) (gaps : List (ℤ × ℤ)) : Prop :=
  ∀ a ∈ jb.store.frames, jb.info.IsLate (jb.store.at a) → ∃ gap ∈ gaps, InGap (jb.store.at a).ts gap

instance (jb : Jitterbuf δ) (gaps : List (ℤ × ℤ)) : Decidable (jb.LateInGap gaps) :=
  inferInstanceAs (Decidable (∀ a ∈ jb.store.frames, jb.info.IsLate (jb.store.at a) → _))

/-- So it is before a get; the other calls may always be made. -/
def JbOp.Reported (jb : Jitterbuf δ) (gaps : List (ℤ × ℤ)) : JbOp δ → Prop
  | .get _ _ => jb.LateInGap gaps
  | .put _ _ _ _ _ => True
  | .getall => True

/-- So it is before each get of a run. -/
def ReportedRun : Jitterbuf δ → List (ℤ × ℤ) → List (JbOp δ) → Prop
  | _, _, [] => True
  | jb, gaps, op :: ops =>
    op.Reported jb gaps ∧
      match jbStep jb op with
      | some (event, jb') => ReportedRun jb' (gapsAfter jb jb' gaps event) ops
      | none => True

instance (jb : Jitterbuf δ) (gaps : List (ℤ × ℤ)) : (op : JbOp δ) → Decidable (op.Reported jb gaps)
  | .get _ _ => inferInstanceAs (Decidable (jb.LateInGap gaps))
  | .put _ _ _ _ _ => isTrue trivial
  | .getall => isTrue trivial

instance decidableReportedRun : (jb : Jitterbuf δ) → (gaps : List (ℤ × ℤ)) → (ops : List (JbOp δ)) →
    Decidable (ReportedRun jb gaps ops)
  | _, _, [] => isTrue trivial
  | jb, gaps, op :: ops =>
    @instDecidableAnd (op.Reported jb gaps) _ _ <|
      match jbStep jb op with
      | some (_, jb') => decidableReportedRun jb' _ ops
      | none => isTrue trivial

lemma queueGetCore_head (h : queueGetCore jb ts all = some (some f, jb')) :
    (∃ a, jb.store.frames = some a ∧ jb.store.at a = f) ∧ ∃ cur, jb'.info = { jb.info with framesCur := cur } := by
  obtain ⟨⟨a, store⟩, hget, h⟩ := bind_eq_some_iff.mp h
  cases a with
  | none => cases h
  | some a =>
    cases h
    refine ⟨⟨a, ?_⟩, _, rfl⟩
    unfold JbStore.get at hget
    cases hfrs : jb.store.frames with
    | none => simp [hfrs] at hget
    | some b =>
      simp only [hfrs] at hget
      split_ifs at hget
      · obtain ⟨u, -, hget⟩ := bind_eq_some_iff.mp hget
        obtain ⟨v, -, hget⟩ := bind_eq_some_iff.mp hget
        cases hget
        refine ⟨rfl, ?_⟩
        change jb.store.at a = (((jb.store.setNext u (some v)).setPrev v (some u)).setNext a jb.store.free).at a
        simp
      · cases hget

lemma queueGetCore_none (h : queueGetCore jb ts all = some (none, jb')) : jb' = jb := by
  obtain ⟨⟨a, store⟩, -, h⟩ := bind_eq_some_iff.mp h
  cases a <;> cases h
  rfl

/-! ## What a get does to the counter -/

/-- A get that hands out the first frame of the queue takes a loss back if the frame is late; one
that has no frame counts a loss whenever it moves the expected timestamp on outside silence. -/
def GetLost (jb : Jitterbuf δ) (res : JbResult δ) (jb' : Jitterbuf δ) : Prop :=
  (∃ a ∈ jb.store.frames, res.frame? = some (jb.store.at a) ∧
    jb'.info.framesLost = jb.info.framesLost - if jb.info.IsLate (jb.store.at a) then 1 else 0) ∨
  res.frame? = none ∧ jb.info.framesLost ≤ jb'.info.framesLost ∧
    (jb.info.silenceBeginTs = 0 ∧ jb.info.expectedTs < jb'.info.expectedTs →
      jb'.info.framesLost = jb.info.framesLost + 1)

lemma interpolate_same (info : JbInfo) (interpl : ℤ) : (info.interpolate interpl).framesLost = info.framesLost ∧
    (info.interpolate interpl).expectedTs = info.expectedTs + interpl := by
  unfold JbInfo.interpolate JbInfo.expectedTs
  dsimp only
  split_ifs <;> exact ⟨rfl, by simp only; omega⟩

lemma getMissing_lost (info : JbInfo) (diff now interpl : ℤ) :
    (getMissing info diff now interpl : JbResult δ × JbInfo).1.frame? = none ∧
      (getMissing info diff now interpl : JbResult δ × JbInfo).2.framesLost = info.framesLost + 1 := by
  unfold getMissing
  split_ifs
  · exact ⟨rfl, rfl⟩
  · exact ⟨rfl, (interpolate_same _ interpl).1⟩

lemma getVoice_lost (hsil : info.silenceBeginTs = 0) (diff now : ℤ) : (getVoice info f diff now).1.frame? = some f ∧
    (getVoice info f diff now).2.framesLost = info.framesLost - if info.IsLate f then 1 else 0 := by
  have hlate : info.IsLate f ↔ f.type = .voice ∧ f.ts + info.current < info.nextVoiceTs ∧
      ¬info.nextVoiceTs - info.lastVoiceMs < f.ts + info.current := by
    rw [JbInfo.IsLate, if_pos hsil, not_lt]
  simp only [hlate]
  unfold getVoice
  by_cases hvoice : f.type = .voice
  · by_cases hpast : f.ts + info.current < info.nextVoiceTs
    · by_cases hquick : info.nextVoiceTs - info.lastVoiceMs < f.ts + info.current
      · simp [hvoice, hpast, hquick, JbResult.frame?, JbInfo.out, JbInfo.decrementLosspct]
      · simp [hvoice, hpast, hquick, JbResult.frame?, JbInfo.late]
    · simp only [hvoice, hpast]
      split_ifs <;> simp_all [JbResult.frame?, JbInfo.out, JbInfo.decrementLosspct]
  · simp only [hvoice]
    split_ifs <;> simp_all [JbResult.frame?, JbInfo.out]

lemma getSilent_lost (hsil : info.silenceBeginTs ≠ 0) : (getSilent info f).1.frame? = some f ∧
    (getSilent info f).2.framesLost = info.framesLost - if info.IsLate f then 1 else 0 := by
  have hlate : info.IsLate f ↔ f.type = .voice ∧ f.ts < info.silenceBeginTs := by
    rw [JbInfo.IsLate, if_neg hsil]
  simp only [hlate]
  unfold getSilent
  split_ifs <;> simp_all [JbResult.frame?, JbInfo.out, JbInfo.late, JbInfo.decrementLosspct]

lemma prepareGet_info (jb : Jitterbuf δ) : (prepareGet jb).store = jb.store ∧ ∃ min jitter target,
    (prepareGet jb).info = { jb.info with min := min, jitter := jitter, target := target } := by
  have hcalc : (historyCalcMaxbuf jb).store = jb.store ∧ (historyCalcMaxbuf jb).info = jb.info := by
    unfold historyCalcMaxbuf
    split_ifs <;> exact ⟨rfl, rfl⟩
  unfold prepareGet historyGet
  cases jb.histMaxbufValid with
  | true => exact ⟨rfl, _, _, _, rfl⟩
  | false =>
    simp only [Bool.false_eq_true, if_false, hcalc.2]
    exact ⟨hcalc.1, _, _, _, rfl⟩

section Get

variable {now interpl : ℤ} {res : JbResult δ}

lemma getOutsideSilence_lost (hsil : jb.info.silenceBeginTs = 0)
    (hget : getOutsideSilence jb now interpl = some (res, jb')) : GetLost jb res jb' := by
  obtain ⟨last, -, hget⟩ := bind_eq_some_iff.mp hget
  obtain ⟨next, -, hget⟩ := bind_eq_some_iff.mp hget
  split_ifs at hget
  · cases hget
    -- growing does not move the expected timestamp
    obtain ⟨hlost, hts⟩ := interpolate_same
      { jb.info with current := jb.info.current + interpl, lastAdjustment := now } interpl
    refine .inr ⟨rfl, hlost.ge, fun hmoves => absurd hmoves.2 ?_⟩
    rw [JbInfo.grow, hts]
    simp only [JbInfo.expectedTs]
    omega
  obtain ⟨⟨frame, jb₁⟩, hque, hget⟩ := bind_eq_some_iff.mp hget
  cases hget
  cases frame with
  | none =>
    obtain ⟨hnone, hlost⟩ := @getMissing_lost δ jb₁.info (jb.info.target - jb.info.current) now interpl
    rw [queueGetCore_none hque] at hnone hlost ⊢
    exact .inr ⟨hnone, by simp only [hlost]; omega, fun _ => hlost⟩
  | some f =>
    obtain ⟨⟨a, hfrs, rfl⟩, cur, hinfo⟩ := queueGetCore_head hque
    obtain ⟨hsome, hlost⟩ := @getVoice_lost δ jb₁.info (jb.store.at a) (by rw [hinfo]; exact hsil)
      (jb.info.target - jb.info.current) now
    rw [hinfo] at hsome hlost ⊢
    exact .inl ⟨a, hfrs, hsome, hlost⟩

lemma getInSilence_lost (hsil : jb.info.silenceBeginTs ≠ 0)
    (hget : getInSilence jb now interpl = some (res, jb')) : GetLost jb res jb' := by
  have hsame : (jb.info.shrinkSilent now interpl).framesLost = jb.info.framesLost ∧
      (jb.info.shrinkSilent now interpl).silenceBeginTs = jb.info.silenceBeginTs := by
    unfold JbInfo.shrinkSilent
    split_ifs <;> exact ⟨rfl, rfl⟩
  obtain ⟨⟨frame, jb₁⟩, hque, hget⟩ := bind_eq_some_iff.mp hget
  cases frame with
  | none =>
    cases hget
    rw [queueGetCore_none hque]
    exact .inr ⟨rfl, hsame.1.ge, fun hmoves => absurd hmoves.1 hsil⟩
  | some f =>
    cases hget
    obtain ⟨⟨a, hfrs, rfl⟩, cur, hinfo⟩ := queueGetCore_head hque
    have hsil₁ : jb₁.info.silenceBeginTs = jb.info.silenceBeginTs := by rw [hinfo]; exact hsame.2
    obtain ⟨hsome, hlost⟩ := @getSilent_lost δ jb₁.info (jb.store.at a) (by rwa [hsil₁])
    refine .inl ⟨a, hfrs, hsome, ?_⟩
    have hlate : jb₁.info.IsLate (jb.store.at a) ↔ jb.info.IsLate (jb.store.at a) := by
      simp only [JbInfo.IsLate, hsil₁, if_neg hsil]
    simp only [hlate] at hlost
    rw [hlost, hinfo]
    simp only [hsame]

lemma jbGet_lost (hget : jbGet jb now interpl = some (res, jb')) : GetLost jb res jb' := by
  obtain ⟨hsto, min, jitter, target, hinfo⟩ := prepareGet_info jb
  have hlost : GetLost (prepareGet jb) res jb' := by
    unfold jbGet at hget
    split_ifs at hget with hsil
    · exact getOutsideSilence_lost hsil hget
    · exact getInSilence_lost hsil hget
  unfold GetLost at hlost
  rwa [hsto, hinfo] at hlost

/-- No more gaps are open than losses are counted, after a get as before it. -/
lemma GetLost.gaps_le {gaps : List (ℤ × ℤ)} (hlost : GetLost jb res jb') (h : gaps.length ≤ jb.info.framesLost)
    (hlate : jb.LateInGap gaps) : (gapsAfter jb jb' gaps (.get res)).length ≤ jb'.info.framesLost := by
  rw [gapsAfter]
  rcases hlost with ⟨a, hfrs, hsome, hlost⟩ | ⟨hnone, hle, hlost⟩
  · rw [hsome]
    dsimp only
    split_ifs at hlost ⊢ with hl
    · obtain ⟨gap, hmem, hin⟩ := hlate a hfrs hl
      have hpos := List.length_pos_of_mem hmem
      rw [List.length_eraseP_of_mem hmem (by simpa using hin)]
      omega
    · omega
  · rw [hnone]
    dsimp only
    split_ifs with hmoves
    · have hlost := hlost hmoves
      rw [List.length_cons]
      omega
    · omega

end Get

lemma jbPut_lost {data : δ} {type : JbFrameType} {ms now : ℤ} {code : JbPutCode}
    (h : jbPut jb data type ms ts now = some (code, jb')) : jb'.info.framesLost = jb.info.framesLost := by
  obtain ⟨⟨d, jb₁⟩, hchk, h⟩ := bind_eq_some_iff.mp h
  have hsame : jb₁.info.framesLost = jb.info.framesLost := by
    obtain ⟨last, -, hchk⟩ := bind_eq_some_iff.mp hchk
    obtain ⟨next, -, hchk⟩ := bind_eq_some_iff.mp hchk
    dsimp only at hchk
    split_ifs at hchk <;> cases hchk <;> rfl
  cases d with
  | none =>
    cases h
    exact hsame
  | some delay =>
    obtain ⟨⟨head, jb₂⟩, hque, h⟩ := bind_eq_some_iff.mp h
    cases h
    obtain ⟨⟨hd, ooo, store⟩, -, hque⟩ := bind_eq_some_iff.mp hque
    cases hque
    dsimp only
    split_ifs
    · unfold historyPut
      split_ifs <;> exact hsame
    · exact hsame

lemma jbStep_gaps_le {gaps : List (ℤ × ℤ)} {op : JbOp δ} {event : JbEvent δ}
    (h : gaps.length ≤ jb.info.framesLost)
    (hlate : op.Reported jb gaps)
    (hstep : jbStep jb op = some (event, jb')) : (gapsAfter jb jb' gaps event).length ≤ jb'.info.framesLost := by
  cases op with
  | put data type ms ts now =>
    obtain ⟨out, hput, heq⟩ := map_eq_some_iff.mp hstep
    cases heq
    rwa [gapsAfter, jbPut_lost hput]
  | get now interpl =>
    obtain ⟨out, hget, heq⟩ := map_eq_some_iff.mp hstep
    cases heq
    exact (jbGet_lost hget).gaps_le h hlate
  | getall =>
    obtain ⟨out, hget, heq⟩ := map_eq_some_iff.mp hstep
    cases heq
    rw [gapsAfter]
    obtain ⟨⟨frame, jb₁⟩, hque, hget⟩ := bind_eq_some_iff.mp hget
    cases frame with
    | none =>
      rw [queueGetCore_none hque] at hget
      cases hget
      exact h
    | some f =>
      cases hget
      obtain ⟨-, cur, hinfo⟩ := queueGetCore_head hque
      rwa [hinfo]

/-- Induction on the calls. -/
lemma ReportedRun.gaps_le {gaps : List (ℤ × ℤ)} {ops : List (JbOp δ)} (hreported : ReportedRun jb gaps ops)
    (h : gaps.length ≤ jb.info.framesLost) {log : List (JbEvent δ)} (hrun : jbRun jb ops = some (log, jb')) :
    0 ≤ jb'.info.framesLost := by
  induction ops generalizing jb gaps log with
  | nil =>
    cases hrun
    omega
  | cons op ops ih =>
    obtain ⟨⟨event, jb₁⟩, hstep, hrun⟩ := bind_eq_some_iff.mp hrun
    obtain ⟨⟨log₁, jb₂⟩, hrest, hrun⟩ := bind_eq_some_iff.mp hrun
    cases hrun
    obtain ⟨hlate, hreported⟩ := hreported
    rw [hstep] at hreported
    exact ih hreported (jbStep_gaps_le h hlate hstep) hrest

/-- **Losses are a count** in every state a run reaches, as long as every late voice frame that a
get finds at the head of the queue falls into a gap: a stretch of time that an earlier get reported
as lost, and no other late frame has come for since. -/
theorem jbRun_lost_nonneg (h : 0 ≤ jb.info.framesLost) (ops : List (JbOp δ)) (hreported : ReportedRun jb [] ops)
    {log : List (JbEvent δ)} (hrun : jbRun jb ops = some (log, jb')) : 0 ≤ jb'.info.framesLost :=
  hreported.gaps_le h hrun

/-- The frame of the timestamp 40 is reported as lost, comes late, and then the next one is lost. -/
theorem jbRun_lost_nonneg_late :
    (jbRun (jbSetconf (jbNew : Jitterbuf ℕ) ⟨40, 1000, 0, 40⟩) [.put 0 .voice 20 20 20, .get 60 20, .get 80 20,
      .put 1 .voice 20 40 95, .get 100 20, .get 120 20]).map (fun out => out.2.info.framesLate) = some 1 ∧
    ∀ log jb', jbRun (jbSetconf (jbNew : Jitterbuf ℕ) ⟨40, 1000, 0, 40⟩) [.put 0 .voice 20 20 20, .get 60 20,
      .get 80 20, .put 1 .voice 20 40 95, .get 100 20, .get 120 20] = some (log, jb') → 0 ≤ jb'.info.framesLost :=
  ⟨by decide, fun _ _ hrun => jbRun_lost_nonneg (by decide) _ (by decide) hrun⟩

/-- A voice frame that comes twice: the second one is late, and one loss less than none is
counted. -/
theorem jbRun_lost_neg :
    (jbRun (jbSetconf (jbNew : Jitterbuf ℕ) ⟨1000, 1000, 0, 40⟩) [.put 0 .voice 20 20 20, .put 1 .voice 20 20 20,
      .get 60 20, .get 80 20]).map (fun out => out.2.info.framesLost) = some (-1) := by
  decide

end Telephony.Jitter.Adaptive
