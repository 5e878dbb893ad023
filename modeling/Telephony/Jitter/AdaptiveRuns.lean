import Telephony.Jitter.AdaptiveQueue

/-!
# Runs of the adaptive jitter buffer

One lemma for each operation says what it does to the queue and to the counters of frames. From
these, `JbInv` is kept by every operation and so holds in every run from a new buffer.
-/

namespace Telephony.Jitter.Adaptive

open List Option

section Specs

variable {δ : Type} {jb jb' jb₀ jb₁ : Jitterbuf δ} {q : List (JbFrame δ)} {r : JbResult δ}

/-! ## What the operations do -/

def Jitterbuf.counts (jb : Jitterbuf δ) : ℤ × ℤ × ℤ :=
  (jb.info.framesIn, jb.info.framesOut, jb.info.framesCur)

def SameFrames (jb jb' : Jitterbuf δ) : Prop := jb'.store = jb.store ∧ jb'.counts = jb.counts

lemma historyPut_same (jb : Jitterbuf δ) (ts delay : ℤ) : SameFrames jb (historyPut jb ts delay) := by
  unfold historyPut
  split_ifs <;> exact ⟨rfl, rfl⟩

lemma historyGet_same (jb : Jitterbuf δ) : SameFrames jb (historyGet jb) := by
  have hcalc : SameFrames jb (historyCalcMaxbuf jb) := by
    unfold historyCalcMaxbuf
    split_ifs <;> exact ⟨rfl, rfl⟩
  unfold historyGet
  cases jb.histMaxbufValid with
  | true => exact ⟨rfl, rfl⟩
  | false => exact hcalc

lemma checkResync_spec (h : jb.store.Queue q) (ts now : ℤ) (type : JbFrameType) (delay : ℤ) :
    ∃ d jb', checkResync jb ts now type delay = some (d, jb') ∧ SameFrames jb jb' := by
  obtain ⟨⟨next, hnext⟩, ⟨last, hlast⟩⟩ := h.ends
  simp only [checkResync, hnext, hlast, bind_eq_bind, bind_some]
  split_ifs
  all_goals exact ⟨_, _, rfl, rfl, rfl⟩

lemma jbPut_spec (h : jb.store.Queue q) (hsrt : SortedByTs q) (data : δ) (type : JbFrameType)
    (ms ts now : ℤ) :
    ∃ code jb', jbPut jb data type ms ts now = some (code, jb') ∧
      (code = .drop ∧ SameFrames jb jb' ∨
        code ≠ .drop ∧ ∃ f q', f.data = data ∧ Inserted f q q' ∧ jb'.store.Queue q' ∧
          jb'.counts = (jb.info.framesIn + 1, jb.info.framesOut, jb.info.framesCur + 1)) := by
  obtain ⟨d, jb₁, hchk, hsto₁, hcts₁⟩ :=
    checkResync_spec h ts now type (now - (ts - jb.info.resyncOffset))
  simp only [jbPut, hchk, bind_eq_bind, bind_some]
  cases d with
  | none => exact ⟨_, _, rfl, .inl ⟨rfl, hsto₁, hcts₁⟩⟩
  | some delay =>
    have hhist : SameFrames jb₁ (if type = .voice then historyPut jb₁ ts delay else jb₁) := by
      split_ifs
      · exact historyPut_same jb₁ ts delay
      · exact ⟨rfl, rfl⟩
    dsimp only
    generalize (if type = .voice then historyPut jb₁ ts delay else jb₁) = jb₂ at *
    obtain ⟨hsto₂, hcts₂⟩ := hhist
    have hque : jb₂.store.Queue q := by rwa [hsto₂, hsto₁]
    obtain ⟨head, ooo, s', q', hput, hins, hque'⟩ :=
      hque.put hsrt ⟨data, ts - jb₂.info.resyncOffset, ms, type⟩
    simp only [queuePut, hput]
    refine ⟨_, _, rfl, .inr ⟨?_, _, q', rfl, hins, hque', ?_⟩⟩
    · cases head <;> simp
    · have hcts := hcts₂.trans hcts₁
      simp only [Jitterbuf.counts, Prod.mk.injEq] at hcts ⊢
      omega

inductive Taken (jb : Jitterbuf δ) (q : List (JbFrame δ)) : Option (JbFrame δ) → Jitterbuf δ → Prop
  | nothing : Taken jb q none jb
  | first {f : JbFrame δ} {q' : List (JbFrame δ)} {jb' : Jitterbuf δ} : q = f :: q' → jb'.store.Queue q' →
      jb'.counts = (jb.info.framesIn, jb.info.framesOut, jb.info.framesCur - 1) → Taken jb q (some f) jb'

lemma queueGetCore_spec (h : jb.store.Queue q) (ts : ℤ) (all : Bool) :
    ∃ frame jb', queueGetCore jb ts all = some (frame, jb') ∧ Taken jb q frame jb' := by
  unfold queueGetCore
  cases q with
  | nil =>
    refine ⟨none, jb, ?_, .nothing⟩
    simp only [h.get_nil]
    rfl
  | cons f q =>
    by_cases hdue : all = true ∨ f.ts ≤ ts
    · obtain ⟨a, s', hget, rfl, hque⟩ := h.get hdue
      simp only [hget]
      exact ⟨_, _, rfl, .first rfl hque rfl⟩
    refine ⟨none, jb, ?_, .nothing⟩
    simp only [h.get_of_not_due hdue]
    rfl

def JbInfo.counts (info : JbInfo) : ℤ × ℤ × ℤ := (info.framesIn, info.framesOut, info.framesCur)

section

variable (info : JbInfo)

lemma interpolate_counts (interpl : ℤ) : (info.interpolate interpl).counts = info.counts := by
  unfold JbInfo.interpolate
  dsimp only
  split_ifs <;> rfl

lemma getMissing_spec (diff now interpl : ℤ) :
    (getMissing info diff now interpl : JbResult δ × JbInfo).1.frame? = none ∧
      (getMissing info diff now interpl : JbResult δ × JbInfo).2.counts = info.counts := by
  unfold getMissing
  split_ifs
  · exact ⟨rfl, rfl⟩
  · exact ⟨rfl, interpolate_counts _ interpl⟩

lemma getVoice_spec (frame : JbFrame δ) (diff now : ℤ) : (getVoice info frame diff now).1.frame? = some frame ∧
      (getVoice info frame diff now).2.counts = info.out.counts := by
  unfold getVoice
  dsimp only
  split_ifs <;> exact ⟨rfl, rfl⟩

lemma getSilent_spec (frame : JbFrame δ) :
    (getSilent info frame).1.frame? = some frame ∧ (getSilent info frame).2.counts = info.out.counts := by
  unfold getSilent
  split_ifs <;> exact ⟨rfl, rfl⟩

end

/-- What a get does to the frames: nothing is handed back and nothing changes, or the first frame is
taken out and handed back, and counted. -/
def GetSpec (jb : Jitterbuf δ) (q : List (JbFrame δ)) (out : ℤ) (r : JbResult δ) (jb' : Jitterbuf δ) : Prop :=
  r.frame? = none ∧ SameFrames jb jb' ∨
    ∃ f q', q = f :: q' ∧ r.frame? = some f ∧ jb'.store.Queue q' ∧
      jb'.counts = (jb.info.framesIn, jb.info.framesOut + out, jb.info.framesCur - 1)

lemma GetSpec.of_same {out : ℤ} (h : GetSpec jb q out r jb') (hsame : SameFrames jb₀ jb) : GetSpec jb₀ q out r jb' := by
  obtain ⟨hsto, hcts⟩ := hsame
  rcases h with ⟨hr, hsto', hcts'⟩ | ⟨f, q', hq, hr, hque, hcts'⟩
  · exact .inl ⟨hr, hsto'.trans hsto, hcts'.trans hcts⟩
  · refine .inr ⟨f, q', hq, hr, hque, ?_⟩
    simp only [Jitterbuf.counts, Prod.mk.injEq] at hcts hcts' ⊢
    omega

lemma Taken.getSpec_some {f : JbFrame δ} (htk : Taken jb q (some f) jb₁)
    {info : JbInfo} (hr : r.frame? = some f) (hcts : info.counts = jb₁.info.out.counts) :
    GetSpec jb q 1 r { jb₁ with info := info } := by
  cases htk with
  | first hq hque hcts₁ =>
    refine .inr ⟨f, _, hq, hr, hque, hcts.trans ?_⟩
    simp only [Jitterbuf.counts, JbInfo.counts, JbInfo.out, Prod.mk.injEq] at hcts₁ ⊢
    omega

section

variable (h : jb.store.Queue q) (now interpl : ℤ)
include h

lemma getOutsideSilence_spec : ∃ r jb', getOutsideSilence jb now interpl = some (r, jb') ∧ GetSpec jb q 1 r jb' := by
  obtain ⟨⟨next, hnext⟩, ⟨last, hlast⟩⟩ := h.ends
  simp only [getOutsideSilence, hnext, hlast, bind_eq_bind, bind_some]
  split_ifs with hgrow
  · exact ⟨_, _, rfl, .inl ⟨rfl, rfl, interpolate_counts _ interpl⟩⟩
  obtain ⟨frame, jb₁, hget, htk⟩ :=
    queueGetCore_spec h (jb.info.nextVoiceTs - jb.info.current) false
  simp only [queueGet, hget]
  refine ⟨_, _, rfl, ?_⟩
  cases frame with
  | none =>
    cases htk with
    | nothing =>
      have hspec := @getMissing_spec δ jb.info (jb.info.target - jb.info.current) now interpl
      exact .inl ⟨hspec.1, rfl, hspec.2⟩
  | some f =>
    have hspec := getVoice_spec jb₁.info f (jb.info.target - jb.info.current) now
    exact htk.getSpec_some hspec.1 hspec.2

lemma getInSilence_spec : ∃ r jb', getInSilence jb now interpl = some (r, jb') ∧ GetSpec jb q 1 r jb' := by
  have hshr : SameFrames jb { jb with info := jb.info.shrinkSilent now interpl } := by
    unfold JbInfo.shrinkSilent
    split_ifs <;> exact ⟨rfl, rfl⟩
  obtain ⟨frame, jb₁, hget, htk⟩ := @queueGetCore_spec _
    { jb with info := jb.info.shrinkSilent now interpl } q h
    (now - (jb.info.shrinkSilent now interpl).current) false
  simp only [getInSilence, queueGet, hget]
  cases frame with
  | none =>
    cases htk with
    | nothing => exact ⟨_, _, rfl, .inl ⟨rfl, hshr⟩⟩
  | some f =>
    have hspec := getSilent_spec jb₁.info f
    exact ⟨_, _, rfl, (htk.getSpec_some hspec.1 hspec.2).of_same hshr⟩

lemma jbGet_spec : ∃ r jb', jbGet jb now interpl = some (r, jb') ∧ GetSpec jb q 1 r jb' := by
  have hsame : SameFrames jb (prepareGet jb) := historyGet_same jb
  have hque : (prepareGet jb).store.Queue q := by rwa [hsame.1]
  unfold jbGet
  split_ifs
  · obtain ⟨r, jb', hget, hspec⟩ := getOutsideSilence_spec hque now interpl
    exact ⟨r, jb', hget, hspec.of_same hsame⟩
  · obtain ⟨r, jb', hget, hspec⟩ := getInSilence_spec hque now interpl
    exact ⟨r, jb', hget, hspec.of_same hsame⟩

end

lemma jbGetall_spec (h : jb.store.Queue q) : ∃ r jb', jbGetall jb = some (r, jb') ∧ GetSpec jb q 0 r jb' := by
  obtain ⟨frame, jb', hget, htk⟩ := queueGetCore_spec h 0 true
  simp only [jbGetall, queueGetall, hget]
  cases htk with
  | nothing => exact ⟨_, _, rfl, .inl ⟨rfl, rfl, rfl⟩⟩
  | first hq hque hcts =>
    refine ⟨_, _, rfl, .inr ⟨_, _, hq, rfl, hque, ?_⟩⟩
    rw [hcts, add_zero]

end Specs

/-! ## Runs -/

/-- Source: `jb_put`, `jb_get`, `jb_getall` -/
inductive JbOp (δ : Type)
  | put (data : δ) (type : JbFrameType) (ms ts now : ℤ)
  | get (now interpl : ℤ)
  | getall
  deriving DecidableEq, Repr

inductive JbEvent (δ : Type)
  | put (data : δ) (code : JbPutCode)
  | get (result : JbResult δ)
  | getall (result : JbResult δ)
  deriving DecidableEq, Repr

section Runs

variable {δ : Type}

/-- Source: `jb_put`, `jb_get`, `jb_getall` -/
def jbStep (jb : Jitterbuf δ) : JbOp δ → Option (JbEvent δ × Jitterbuf δ)
  | .put data type ms ts now => (jbPut jb data type ms ts now).map fun out => (.put data out.1, out.2)
  | .get now interpl => (jbGet jb now interpl).map fun out => (.get out.1, out.2)
  | .getall => (jbGetall jb).map fun out => (.getall out.1, out.2)

def jbRun : Jitterbuf δ → List (JbOp δ) → Option (List (JbEvent δ) × Jitterbuf δ)
  | jb, [] => some ([], jb)
  | jb, op :: ops => do
    let (event, jb) ← jbStep jb op
    let (log, jb) ← jbRun jb ops
    return (event :: log, jb)

def accepted (log : List (JbEvent δ)) : List δ :=
  log.flatMap fun
    | .put data code => if code = .drop then [] else [data]
    | _ => []

def returned (log : List (JbEvent δ)) : List δ :=
  log.flatMap fun
    | .put _ _ => []
    | .get result => result.frame?.toList.map JbFrame.data
    | .getall result => result.frame?.toList.map JbFrame.data

def getalls (log : List (JbEvent δ)) : ℕ :=
  (log.map fun
    | .getall result => result.frame?.toList.length
    | _ => 0).sum

end Runs

section Numbered

variable {α : Type}

def JbOp.number (k : ℕ) : JbOp α → JbOp (ℕ × α)
  | .put data type ms ts now => .put (k, data) type ms ts now
  | .get now interpl => .get now interpl
  | .getall => .getall

/-- Number the data of every call from `k` on, which makes the frames of different calls
distinguishable. -/
def numbered : ℕ → List (JbOp α) → List (JbOp (ℕ × α))
  | _, [] => []
  | k, op :: ops => op.number k :: numbered (k + 1) ops

def Precedes (f g : JbFrame (ℕ × α)) : Prop := f.ts < g.ts ∨ f.ts = g.ts ∧ f.data.1 < g.data.1

instance (f g : JbFrame (ℕ × α)) : Decidable (Precedes f g) := inferInstanceAs (Decidable (_ ∨ _))

structure JbInv (k : ℕ) (acc ret : List (ℕ × α)) (alls : ℕ) (jb : Jitterbuf (ℕ × α))
    (q : List (JbFrame (ℕ × α))) : Prop where
  queue : jb.store.Queue q
  ordered : q.Pairwise Precedes
  lt : ∀ x ∈ acc, x.1 < k
  nodup : acc.Nodup
  perm : acc ~ ret ++ q.map JbFrame.data
  cur : jb.info.framesCur = q.length
  balance : jb.info.framesIn = jb.info.framesOut + jb.info.framesCur + alls

variable {k alls all : ℕ} {acc ret : List (ℕ × α)} {jb jb' : Jitterbuf (ℕ × α)} {q q' : List (JbFrame (ℕ × α))}

lemma JbInv.sorted (h : JbInv k acc ret alls jb q) : SortedByTs q :=
  h.ordered.imp fun hfg => hfg.elim le_of_lt fun he => he.1.le

lemma JbInv.queued_lt (h : JbInv k acc ret alls jb q) : ∀ f ∈ q, f.data.1 < k := by
  intro f hf
  refine h.lt f.data (h.perm.mem_iff.mpr ?_)
  exact mem_append_right _ (mem_map_of_mem hf)

variable {f : JbFrame (ℕ × α)}

lemma Inserted.pairwise (h : Inserted f q q') (hq : q.Pairwise Precedes) (hlt : ∀ g ∈ q, g.data.1 < f.data.1) :
    q'.Pairwise Precedes := by
  obtain ⟨q₁, q₂, rfl, rfl, h₁, h₂⟩ := h
  obtain ⟨hq₁, hq₂, hcross⟩ := pairwise_append.mp hq
  refine pairwise_append.mpr ⟨hq₁, pairwise_cons.mpr ⟨fun g hg => .inl (h₂ g hg), hq₂⟩, ?_⟩
  intro g hg g' hg'
  rcases mem_cons.mp hg' with rfl | hg'
  · rcases lt_or_eq_of_le (h₁ g hg) with hts | hts
    · exact .inl hts
    · exact .inr ⟨hts, hlt g (mem_append_left _ hg)⟩
  · exact hcross g hg g' hg'

lemma Inserted.perm (h : Inserted f q q') : q' ~ f :: q := by
  obtain ⟨q₁, q₂, rfl, rfl, -, -⟩ := h
  exact perm_middle

section

variable (h : JbInv k acc ret alls jb q)
include h

lemma JbInv.same (hsame : SameFrames jb jb') : JbInv (k + 1) acc ret alls jb' q := by
  obtain ⟨hsto, hcts⟩ := hsame
  simp only [Jitterbuf.counts, Prod.mk.injEq] at hcts
  have hcur := h.cur
  have hbalance := h.balance
  exact ⟨hsto ▸ h.queue, h.ordered, fun x hx => Nat.lt_succ_of_lt (h.lt x hx), h.nodup, h.perm, by omega, by omega⟩

lemma JbInv.inserted (hf : f.data.1 = k) (hins : Inserted f q q') (hque : jb'.store.Queue q')
    (hcts : jb'.counts = (jb.info.framesIn + 1, jb.info.framesOut, jb.info.framesCur + 1)) :
    JbInv (k + 1) (acc ++ [f.data]) ret alls jb' q' := by
  simp only [Jitterbuf.counts, Prod.mk.injEq] at hcts
  have hcur := h.cur
  have hbalance := h.balance
  have hnew : f.data ∉ acc := fun hmem => absurd (h.lt _ hmem) (by omega)
  constructor
  · exact hque
  · exact hins.pairwise h.ordered fun g hg => hf ▸ h.queued_lt g hg
  · exact forall_mem_append.mpr ⟨fun x hx => Nat.lt_succ_of_lt (h.lt x hx), by simp [hf]⟩
  · exact h.nodup.append (nodup_singleton _) (by simpa using hnew)
  · calc acc ++ [f.data] ~ (ret ++ q.map JbFrame.data) ++ [f.data] := h.perm.append_right _
      _ ~ ret ++ (f.data :: q.map JbFrame.data) := by
        rw [append_assoc]
        exact perm_append_singleton _ _ |>.append_left ret
      _ ~ ret ++ q'.map JbFrame.data := (hins.perm.map JbFrame.data).symm.append_left ret
  · rw [hins.perm.length_eq, length_cons]
    omega
  · omega

lemma JbInv.taken (hq : q = f :: q') (hque : jb'.store.Queue q') {out : ℤ} (hone : out + all = 1)
    (hcts : jb'.counts = (jb.info.framesIn, jb.info.framesOut + out, jb.info.framesCur - 1)) :
    JbInv (k + 1) acc (ret ++ [f.data]) (alls + all) jb' q' := by
  subst hq
  simp only [Jitterbuf.counts, Prod.mk.injEq] at hcts
  have hcur := h.cur
  have hbalance := h.balance
  rw [length_cons] at hcur
  refine ⟨hque, (pairwise_cons.mp h.ordered).2, fun x hx => Nat.lt_succ_of_lt (h.lt x hx), h.nodup, ?_, ?_, ?_⟩
  · rw [append_assoc]
    exact h.perm
  · omega
  · omega

lemma JbInv.step (op : JbOp α) : ∃ event jb' q', jbStep jb (op.number k) = some (event, jb') ∧
      JbInv (k + 1) (acc ++ accepted [event]) (ret ++ returned [event]) (alls + getalls [event]) jb' q' := by
  cases op with
  | put data type ms ts now =>
    obtain ⟨code, jb', hput, hspec⟩ := jbPut_spec h.queue h.sorted (k, data) type ms ts now
    refine ⟨.put (k, data) code, jb', ?_⟩
    rcases hspec with ⟨hcode, hsame⟩ | ⟨hcode, f, q', hf, hins, hque, hcts⟩
    · refine ⟨q, by simp [jbStep, JbOp.number, hput], ?_⟩
      simpa [accepted, returned, getalls, hcode] using h.same hsame
    · refine ⟨q', by simp [jbStep, JbOp.number, hput], ?_⟩
      simpa [accepted, returned, getalls, hcode, hf] using h.inserted (by rw [hf]) hins hque hcts
  | get now interpl =>
    obtain ⟨r, jb', hget, hspec⟩ := jbGet_spec h.queue now interpl
    refine ⟨.get r, jb', ?_⟩
    rcases hspec with ⟨hr, hsame⟩ | ⟨f, q', hq, hr, hque, hcts⟩
    · refine ⟨q, by simp [jbStep, JbOp.number, hget], ?_⟩
      simpa [accepted, returned, getalls, hr] using h.same hsame
    · refine ⟨q', by simp [jbStep, JbOp.number, hget], ?_⟩
      simpa [accepted, returned, getalls, hr] using h.taken hq hque (show (1 : ℤ) + (0 : ℕ) = 1 from rfl) hcts
  | getall =>
    obtain ⟨r, jb', hget, hspec⟩ := jbGetall_spec h.queue
    refine ⟨.getall r, jb', ?_⟩
    rcases hspec with ⟨hr, hsame⟩ | ⟨f, q', hq, hr, hque, hcts⟩
    · refine ⟨q, by simp [jbStep, JbOp.number, hget], ?_⟩
      simpa [accepted, returned, getalls, hr] using h.same hsame
    · refine ⟨q', by simp [jbStep, JbOp.number, hget], ?_⟩
      simpa [accepted, returned, getalls, hr] using h.taken hq hque (show (0 : ℤ) + (1 : ℕ) = 1 from rfl) hcts

lemma JbInv.run (ops : List (JbOp α)) : ∃ log jb' q', jbRun jb (numbered k ops) = some (log, jb') ∧
      JbInv (k + ops.length) (acc ++ accepted log) (ret ++ returned log) (alls + getalls log) jb' q' := by
  induction ops generalizing k acc ret alls jb q with
  | nil => exact ⟨[], jb, q, rfl, by simpa [accepted, returned, getalls] using h⟩
  | cons op ops ih =>
    obtain ⟨event, jb₁, q₁, hstep, h₁⟩ := h.step op
    obtain ⟨log, jb', q', hrun, h'⟩ := ih h₁
    refine ⟨event :: log, jb', q', ?_, ?_⟩
    · simp only [numbered, jbRun, hstep, hrun, bind_eq_bind, bind_some]
      rfl
    · have hlen : k + (op :: ops).length = k + 1 + ops.length := by
        rw [length_cons]
        omega
      rw [hlen]
      simpa [accepted, returned, getalls, Nat.add_assoc] using h'

end

lemma jbInv_new [Inhabited α] (conf : JbConf) : JbInv 0 [] [] 0 (jbSetconf jbNew conf : Jitterbuf (ℕ × α)) [] :=
  ⟨queue_empty _, .nil, by simp, nodup_nil, .refl _, rfl, rfl⟩

/-- **The adaptive jitter buffer loses and duplicates nothing.** Every run from a new buffer goes
through without following a null pointer. At its end the list holds a queue sorted by timestamp,
with equal ones in the order of arrival, the counters agree with it, and what the puts accepted is
what was handed back, each once, together with what is queued. -/
theorem jbRun_sorted_and_conserved [Inhabited α] (conf : JbConf) (ops : List (JbOp α)) :
    ∃ log jb q, jbRun (jbSetconf jbNew conf) (numbered 0 ops) = some (log, jb) ∧
      jb.store.Queue q ∧
      q.Pairwise (fun f g => f.ts < g.ts ∨ f.ts = g.ts ∧ f.data.1 < g.data.1) ∧
      jb.info.framesCur = q.length ∧
      jb.info.framesIn = jb.info.framesOut + jb.info.framesCur + getalls log ∧
      (accepted log).Nodup ∧ accepted log ~ returned log ++ q.map JbFrame.data := by
  obtain ⟨log, jb, q, hrun, hinv⟩ := (jbInv_new conf).run ops
  simp only [Nat.zero_add] at hinv
  exact ⟨log, jb, q, hrun, hinv.queue, hinv.ordered, hinv.cur, hinv.balance, hinv.nodup, hinv.perm⟩

/-- Frames that arrive out of order, two of them with one timestamp. -/
example : (jbRun (jbSetconf jbNew ⟨1000, 1000, 10, -1⟩) (numbered 0 [.put () .voice 20 40 50,
    .put () .voice 20 20 50, .put () .voice 20 40 60, .get 100 20, .getall, .getall, .getall])).map
      (fun out => ((accepted out.1).map Prod.fst, (returned out.1).map Prod.fst)) =
    some ([0, 1, 2], [1, 0, 2]) := by
  decide

end Numbered

end Telephony.Jitter.Adaptive
