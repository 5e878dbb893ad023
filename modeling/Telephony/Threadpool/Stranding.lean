import Telephony.Threadpool.Bookkeeping

/-!
# Tasks that no worker looks for

Between the last look of a worker at the queue and the control task that tells that it goes idle,
the worker is neither busy nor idle. A task that is pushed then, and whose control task comes first,
may be left in the queue.
-/

namespace Telephony.Threadpool

open Lib List Bool

/-- The worker executes tasks or is about to do so: it has been woken up, or it will look at the
queue again.
Source: `worker_active`, `worker_idle` -/
def Worker.engaged (r : Worker) : Bool := r.pc = .active || r.pc = .running || r.pc = .idle && r.wakeUp

/-- The control thread is not in the middle of `shrink`, and waits for no thread. -/
def ControlPc.Steady : ControlPc → Prop
  | .killing _ _ => False
  | .zombifying _ => False
  | .joining _ _ => False
  | _ => True

namespace Pool

def engaged (p : Pool) : Bool := p.workers.any Worker.engaged

/-- Source: `queued_task_pushed`, `grow` -/
def canGrow (opts : Options) (p : Pool) : Bool :=
  0 < opts.autoIncrement && (opts.maxSize = 0 || p.active.length + p.idle.length < opts.maxSize)

/-- If a push is handled while there are tasks, there is a worker that is engaged or idle, room for
another worker, or another push. -/
def served (opts : Options) (p : Pool) : PoolAction → Bool
  | .control _ =>
    match p.pc, p.control with
    | .ready, .taskPushed :: rest =>
      p.tasks = 0 || p.engaged || p.pushing || .taskPushed ∈ rest || p.idle ≠ [] || p.canGrow opts
    | _, _ => true
  | _ => true

/-- The pool has come to rest: no push is under way, the control thread has nothing to do, and no
worker is engaged. -/
structure Quiescent (p : Pool) : Prop where
  pushing : p.pushing = false
  control : p.control = []
  pc : p.pc = .ready
  engaged : p.engaged = false

inductive Covered (opts : Options) (p : Pool) : Prop where
  | noTasks (h : p.tasks = 0)
  | engaged (h : p.engaged = true)
  | pushing (h : p.pushing = true)
  | told (h : .taskPushed ∈ p.control)
  | growing (h : p.pc = .passed p.active.length) (hgrow : p.canGrow opts = true)
  | grown (h : p.pc = .secondPass) (hidle : p.idle ≠ [])

structure Steady (opts : Options) (p : Pool) : Prop where
  inv : p.Inv opts
  alive : ∀ (w : ℕ) (r : Worker), p.workers[w]? = some r → r.state = .alive ∧ (r.pc = .idle ∨ r.pc.Busy)
  pc : p.pc.Steady
  unsized : ∀ n, .setSize n ∉ p.control

structure Tended (opts : Options) (p : Pool) : Prop where
  steady : p.Steady opts
  covered : p.Covered opts

structure Unborn (opts : Options) (p : Pool) : Prop where
  inv : p.Inv opts
  workers : p.workers = []
  active : p.active = []
  idle : p.idle = []
  pc : p.pc = .ready
  sized : ∃ n rest, p.control = .setSize n :: rest ∧ ∀ m, .setSize m ∉ rest

section Steps

variable {opts : Options} {p p' : Pool} {w : ℕ} {r r' : Worker}

lemma engaged_iff (p : Pool) :
    p.engaged = true ↔ ∃ (w : ℕ) (r : Worker), p.workers[w]? = some r ∧ r.engaged = true := by
  unfold engaged
  rw [any_eq_true]
  constructor
  · rintro ⟨r, hmem, hr⟩
    obtain ⟨w, hw⟩ := mem_iff_getElem?.mp hmem
    exact ⟨w, r, hw, hr⟩
  · rintro ⟨w, r, hw, hr⟩
    exact ⟨r, mem_of_getElem? hw, hr⟩

lemma Quiescent.no_tasks (h : p.Quiescent) (hcov : p.Covered opts) : p.tasks = 0 := by
  cases hcov with
  | noTasks htsk => exact htsk
  | engaged heng => exact absurd (heng.symm.trans h.engaged) (by simp)
  | pushing hpsh => exact absurd (hpsh.symm.trans h.pushing) (by simp)
  | told htold => exact absurd (h.control ▸ htold) (by simp)
  | growing hpc _ | grown hpc _ => exact absurd (hpc.symm.trans h.pc) (by simp)

/-! ## The threads of workers -/

structure Goes (w : ℕ) (r r' : Worker) (p p' : Pool) : Prop where
  worker : p.workers[w]? = some r
  workers : p'.workers = (p.update w fun _ => r').workers
  active : p'.active = p.active
  idle : p'.idle = p.idle
  pushing : p'.pushing = p.pushing
  pc : p'.pc = p.pc
  control : p'.control = p.control ∨ p'.control = p.control ++ [.activeIdle w]

lemma Goes.getElem? (hgo : Goes w r r' p p') (v : ℕ) : p'.workers[v]? = if w = v then some r' else p.workers[v]? := by
  rw [hgo.workers, getElem?_update]
  split_ifs with hv
  · subst hv
    rw [hgo.worker]
    rfl
  · rfl

lemma Covered.goes (h : p.Covered opts) (hgo : Goes w r r' p p')
    (hkeep : p'.tasks = 0 ∨ r'.engaged = true ∨ p'.tasks = p.tasks ∧ r.engaged = false) : p'.Covered opts := by
  rcases hkeep with htsk | heng | ⟨htsk, hspent⟩
  · exact .noTasks htsk
  · refine .engaged ((engaged_iff _).mpr ⟨w, r', ?_, heng⟩)
    rw [hgo.getElem?, if_pos rfl]
  · cases h with
    | noTasks hnone => exact .noTasks (htsk.trans hnone)
    | engaged heng =>
      obtain ⟨v, s, hs, hbusy⟩ := (engaged_iff p).mp heng
      have hv : w ≠ v := by
        rintro rfl
        obtain rfl : r = s := Option.some.inj (hgo.worker.symm.trans hs)
        rw [hspent] at hbusy
        cases hbusy
      refine .engaged ((engaged_iff _).mpr ⟨v, s, ?_, hbusy⟩)
      rw [hgo.getElem?, if_neg hv, hs]
    | pushing hpsh => exact .pushing (hgo.pushing.trans hpsh)
    | told htold =>
      rcases hgo.control with hctl | hctl
      · exact .told (hctl ▸ htold)
      · exact .told (hctl ▸ mem_append_left _ htold)
    | growing hpc hgrow =>
      refine .growing ?_ ?_
      · rw [hgo.pc, hgo.active, hpc]
      · unfold canGrow
        rwa [hgo.active, hgo.idle]
    | grown hpc hidle => exact .grown (hgo.pc.trans hpc) (hgo.idle ▸ hidle)

lemma Steady.goes (h : p.Steady opts) (hcov : p.Covered opts) (hgo : Goes w r r' p p')
    (hinv : p'.Inv opts) (halive : r'.state = .alive ∧ (r'.pc = .idle ∨ r'.pc.Busy))
    (hkeep : p'.tasks = 0 ∨ r'.engaged = true ∨ p'.tasks = p.tasks ∧ r.engaged = false) :
    p'.Tended opts := by
  refine ⟨⟨hinv, fun v s hs => ?_, hgo.pc ▸ h.pc, fun n hmem => ?_⟩, hcov.goes hgo hkeep⟩
  · rw [hgo.getElem?] at hs
    split_ifs at hs
    · obtain rfl := Option.some.inj hs
      exact halive
    · exact h.alive v s hs
  · rcases hgo.control with hctl | hctl
    · exact h.unsized n (hctl ▸ hmem)
    · rw [hctl] at hmem
      exact h.unsized n (by simpa using hmem)

lemma goes_update (hr : p.workers[w]? = some r) : Goes w r r' p (p.update w fun _ => r') :=
  ⟨hr, rfl, rfl, rfl, rfl, rfl, .inl rfl⟩

section

variable (h : p.Steady opts) (hcov : p.Covered opts)
include h hcov

lemma Steady.wake (w : ℕ) : (p.wake w).Tended opts := by
  have hinv := h.inv.wake w
  revert hinv
  unfold Pool.wake
  split
  · next st hr =>
    intro hinv
    obtain rfl : st = .alive := (h.alive w _ hr).1
    exact h.goes hcov (goes_update hr) hinv ⟨rfl, .inr (.inl rfl)⟩ (.inr (.inl rfl))
  · exact fun _ => ⟨h, hcov⟩

lemma Steady.pop (w : ℕ) : (p.pop w).Tended opts := by
  have hinv := h.inv.pop w
  revert hinv
  unfold Pool.pop
  split
  · next st wk hr =>
    obtain rfl : st = .alive := (h.alive w _ hr).1
    split_ifs with htsk
    · intro hinv
      exact h.goes hcov (goes_update hr) hinv ⟨rfl, .inr (.inr (.inr rfl))⟩ (.inl htsk)
    intro hinv
    have hgo : Goes w _ ⟨.alive, wk, .running⟩ p
        { p.update w fun _ => ⟨.alive, wk, .running⟩ with tasks := p.tasks - 1 } :=
      ⟨hr, rfl, rfl, rfl, rfl, rfl, .inl rfl⟩
    exact h.goes hcov hgo hinv ⟨rfl, .inr (.inr (.inl rfl))⟩ (.inr (.inl rfl))
  · exact fun _ => ⟨h, hcov⟩

lemma Steady.finish (w : ℕ) : (p.finish w).Tended opts := by
  have hinv := h.inv.finish w
  revert hinv
  unfold Pool.finish
  split
  · next st wk hr =>
    obtain rfl : st = .alive := (h.alive w _ hr).1
    intro hinv
    refine h.goes hcov (goes_update hr) hinv ⟨rfl, Or.inr ?_⟩ ?_
    · split_ifs
      · exact .inl rfl
      · exact .inr (.inr rfl)
    · by_cases htsk : 0 < p.tasks
      · rw [if_pos htsk]
        exact .inr (.inl rfl)
      · exact .inl (Nat.eq_zero_of_not_pos htsk)
  · exact fun _ => ⟨h, hcov⟩

lemma Steady.settle (w : ℕ) : (p.settle w).Tended opts := by
  have hinv := h.inv.settle w
  revert hinv
  unfold Pool.settle
  split
  · next wk hr =>
    split_ifs with hpsh
    · exact fun _ => ⟨h, hcov⟩
    · intro hinv
      have hgo : Goes w _ ⟨.alive, wk, .idle⟩ p ((p.update w fun _ => ⟨.alive, wk, .idle⟩).enqueue (.activeIdle w)) :=
        ⟨hr, rfl, rfl, rfl, rfl, rfl, .inr rfl⟩
      exact h.goes hcov hgo hinv ⟨rfl, .inl rfl⟩ (.inr (.inr ⟨rfl, rfl⟩))
  · next st wk hst hr => exact absurd (h.alive w _ hr).1 hst
  · exact fun _ => ⟨h, hcov⟩

end

lemma Steady.die (h : p.Steady opts) (w : ℕ) : p.die w = p := by
  have hdying : ∀ st wk saved, p.workers[w]? ≠ some ⟨st, wk, .dying saved⟩ := by
    intro st wk saved hr
    rcases (h.alive w _ hr).2 with hpc | hpc | hpc | hpc <;> cases hpc
  unfold Pool.die
  split
  · next hr => exact absurd hr (hdying _ _ _)
  · next hr => exact absurd hr (hdying _ _ _)
  · rfl

lemma timeout_eq (htmo : opts.idleTimeout = false) (p : Pool) (w : ℕ) : p.timeout opts w = p := by
  unfold timeout
  split
  · rw [if_neg]
    rw [htmo]
    exact fun h => Bool.noConfusion h.1
  · rfl

/-! ## The control thread -/

lemma Steady.resting (h : p.Steady opts) (hw : w ∈ p.idle) : p.workers[w]? = some ⟨.alive, false, .idle⟩ := by
  obtain ⟨-, -, r, msgs, hstd, hfits⟩ := h.inv.of_idle hw
  cases hfits with
  | resting => exact hstd.worker
  | timedOut => exact absurd (h.alive w _ hstd.worker).1 (by simp)

lemma refs_ne_zero (h : w ∈ p.active ∨ w ∈ p.idle) : p.refs w ≠ 0 := by
  unfold refs
  rcases h with hw | hw
  all_goals
    have hpos := count_pos_iff.mpr hw
    omega

lemma activate_eq (hr : p.workers[w]? = some ⟨.alive, false, .idle⟩) (next : ControlPc) :
    p.activate w next = { p.update w fun _ => ⟨.alive, true, .idle⟩ with
      active := p.active ++ [w], idle := p.idle.erase w, pc := next } := by
  have hrecord : p.update w (Worker.setState .alive) = p.update w fun _ => ⟨.alive, true, .idle⟩ := by
    have hmodify : p.workers.modify w (Worker.setState .alive) =
        p.workers.modify w fun _ => ⟨.alive, true, .idle⟩ := by
      refine ext_getElem? fun v => ?_
      rw [getElem?_modify, getElem?_modify]
      by_cases hv : w = v
      · subst hv
        rw [hr]
        rfl
      · simp [hv]
    unfold update
    rw [hmodify]
  unfold activate release
  simp only [hr, hrecord]
  rw [if_neg (refs_ne_zero (.inl (by simp)))]
  rfl

variable {next : ControlPc} {choice delta : ℕ}

lemma Steady.activate (h : p.Steady opts) (hw : w ∈ p.idle) (hnext : next.Steady) :
    (p.activate w next).Tended opts := by
  have hr := h.resting hw
  have hinv := h.inv.activate hw next
  rw [activate_eq hr] at hinv ⊢
  have hwks := fun v => (goes_update hr : Goes w _ ⟨.alive, true, .idle⟩ p _).getElem? v
  refine ⟨⟨hinv, fun v s hs => ?_, hnext, h.unsized⟩,
    .engaged ((engaged_iff _).mpr ⟨w, ⟨.alive, true, .idle⟩, ?_, rfl⟩)⟩
  · rw [hwks] at hs
    split_ifs at hs
    · obtain rfl := Option.some.inj hs
      exact ⟨rfl, .inl rfl⟩
    · exact h.alive v s hs
  · rw [hwks, if_pos rfl]

lemma Steady.withPc (h : p.Steady opts) (hnext : next.Steady) : Steady opts { p with pc := next } :=
  ⟨h.inv.withPc next, h.alive, hnext, h.unsized⟩

lemma Covered.withPc (h : p.Covered opts) (hgro : p.pc = .passed p.active.length → p.canGrow opts = false)
    (hgrw : p.pc = .secondPass → p.idle = []) (next : ControlPc) : Covered opts { p with pc := next } := by
  cases h with
  | noTasks htsk => exact .noTasks htsk
  | engaged heng => exact .engaged heng
  | pushing hpsh => exact .pushing hpsh
  | told htold => exact .told htold
  | growing hpc hgrow => exact absurd (hgrow.symm.trans (hgro hpc)) (by simp)
  | grown hpc hidle => exact absurd (hgrw hpc) hidle

lemma Steady.grow (h : p.Steady opts) (delta : ℕ) (hnext : next.Steady) : (p.grow opts delta next).Steady opts := by
  refine ⟨h.inv.grow delta next, fun v s hs => ?_, hnext, h.unsized⟩
  rcases mem_append.mp (mem_of_getElem? hs) with hold | hnew
  · obtain ⟨u, hu⟩ := mem_iff_getElem?.mp hold
    exact h.alive u s hu
  · rw [eq_of_mem_replicate hnew]
    exact ⟨rfl, .inl rfl⟩

lemma engaged_grow (h : p.engaged = true) (delta : ℕ) (next : ControlPc) :
    (p.grow opts delta next).engaged = true := by
  unfold engaged Pool.grow
  rw [any_append, or_eq_true]
  exact .inl h

lemma Covered.grow (h : p.Covered opts)
    (hgro : p.pc = .passed p.active.length → delta = opts.autoIncrement ∧ next = .secondPass)
    (hgrw : p.pc ≠ .secondPass) : (p.grow opts delta next).Covered opts := by
  cases h with
  | noTasks htsk => exact .noTasks htsk
  | engaged heng => exact .engaged (engaged_grow heng delta next)
  | pushing hpsh => exact .pushing hpsh
  | told htold => exact .told htold
  | growing hpc hgrow =>
    obtain ⟨rfl, rfl⟩ := hgro hpc
    simp only [canGrow, and_eq_true, or_eq_true, decide_eq_true_eq] at hgrow
    refine .grown rfl fun hnil => ?_
    have hlen := congrArg List.length hnil
    simp only [Pool.grow, length_append, length_range', length_nil] at hlen
    split_ifs at hlen with hover <;> omega
  | grown hpc _ => exact absurd hpc hgrw

lemma eq_nil_of_first {l : List ℕ} (hfst : first choice l = none) : l = [] := by
  cases l with
  | nil => rfl
  | cons v l => cases hfst

section Begin

variable {rest : List ControlTask} {choice : ℕ} (h : p.Steady opts) (hcov : p.Covered opts) (hpc : p.pc = .ready)

include h hcov hpc

lemma Steady.activeIdle (hctl : p.control = .activeIdle w :: rest) :
    (Pool.beginTask choice { p with control := rest } (.activeIdle w)).Tended opts := by
  have hinv := h.inv.activeIdle hctl choice
  simp only [Pool.beginTask, release] at hinv ⊢
  rw [if_neg (refs_ne_zero (.inr (by simp)))] at hinv ⊢
  refine ⟨⟨hinv, h.alive, trivial, fun n hmem => h.unsized n (hctl ▸ mem_cons_of_mem _ hmem)⟩, ?_⟩
  cases hcov with
  | noTasks htsk => exact .noTasks htsk
  | engaged heng => exact .engaged heng
  | pushing hpsh => exact .pushing hpsh
  | told htold =>
    rw [hctl] at htold
    exact .told (by simpa using htold)
  | growing hpc' _ | grown hpc' _ => exact absurd (hpc.symm.trans hpc') (by simp)

omit hcov in
lemma Steady.taskPushed (hctl : p.control = .taskPushed :: rest)
    (hsvd : p.served opts (.control choice) = true) :
    (Pool.beginTask choice { p with control := rest } .taskPushed).Tended opts := by
  have htail : Steady opts { p with control := rest } :=
    ⟨h.inv.tail hctl fun _ => rfl, h.alive, h.pc, fun n hmem => h.unsized n (hctl ▸ mem_cons_of_mem _ hmem)⟩
  simp only [Pool.beginTask]
  split
  · next hfst =>
    refine ⟨htail.withPc trivial, ?_⟩
    simp only [served, hpc, hctl, or_eq_true, decide_eq_true_eq] at hsvd
    rcases hsvd with ((((htsk | heng) | hpsh) | htold) | hidle) | hgrow
    · exact .noTasks htsk
    · exact .engaged heng
    · exact .pushing hpsh
    · exact .told htold
    · exact absurd (eq_nil_of_first hfst) hidle
    · exact .growing rfl hgrow
  · next w hfst => exact htail.activate (mem_of_first hfst) trivial

lemma Steady.beginTask {t : ControlTask} (hctl : p.control = t :: rest)
    (hsvd : p.served opts (.control choice) = true) :
    (Pool.beginTask choice { p with control := rest } t).Tended opts := by
  cases t with
  | activeIdle w => exact h.activeIdle hcov hpc hctl
  | zombieDead w =>
    obtain ⟨-, -, loc, r, msgs, hstd, hfits, -⟩ := h.inv.head hctl (decide_eq_true rfl)
    have halive := (h.alive w r hstd.worker).1
    cases hfits with
    | left => cases halive
  | idleDead w =>
    obtain ⟨-, -, loc, r, msgs, hstd, hfits, -⟩ := h.inv.head hctl (decide_eq_true rfl)
    have halive := (h.alive w r hstd.worker).1
    cases hfits with
    | timedOut _ => cases halive
    | dropped _ => cases halive
  | taskPushed => exact h.taskPushed hpc hctl hsvd
  | setSize n => exact absurd (hctl ▸ mem_cons_self) (h.unsized n)

end Begin

lemma Steady.controlStep (h : p.Steady opts) (hcov : p.Covered opts)
    (hsvd : p.served opts (.control choice) = true) :
    (p.controlStep opts choice).Tended opts := by
  have hstd := h.pc
  unfold Pool.controlStep
  split
  · next hpc =>
    split
    · exact ⟨h, hcov⟩
    · next t rest hctl => exact h.beginTask hcov hpc hctl hsvd
  · next existing hpc =>
    have hgrw : p.pc ≠ .secondPass := by simp [hpc]
    split_ifs with hexisting hincrement
    · refine ⟨h.withPc trivial, hcov.withPc (fun _ => ?_) (fun hpc' => absurd hpc' hgrw) _⟩
      simp [canGrow, hincrement]
    · exact ⟨h.grow _ trivial, hcov.grow (fun _ => ⟨rfl, rfl⟩) hgrw⟩
    · refine ⟨h.withPc trivial, hcov.withPc (fun hpc' => ?_) (fun hpc' => absurd hpc' hgrw) _⟩
      rw [hpc] at hpc'
      cases hpc'
      exact absurd rfl hexisting
  · next hpc =>
    split
    · next hfst =>
      refine ⟨h.withPc trivial, hcov.withPc (fun hpc' => ?_) (fun _ => eq_nil_of_first hfst) _⟩
      rw [hpc] at hpc'
      cases hpc'
    · next w hfst => exact h.activate (mem_of_first hfst) trivial
  · next size hpc =>
    have hgro : p.pc ≠ .passed p.active.length := by simp [hpc]
    have hgrw : p.pc ≠ .secondPass := by simp [hpc]
    split
    · next w hfst => exact h.activate (mem_of_first hfst) trivial
    · split
      · exact ⟨h.withPc trivial,
          hcov.withPc (fun hpc' => absurd hpc' hgro) (fun hpc' => absurd hpc' hgrw) _⟩
      · exact ⟨h.grow _ trivial, hcov.grow (fun hpc' => absurd hpc' hgro) hgrw⟩
  all_goals next hpc => exact absurd hstd (by rw [hpc]; exact id)

end Steps

/-! ## Runs -/

section Runs

variable {opts : Options} {p : Pool} {a : PoolAction}

lemma Covered.pushed (h : p.Covered opts) :
    (p.step opts .push).Covered opts ∧ (p.step opts .notify).Covered opts := by
  unfold Pool.step
  constructor
  · split_ifs with hpsh
    · exact h
    · exact .pushing rfl
  · split_ifs with hpsh
    · exact .told (mem_append_right _ mem_cons_self)
    · exact h

lemma Steady.pushed (h : p.Steady opts) : (p.step opts .push).Steady opts ∧ (p.step opts .notify).Steady opts := by
  have hpush := h.inv.step (a := .push) rfl
  have hnot := h.inv.step (a := .notify) rfl
  unfold Pool.step at hpush hnot ⊢
  constructor
  · split_ifs at hpush ⊢
    · exact h
    · exact { h with inv := hpush }
  · split_ifs at hnot ⊢
    · refine ⟨hnot, h.alive, h.pc, fun n hmem => h.unsized n ?_⟩
      simpa [enqueue] using hmem
    · exact h

lemma Steady.step (h : p.Steady opts) (hcov : p.Covered opts) (htmo : opts.idleTimeout = false)
    (hsize : ∀ n, a ≠ .setSize n) (hsvd : p.served opts a = true) :
    (p.step opts a).Tended opts := by
  cases a with
  | push => exact ⟨h.pushed.1, hcov.pushed.1⟩
  | notify => exact ⟨h.pushed.2, hcov.pushed.2⟩
  | setSize n => exact absurd rfl (hsize n)
  | wake w => exact h.wake hcov w
  | timeout w =>
    rw [show p.step opts (.timeout w) = p from timeout_eq htmo p w]
    exact ⟨h, hcov⟩
  | pop w => exact h.pop hcov w
  | finish w => exact h.finish hcov w
  | settle w => exact h.settle hcov w
  | die w =>
    rw [show p.step opts (.die w) = p from h.die w]
    exact ⟨h, hcov⟩
  | control choice => exact h.controlStep hcov hsvd

lemma step_of_no_workers (hwks : p.workers = []) (hpush : a ≠ .push) (hnot : a ≠ .notify)
    (hsize : ∀ n, a ≠ .setSize n) (hctl : ∀ choice, a ≠ .control choice) : p.step opts a = p := by
  cases a with
  | push => exact absurd rfl hpush
  | notify => exact absurd rfl hnot
  | setSize n => exact absurd rfl (hsize n)
  | control choice => exact absurd rfl (hctl choice)
  | wake w => simp [Pool.step, Pool.wake, hwks]
  | timeout w => simp [Pool.step, Pool.timeout, hwks]
  | pop w => simp [Pool.step, Pool.pop, hwks]
  | finish w => simp [Pool.step, Pool.finish, hwks]
  | settle w => simp [Pool.step, Pool.settle, hwks]
  | die w => simp [Pool.step, Pool.die, hwks]

lemma Unborn.controlStep (h : p.Unborn opts) (hcov : p.Covered opts) (choice : ℕ) :
    (p.controlStep opts choice).Tended opts := by
  obtain ⟨n, rest, hctl, hrest⟩ := h.sized
  have htail : Steady opts { p with control := rest } := by
    refine ⟨h.inv.tail hctl fun _ => rfl, fun w r hr => ?_, h.pc ▸ trivial, hrest⟩
    rw [h.workers] at hr
    simp at hr
  have hcov' : Covered opts { p with control := rest } := by
    cases hcov with
    | noTasks htsk => exact .noTasks htsk
    | engaged heng => exact .engaged heng
    | pushing hpsh => exact .pushing hpsh
    | told htold =>
      rw [hctl] at htold
      exact .told (by simpa using htold)
    | growing hpc' hgrow => exact .growing hpc' hgrow
    | grown hpc' hidle => exact .grown hpc' hidle
  have hnext : ∀ next : ControlPc, next.Steady → Tended opts { p with control := rest, pc := next } := by
    intro next hstd
    refine ⟨htail.withPc hstd, hcov'.withPc (fun hpc => ?_) (fun _ => h.idle) _⟩
    exact absurd (h.pc.symm.trans hpc) (by simp)
  have hcurrent : p.active.length + p.idle.length = 0 := by
    rw [h.active, h.idle]
    rfl
  have hstep : p.controlStep opts choice = Pool.beginTask choice { p with control := rest } (.setSize n) := by
    unfold Pool.controlStep
    simp [h.pc, hctl]
  rw [hstep]
  simp only [Pool.beginTask]
  split_ifs with hsame hless
  · exact hnext .ready trivial
  · exact hnext (.activating (some n)) trivial
  · omega

lemma Unborn.step (h : p.Unborn opts) (hcov : p.Covered opts) (hsize : ∀ n, a ≠ .setSize n) :
    ((p.step opts a).Unborn opts ∨ (p.step opts a).Steady opts) ∧ (p.step opts a).Covered opts := by
  have hinv := h.inv.step (a := a)
  by_cases hpush : a = .push
  · subst hpush
    refine ⟨Or.inl ?_, hcov.pushed.1⟩
    have hinv' := hinv rfl
    unfold Pool.step at hinv' ⊢
    split_ifs at hinv' ⊢
    · exact h
    · exact { h with inv := hinv' }
  by_cases hnot : a = .notify
  · subst hnot
    refine ⟨Or.inl ?_, hcov.pushed.2⟩
    have hinv' := hinv rfl
    unfold Pool.step at hinv' ⊢
    split_ifs at hinv' ⊢
    · obtain ⟨n, rest, hctl, hrest⟩ := h.sized
      refine ⟨hinv', h.workers, h.active, h.idle, h.pc, n, rest ++ [.taskPushed], ?_, fun m hmem => hrest m ?_⟩
      · simp [enqueue, hctl]
      · simpa using hmem
    · exact h
  by_cases hctl : ∃ choice, a = .control choice
  · obtain ⟨choice, rfl⟩ := hctl
    obtain ⟨hstd, hcov'⟩ := h.controlStep hcov choice
    exact ⟨.inr hstd, hcov'⟩
  · rw [step_of_no_workers h.workers hpush hnot hsize fun choice hc => hctl ⟨choice, hc⟩]
    exact ⟨.inl h, hcov⟩

lemma create_unborn (opts : Options) : (create opts).Unborn opts :=
  ⟨create_inv opts, rfl, rfl, rfl, rfl, opts.initialSize, [], rfl, fun _ hmem => by cases hmem⟩

/-- What holds of the pool between the actions. -/
def Attended (opts : Options) (p : Pool) : Prop := (p.Unborn opts ∨ p.Steady opts) ∧ p.Covered opts

lemma Attended.step (h : p.Attended opts) (htmo : opts.idleTimeout = false) {a : PoolAction} (hsize : ∀ n, a ≠ .setSize n)
    (hsvd : p.served opts a = true) : (p.step opts a).Attended opts := by
  obtain ⟨hunborn | hstd, hcov⟩ := h
  · exact hunborn.step hcov hsize
  · obtain ⟨hstd', hcov'⟩ := hstd.step hcov htmo hsize hsvd
    exact ⟨.inr hstd', hcov'⟩

end Runs

end Pool

/-- **No task is left behind** when a pool without timeouts and changes of the size comes to rest,
in all interleavings, as long as every push that is handled finds a worker that is engaged or idle,
or room for another one, or is followed by another push. -/
theorem poolRun_quiescent (opts : Options) (htimeout : opts.idleTimeout = false) (actions : List PoolAction)
    (hsize : ∀ n, .setSize n ∉ actions)
    (hserved : Each (total (Pool.step opts)) (fun p a => p.served opts a) (Pool.create opts) actions)
    (hrest : ((Pool.create opts).run opts actions).Quiescent) :
    ((Pool.create opts).run opts actions).tasks = 0 := by
  have hattended : ((Pool.create opts).run opts actions).Attended opts :=
    hserved.foldl_inv (fun a ha _ h hsvd => h.step htimeout (fun n hn => hsize n (hn ▸ ha)) hsvd)
      ⟨.inl (Pool.create_unborn opts), .noTasks rfl⟩
  exact hrest.no_tasks hattended.2

/-- A pool with one worker, which executes a task and goes idle. -/
theorem poolRun_quiescent_one :
    (Pool.run ⟨false, 0, 1, 1⟩ (Pool.create ⟨false, 0, 1, 1⟩)
      [.control 0, .control 0, .control 0, .control 0, .wake 0, .push, .pop 0, .notify, .control 0, .control 0,
        .finish 0, .settle 0, .control 0]).tasks = 0 :=
  poolRun_quiescent ⟨false, 0, 1, 1⟩ rfl _ (by simp) (by decide) ⟨by decide, by decide, by decide, by decide⟩

/-- A task is pushed after a worker has looked at the queue for the last time, and handled before it
tells that it goes idle: the pool is at rest with an idle worker and a task in the queue. -/
theorem poolRun_stranded :
    let opts : Options := ⟨false, 0, 1, 1⟩
    let actions : List PoolAction :=
      [.control 0, .control 0, .control 0, .control 0, .wake 0, .pop 0, .push, .notify, .control 0, .control 0,
        .settle 0, .control 0]
    let p := (Pool.create opts).run opts actions
    p.pushing = false ∧ p.control = [] ∧ p.pc = .ready ∧ p.workers = [⟨.alive, false, .idle⟩] ∧ p.idle = [0] ∧
      p.engaged = false ∧ p.tasks = 1 := by
  decide

end Telephony.Threadpool
