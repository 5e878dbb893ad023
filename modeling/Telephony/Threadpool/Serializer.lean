import Telephony.Lib.Threads

/-!
# Serializers

A serializer is a taskprocessor whose tasks are run by the threads of a pool, one after the other:
the push that finds it empty queues one `execute_tasks` in the pool, which runs tasks until there
are none left.

Each action of the model is what one thread does from taking the lock of the taskprocessor to giving
it back, one call of `ast_threadpool_push`, or one step without the lock. A task that pushes tasks
is covered by a further thread that pushes.
-/

namespace Telephony.Threadpool

open Lib List

/-! ## The threads -/

/-- Source: `taskprocessor_push`, `serializer_task_pushed`, `execute_tasks`,
`ast_taskprocessor_execute` -/
inductive Place where
  | idle
  | pushed (wasEmpty : Bool)
  | execute
  | running (task : ℕ)
  | executed (more : Bool)
  deriving DecidableEq, Repr

/-- Source: `struct ast_taskprocessor` (`tps_queue`, `executing`) -/
structure Serializer where
  queue : List ℕ
  executing : Bool
  queued : ℕ
  threads : List Place
  history : List ℕ
  started : List ℕ
  finished : List ℕ
  deriving DecidableEq, Repr

inductive Action where
  | push (thread task : ℕ)
  | taskPushed (thread : ℕ)
  | dequeue (thread : ℕ)
  | pop (thread : ℕ)
  | done (thread : ℕ)
  | loop (thread : ℕ)
  deriving DecidableEq, Repr

namespace Serializer

def move (s : Serializer) (i : ℕ) (p : Place) : Serializer := { s with threads := s.threads.set i p }

/-- Source: `taskprocessor_push`, `serializer_task_pushed`, `execute_tasks`,
`ast_taskprocessor_execute` -/
def step (s : Serializer) : Action → Serializer
  | .push i t =>
    if s.threads[i]? = some .idle then
      let wasEmpty := if s.executing then false else s.queue.length = 0
      { s.move i (.pushed wasEmpty) with queue := s.queue ++ [t], history := s.history ++ [t] }
    else s
  | .taskPushed i =>
    match s.threads[i]? with
    | some (.pushed wasEmpty) =>
      { s.move i .idle with queued := if wasEmpty then s.queued + 1 else s.queued }
    | _ => s
  | .dequeue i =>
    if s.threads[i]? = some .idle ∧ 0 < s.queued then
      { s.move i .execute with queued := s.queued - 1 }
    else s
  | .pop i =>
    if s.threads[i]? = some .execute then
      match s.queue with
      | [] => s.move i (.executed false)
      | t :: queue =>
        { s.move i (.running t) with queue := queue, executing := true, started := s.started ++ [t] }
    else s
  | .done i =>
    match s.threads[i]? with
    | some (.running t) =>
      { s.move i (.executed (0 < s.queue.length)) with executing := false, finished := s.finished ++ [t] }
    | _ => s
  | .loop i =>
    match s.threads[i]? with
    | some (.executed more) => s.move i (if more then .execute else .idle)
    | _ => s

def start (threads : ℕ) : Serializer := ⟨[], false, 0, List.replicate threads .idle, [], [], []⟩

def run (s : Serializer) (actions : List Action) : Serializer := actions.foldl step s

end Serializer

/-! ## What each step keeps -/

def Place.isRunning : Place → Bool
  | .running _ => true
  | _ => false

/-- A thread that is about to queue an `execute_tasks`, or whose `execute_tasks` may still take
tasks. -/
def Place.isCharged : Place → Bool
  | .idle => false
  | .pushed wasEmpty => wasEmpty
  | .execute => true
  | .running _ => true
  | .executed more => more

def Place.inExecuteTasks : Place → Bool
  | .idle => false
  | .pushed _ => false
  | .execute => true
  | .running _ => true
  | .executed _ => true

namespace Serializer

/-- Those who see to it that the tasks are run: the `execute_tasks` in the pool, the pushes that are
about to queue one, and the running ones that have not seen the queue empty. -/
def charged (s : Serializer) : ℕ := s.queued + s.threads.countP Place.isCharged

structure Inv (s : Serializer) : Prop where
  order : s.started ++ s.queue = s.history
  running : s.threads.countP Place.isRunning = if s.executing then 1 else 0
  idle : s.executing = false → s.started = s.finished
  serial : s.executing = true →
    ∃ t, s.started = s.finished ++ [t] ∧ ∀ p ∈ s.threads, p.isRunning = true → p = .running t
  charged : s.charged = if s.queue ≠ [] ∨ s.executing = true then 1 else 0

lemma inv_start (threads : ℕ) : (start threads).Inv where
  order := rfl
  running := by simp [start, Place.isRunning]
  idle := fun _ => rfl
  serial := fun h => by cases h
  charged := by simp [start, Serializer.charged, Place.isCharged]

section Step

variable {s : Serializer} {i t : ℕ}

lemma Inv.move_outside {p q : Place} (h : s.Inv) (hi : s.threads[i]? = some p) (hp : p.isRunning = false)
    (hq : q.isRunning = false) :
    ((s.threads.set i q).countP Place.isRunning = if s.executing then 1 else 0) ∧
      (s.executing = true → ∃ t, s.started = s.finished ++ [t] ∧
        ∀ p ∈ s.threads.set i q, p.isRunning = true → p = .running t) := by
  have hrunn := countP_set_add Place.isRunning q hi
  simp only [hp, hq] at hrunn
  refine ⟨(Nat.add_right_cancel hrunn).trans h.running, fun hexec => ?_⟩
  obtain ⟨t, hstarted, hall⟩ := h.serial hexec
  refine ⟨t, hstarted, fun p' hp' hrun => ?_⟩
  rcases mem_or_eq_of_mem_set hp' with hmem | rfl
  · exact hall p' hmem hrun
  · rw [hq] at hrun
    cases hrun

lemma Inv.before_pop (h : s.Inv) (hi : s.threads[i]? = some .execute) :
    s.executing = false ∧ s.queue ≠ [] ∧ s.queued = 0 ∧ s.threads.countP Place.isCharged = 1 := by
  have hchg := h.charged
  -- the thread itself is charged, and with it gone from the count no other one is
  have hself := countP_set_add Place.isCharged .idle hi
  have hrunn := countP_set_add Place.isRunning .idle hi
  simp only [Place.isCharged, Place.isRunning, if_true, Bool.false_eq_true, if_false] at hself hrunn
  have hle : (s.threads.set i .idle).countP Place.isRunning ≤ (s.threads.set i .idle).countP Place.isCharged :=
    countP_mono_left fun p _ hp => by cases p <;> simp_all [Place.isRunning, Place.isCharged]
  have hrun := h.running
  unfold Serializer.charged at hchg
  cases hexec : s.executing with
  | true =>
    simp only [hexec, or_true] at hrun hchg
    omega
  | false =>
    simp only [hexec, Bool.false_eq_true, or_false] at hchg
    by_cases hque : s.queue ≠ []
    · rw [if_pos hque] at hchg
      exact ⟨rfl, hque, by omega, by omega⟩
    · rw [if_neg hque] at hchg
      omega

lemma Inv.push (h : s.Inv) (hi : s.threads[i]? = some .idle) (t : ℕ) :
    Inv { s.move i (.pushed (if s.executing then false else s.queue.length = 0)) with
      queue := s.queue ++ [t], history := s.history ++ [t] } := by
  obtain ⟨wasEmpty, hemp⟩ : ∃ wasEmpty : Bool,
      wasEmpty = if s.executing then false else decide (s.queue.length = 0) := ⟨_, rfl⟩
  rw [← hemp]
  obtain ⟨hrun, hserial⟩ := h.move_outside (q := .pushed wasEmpty) hi rfl rfl
  have hcnt := countP_set_add Place.isCharged (.pushed wasEmpty) hi
  have hchg := h.charged
  refine ⟨?_, hrun, h.idle, hserial, ?_⟩
  · change s.started ++ (s.queue ++ [t]) = s.history ++ [t]
    rw [← h.order, append_assoc]
  simp only [Serializer.charged] at hchg
  simp only [Place.isCharged, Bool.false_eq_true, if_false] at hcnt
  rw [if_pos (.inl (by simp))]
  change s.queued + (s.threads.set i (.pushed wasEmpty)).countP Place.isCharged = 1
  cases hexec : s.executing with
  | true =>
    simp only [hexec, if_true, or_true] at hemp hchg
    rw [hemp] at hcnt ⊢
    simp only [Bool.false_eq_true, if_false] at hcnt
    omega
  | false =>
    simp only [hexec, Bool.false_eq_true, or_false] at hemp hchg
    by_cases hque : s.queue = []
    · rw [if_neg (not_not.mpr hque)] at hchg
      have htrue : wasEmpty = true := by simp [hemp, hque]
      rw [htrue] at hcnt ⊢
      simp only [if_true] at hcnt
      omega
    rw [if_pos hque] at hchg
    have hfal : wasEmpty = false := by simp [hemp, hque]
    rw [hfal] at hcnt ⊢
    simp only [Bool.false_eq_true, if_false] at hcnt
    omega

lemma Inv.handOver {p q : Place} {queued : ℕ} (h : s.Inv) (hi : s.threads[i]? = some p)
    (hp : p.isRunning = false) (hq : q.isRunning = false)
    (hsame : queued + (if q.isCharged then 1 else 0) = s.queued + (if p.isCharged then 1 else 0)) :
    Inv { s.move i q with queued := queued } := by
  obtain ⟨hrun, hserial⟩ := h.move_outside hi hp hq
  have hcnt := countP_set_add Place.isCharged q hi
  refine ⟨h.order, hrun, h.idle, hserial, ?_⟩
  refine Eq.trans ?_ h.charged
  simp only [Serializer.charged, Serializer.move]
  omega

lemma Inv.pop (h : s.Inv) (hi : s.threads[i]? = some .execute) {queue : List ℕ} (hque : s.queue = t :: queue) :
    Inv { s.move i (.running t) with queue := queue, executing := true, started := s.started ++ [t] } := by
  obtain ⟨hexec, -, hqueued, hchg⟩ := h.before_pop hi
  have hnone : s.threads.countP Place.isRunning = 0 := by rw [h.running, hexec]; rfl
  have hrunn := countP_set_add Place.isRunning (.running t) hi
  have hcnt := countP_set_add Place.isCharged (.running t) hi
  simp only [Place.isCharged, Place.isRunning, if_true, Bool.false_eq_true, if_false] at hrunn hcnt
  refine ⟨?_, ?_, (fun hfal => by cases hfal), fun _ => ⟨t, ?_, fun p hp hrun => ?_⟩, ?_⟩
  · change (s.started ++ [t]) ++ queue = s.history
    rw [← h.order, hque, append_assoc]
    rfl
  · change (s.threads.set i (.running t)).countP Place.isRunning = 1
    omega
  · change s.started ++ [t] = s.finished ++ [t]
    rw [h.idle hexec]
  · rcases mem_or_eq_of_mem_set hp with hmem | rfl
    · exact absurd hrun (countP_eq_zero.mp hnone p hmem)
    · rfl
  · rw [if_pos (.inr rfl)]
    change s.queued + (s.threads.set i (.running t)).countP Place.isCharged = 1
    omega

lemma Inv.done (h : s.Inv) (hi : s.threads[i]? = some (.running t)) :
    Inv { s.move i (.executed (0 < s.queue.length)) with
      executing := false, finished := s.finished ++ [t] } := by
  have hmem : Place.running t ∈ s.threads := mem_of_getElem? hi
  have hpos : 0 < s.threads.countP Place.isRunning := countP_pos_iff.mpr ⟨_, hmem, rfl⟩
  have hexec : s.executing = true := by
    by_contra hexec
    have hnone := h.running
    rw [if_neg hexec] at hnone
    omega
  have hone := h.running
  rw [if_pos hexec] at hone
  obtain ⟨t', hstarted, hall⟩ := h.serial hexec
  have hsame : t = t' := Place.running.inj (hall _ hmem rfl)
  have hchg := h.charged
  rw [if_pos (.inr hexec)] at hchg
  simp only [Serializer.charged] at hchg
  obtain ⟨more, hmore⟩ : ∃ more : Bool, more = decide (0 < s.queue.length) := ⟨_, rfl⟩
  rw [← hmore]
  have hrun := countP_set_add Place.isRunning (.executed more) hi
  have hcnt := countP_set_add Place.isCharged (.executed more) hi
  simp only [Place.isCharged, Place.isRunning, if_true, Bool.false_eq_true, if_false] at hrun hcnt
  refine ⟨h.order, ?_, fun _ => ?_, (fun htrue => by cases htrue), ?_⟩
  · change (s.threads.set i (.executed more)).countP Place.isRunning = 0
    omega
  · change s.started = s.finished ++ [t]
    rw [hstarted, hsame]
  · change s.queued + (s.threads.set i (.executed more)).countP Place.isCharged =
      if s.queue ≠ [] ∨ false = true then 1 else 0
    have hque : more = true ↔ s.queue ≠ [] ∨ false = true := by
      rw [hmore, decide_eq_true_eq, length_pos_iff]
      simp
    cases more with
    | true =>
      rw [if_pos (hque.mp rfl)]
      simp only [if_true] at hcnt
      omega
    | false =>
      rw [if_neg fun hne => by cases hque.mpr hne]
      simp only [Bool.false_eq_true, if_false] at hcnt
      omega

lemma Inv.step (h : s.Inv) (a : Action) : (s.step a).Inv := by
  cases a with
  | push i t =>
    by_cases hi : s.threads[i]? = some .idle
    · rw [Serializer.step, if_pos hi]
      exact h.push hi t
    · rwa [Serializer.step, if_neg hi]
  | taskPushed i =>
    simp only [Serializer.step]
    split
    · next wasEmpty hi =>
      refine h.handOver hi rfl rfl ?_
      cases wasEmpty <;> simp [Place.isCharged]
    · exact h
  | dequeue i =>
    simp only [Serializer.step]
    split_ifs with hi
    · refine h.handOver hi.1 rfl rfl ?_
      simp only [Place.isCharged, if_true, Bool.false_eq_true, if_false]
      omega
    · exact h
  | pop i =>
    simp only [Serializer.step]
    split_ifs with hi
    · split
      · next hque => exact absurd hque (h.before_pop hi).2.1
      · next t queue hque => exact h.pop hi hque
    · exact h
  | done i =>
    simp only [Serializer.step]
    split
    · next t hi => exact h.done hi
    · exact h
  | loop i =>
    simp only [Serializer.step]
    split
    · next more hi =>
      have hkeep : ∀ q : Place, q.isRunning = false → q.isCharged = more → (s.move i q).Inv :=
        fun q hq hmore => @Inv.handOver s i _ q s.queued h hi rfl hq (by rw [hmore]; rfl)
      cases more with
      | true => exact hkeep .execute rfl rfl
      | false => exact hkeep .idle rfl rfl
    · exact h

end Step

end Serializer

/-! ## Every interleaving -/

/-- **The guarantee of a serializer** in every interleaving: the tasks are started in the order in
which they were pushed, each once the one before it is done, at most one thread is in a task, and as
long as there are tasks exactly one is charged with them. -/
theorem serializerRun_serial (threads : ℕ) (actions : List Action) :
    let s := (Serializer.start threads).run actions
    s.started ++ s.queue = s.history ∧
      (s.started = s.finished ∨ ∃ t, s.started = s.finished ++ [t]) ∧
      s.threads.countP Place.isRunning ≤ 1 ∧
      (s.queue ≠ [] → s.charged = 1) := by
  intro s
  have h : s.Inv := List.foldlRecOn actions _ (Serializer.inv_start threads) fun _ h a _ => h.step a
  refine ⟨h.order, ?_, ?_, fun hque => ?_⟩
  · cases hexec : s.executing with
    | true =>
      obtain ⟨t, ht, -⟩ := h.serial hexec
      exact .inr ⟨t, ht⟩
    | false => exact .inl (h.idle hexec)
  · rw [h.running]
    split_ifs <;> omega
  · rw [h.charged, if_pos (.inl hque)]

def Serializer.executeTasks (s : Serializer) : ℕ := s.queued + s.threads.countP Place.inExecuteTasks

/-- With a task in the queue there is none while the push is about to queue it, and there are two
while the one that has seen the queue empty has not returned. -/
theorem serializerRun_none_or_two :
    ((Serializer.start 2).run [.push 0 1]).queue = [1] ∧
      ((Serializer.start 2).run [.push 0 1]).executeTasks = 0 ∧
      ((Serializer.start 2).run [.push 0 1, .taskPushed 0, .dequeue 1, .pop 1, .done 1, .push 0 2,
        .taskPushed 0]).queue = [2] ∧
      ((Serializer.start 2).run [.push 0 1, .taskPushed 0, .dequeue 1, .pop 1, .done 1, .push 0 2,
        .taskPushed 0]).executeTasks = 2 := by
  decide

end Telephony.Threadpool
