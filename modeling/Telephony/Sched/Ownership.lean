import Telephony.Sched.Context
import Mathlib.Data.List.Perm.Basic
import Mathlib.Data.List.Nodup
import Telephony.Lib.Runs

/-!
# Ownership of tasks and ids

Between two actions a task is in the heap, in the cache, running, waited for, or its memory is free.
Within an action it may be in the hand of the thread that has the lock. `Owned` says so, and that
each id is held once; each function takes a task into the hand or puts it somewhere.
-/

namespace Telephony.Sched

open Lib List Function Option Nat

/-! ## Where a task can be -/

def Context.Live (con : Context) (hand : List ℕ) (p : ℕ) : Prop :=
  0 < hand.count p + con.heap.count p + (con.frames.map Frame.task).count p + (con.waiters.map Waiter.task).count p

/-- A task is at one place, but for a task that is running and waited for. -/
def Context.Once (con : Context) (hand : List ℕ) (p : ℕ) : Prop :=
  hand.count p + con.heap.count p + con.schedc.count p + (con.frames.map Frame.task).count p ≤ 1 ∧
    hand.count p + con.heap.count p + con.schedc.count p + (con.waiters.map Waiter.task).count p ≤ 1

/-- Source: `struct ast_sched_context` (`sched_heap`, `schedc`, `currently_executing`) -/
structure Places (con : Context) (hand : List ℕ) : Prop where
  once : ∀ p, con.Once hand p
  cache_lt : ∀ p ∈ con.schedc, p < con.allocated
  live_lt : ∀ p, con.Live hand p → p < con.allocated

/-- Source: `struct sched` (`sched_id`, `deleted`) -/
structure Marked (con : Context) : Prop where
  heap : ∀ p ∈ con.heap, (con.tasks p).schedId.isSome ∧ (con.tasks p).deleted = false
  cache : ∀ p ∈ con.schedc, (con.tasks p).schedId = none
  frame : ∀ f ∈ con.frames, (con.tasks f.task).schedId.isSome ∧ (con.tasks f.task).job = f.job
  waiter : ∀ w ∈ con.waiters, (con.tasks w.task).schedId = some w.id ∧ (con.tasks w.task).deleted = true

/-- A task that is in use was not released, and no task was released twice.
Source: `sched_release` -/
structure Jobs (con : Context) (hand : List ℕ) : Prop where
  lt : ∀ p, con.Live hand p → (con.tasks p).job < con.jobs
  new : ∀ p, con.Live hand p → (con.tasks p).job ∉ con.released
  inj : ∀ p q, con.Live hand p → con.Live hand q → (con.tasks p).job = (con.tasks q).job → p = q
  released_lt : ∀ j ∈ con.released, j < con.jobs
  released_nodup : con.released.Nodup
  deletedOk : ∀ j ∈ con.deletedOk, j ∈ con.released

def Context.heldIds (con : Context) : List ℕ :=
  (range con.allocated).filterMap fun p => (con.tasks p).schedId

/-- Each id is in the queue or held by one task, and not both.
Source: `struct sched_id` -/
def IdsExact (con : Context) : Prop :=
  (con.idQueue ++ con.heldIds).Perm (List.range' 1 con.idQueueSize)

/-- At most one callback runs, and the context knows it.
Source: `struct ast_sched_context` (`currently_executing`, `executing_thread_id`) -/
structure Runs (con : Context) : Prop where
  single : con.frames.length ≤ 1
  executing : con.currentlyExecuting = con.frames.head?.map Frame.task
  thread : ∀ f ∈ con.frames, con.executingThreadId = f.thread

structure Owned (con : Context) (hand : List ℕ) : Prop where
  places : Places con hand
  marked : Marked con
  jobs : Jobs con hand
  ids : IdsExact con
  runs : Runs con

/-! ## Held ids -/

lemma filterMap_update_perm {l : List ℕ} (hl : l.Nodup) {p : ℕ} (hp : p ∈ l) (f : ℕ → Option ℕ)
    (x : Option ℕ) :
    (l.filterMap (update f p x)).Perm (x.toList ++ (l.erase p).filterMap f) := by
  have hperm := (perm_cons_erase hp).filterMap (update f p x)
  have hrest : (l.erase p).filterMap (update f p x) = (l.erase p).filterMap f := by
    refine filterMap_congr fun q hq => ?_
    have hne : q ≠ p := (hl.mem_erase_iff.mp hq).1
    rw [update_of_ne hne]
  refine hperm.trans ?_
  rw [filterMap_cons, update_self, hrest]
  cases x <;> exact List.Perm.refl _

section Ids

variable {con : Context} {p q : ℕ} {task : Task}

@[simp] lemma set_tasks_self : (con.set p task).tasks p = task := update_self ..

lemma set_tasks_of_ne (hq : q ≠ p) : (con.set p task).tasks q = con.tasks q := update_of_ne hq ..

lemma heldIds_set (hp : p < con.allocated) (task : Task) :
    (con.set p task).heldIds.Perm
      (task.schedId.toList ++ ((range con.allocated).erase p).filterMap fun q => (con.tasks q).schedId) := by
  have hupd : (fun q => ((con.set p task).tasks q).schedId) =
      update (fun q => (con.tasks q).schedId) p task.schedId := by
    funext q
    by_cases hq : q = p
    · subst hq
      simp
    · simp [Context.set, update_of_ne hq]
  unfold Context.heldIds
  rw [hupd]
  exact filterMap_update_perm nodup_range (mem_range.mpr hp) _ _

lemma heldIds_eq (hp : p < con.allocated) :
    con.heldIds.Perm
      ((con.tasks p).schedId.toList ++ ((range con.allocated).erase p).filterMap fun q => (con.tasks q).schedId) := by
  have hset := heldIds_set hp (con.tasks p)
  rwa [Context.set, update_eq_self] at hset

section

variable (h : IdsExact con)
include h

lemma IdsExact.take {id : ℕ} {idQueue : List ℕ} (hp : p < con.allocated)
    (hnone : (con.tasks p).schedId = none) (hque : con.idQueue = id :: idQueue)
    (htask : task.schedId = some id) : IdsExact { con.set p task with idQueue } := by
  have hset := heldIds_set hp task
  have heq := heldIds_eq hp
  rw [htask, toList_some] at hset
  rw [hnone, toList_none] at heq
  refine List.Perm.trans ?_ h
  rw [hque]
  exact (List.Perm.append_left idQueue (hset.trans (heq.symm.cons id))).trans perm_middle

lemma IdsExact.give (hp : p < con.allocated) (htask : task.schedId = none) :
    IdsExact { con.set p task with idQueue := con.idQueue ++ (con.tasks p).schedId.toList } := by
  have hset := heldIds_set hp task
  rw [htask, toList_none] at hset
  refine List.Perm.trans ?_ h
  refine (List.Perm.append_left _ hset).trans ?_
  rw [append_assoc]
  exact List.Perm.append_left _ (heldIds_eq hp).symm

lemma IdsExact.alloc {schedc : List ℕ} {schedccnt jobs : ℕ} (htask : task.schedId = none) :
    IdsExact { con.set con.allocated task with schedc, schedccnt, allocated := con.allocated + 1, jobs } := by
  have hlast : [con.allocated].filterMap (fun p => ((con.set con.allocated task).tasks p).schedId) = [] := by
    simp [htask]
  have hsame : (range con.allocated).filterMap (fun p => ((con.set con.allocated task).tasks p).schedId) =
      con.heldIds := by
    refine filterMap_congr fun q hq => ?_
    rw [set_tasks_of_ne (mem_range.mp hq).ne]
  simp only [IdsExact, Context.heldIds, range_succ, filterMap_append]
  rwa [hlast, hsame, append_nil]

lemma IdsExact.edit (htask : task.schedId = (con.tasks p).schedId) : IdsExact (con.set p task) := by
  have hheld : (con.set p task).heldIds = con.heldIds := by
    refine filterMap_congr fun q _ => ?_
    by_cases hq : q = p
    · subst hq
      rw [set_tasks_self, htask]
    · rw [set_tasks_of_ne hq]
  unfold IdsExact
  rwa [hheld]

end

end Ids

/-! ## A task in the hand -/

section Hand

variable {con con' : Context} {p q id : ℕ} {task : Task} {hand hand' : List ℕ}

structure Away (con : Context) (p : ℕ) : Prop where
  heap : p ∉ con.heap
  cache : p ∉ con.schedc
  frame : p ∉ con.frames.map Frame.task
  waiter : p ∉ con.waiters.map Waiter.task

lemma count_cons_eq (p q : ℕ) (l : List ℕ) : (p :: l).count q = (if q = p then 1 else 0) + l.count q := by
  rw [count_cons, Nat.add_comm]
  simp only [beq_iff_eq, @eq_comm ℕ p]

lemma Places.away (h : Places con [p]) : Away con p := by
  have hone := h.once p
  rw [Context.Once, count_singleton_self] at hone
  constructor
  all_goals
    rw [← count_eq_zero]
    omega

lemma live_hand : con.Live [p] q ↔ q = p ∨ con.Live [] q := by
  simp only [Context.Live, count_cons_eq, count_nil]
  split_ifs <;> omega

lemma Places.not_live (h : Places con [p]) : ¬ con.Live [] p := by
  have hone := h.once p
  rw [Context.Once, count_singleton_self] at hone
  rw [Context.Live, count_nil]
  omega

lemma Places.drop (h : Places con [p]) : Places con [] := by
  refine ⟨fun q => ?_, h.cache_lt, fun q hq => h.live_lt q (live_hand.mpr (.inr hq))⟩
  have hone := h.once q
  simp only [Context.Once, count_cons_eq, count_nil] at hone ⊢
  omega

lemma Marked.set (h : Marked con) (haway : Away con p) : Marked (con.set p task) := by
  refine ⟨fun q hq => ?_, fun q hq => ?_, fun f hf => ?_, fun w hw => ?_⟩
  · rw [set_tasks_of_ne (ne_of_mem_of_not_mem hq haway.heap)]
    exact h.heap q hq
  · rw [set_tasks_of_ne (ne_of_mem_of_not_mem hq haway.cache)]
    exact h.cache q hq
  · rw [set_tasks_of_ne (ne_of_mem_of_not_mem (mem_map_of_mem hf) haway.frame)]
    exact h.frame f hf
  · rw [set_tasks_of_ne (ne_of_mem_of_not_mem (mem_map_of_mem hw) haway.waiter)]
    exact h.waiter w hw

lemma Marked.deleted (h : Marked con) (hp : p ∈ con.waiters.map Waiter.task) : (con.tasks p).deleted = true := by
  obtain ⟨w, hw, rfl⟩ := mem_map.mp hp
  exact (h.waiter w hw).2

lemma job_set (hjob : task.job = (con.tasks p).job) (q : ℕ) : ((con.set p task).tasks q).job = (con.tasks q).job := by
  by_cases hq : q = p
  · subst hq
    rw [set_tasks_self, hjob]
  · rw [set_tasks_of_ne hq]

lemma Jobs.mono (h : Jobs con hand) (hlive : ∀ q, con'.Live hand' q → con.Live hand q)
    (hjob : ∀ q, (con'.tasks q).job = (con.tasks q).job) (hjobs : con'.jobs = con.jobs)
    (hrel : con'.released = con.released) (hdel : con'.deletedOk = con.deletedOk) :
    Jobs con' hand' := by
  refine ⟨fun q hq => ?_, fun q hq => ?_, fun q r hq hr heq => ?_, ?_, ?_, ?_⟩
  · rw [hjob, hjobs]
    exact h.lt q (hlive q hq)
  · rw [hjob, hrel]
    exact h.new q (hlive q hq)
  · rw [hjob, hjob] at heq
    exact h.inj q r (hlive q hq) (hlive r hr) heq
  · rw [hrel, hjobs]
    exact h.released_lt
  · rw [hrel]
    exact h.released_nodup
  · rw [hrel, hdel]
    exact h.deletedOk

lemma Owned.edit (h : Owned con [p]) (hid : task.schedId = (con.tasks p).schedId)
    (hjob : task.job = (con.tasks p).job) : Owned (con.set p task) [p] :=
  ⟨{ h.places with }, h.marked.set h.places.away,
    h.jobs.mono (fun _ hq => hq) (job_set hjob) rfl rfl rfl, h.ids.edit hid, { h.runs with }⟩

lemma Owned.touch (h : Owned con hand) (hid : task.schedId = (con.tasks p).schedId)
    (hjob : task.job = (con.tasks p).job) (hdel : task.deleted = (con.tasks p).deleted) :
    Owned (con.set p task) hand := by
  have hsame : ∀ q, ((con.set p task).tasks q).schedId = (con.tasks q).schedId ∧
      ((con.set p task).tasks q).deleted = (con.tasks q).deleted := by
    intro q
    by_cases hq : q = p
    · subst hq
      rw [set_tasks_self]
      exact ⟨hid, hdel⟩
    · rw [set_tasks_of_ne hq]
      exact ⟨rfl, rfl⟩
  refine ⟨{ h.places with }, ⟨fun q hq => ?_, fun q hq => ?_, fun f hf => ?_, fun w hw => ?_⟩,
    h.jobs.mono (fun _ hq => hq) (job_set hjob) rfl rfl rfl, h.ids.edit hid, { h.runs with }⟩
  · rw [(hsame q).1, (hsame q).2]
    exact h.marked.heap q hq
  · rw [(hsame q).1]
    exact h.marked.cache q hq
  · rw [(hsame f.task).1, job_set hjob]
    exact h.marked.frame f hf
  · rw [(hsame w.task).1, (hsame w.task).2]
    exact h.marked.waiter w hw

lemma Jobs.release (h : Jobs con [p]) (hp : con.Live [p] p) (hjob : ∀ q, (con'.tasks q).job = (con.tasks q).job)
    (hlive : ∀ q, con'.Live [] q → con.Live [p] q ∧ q ≠ p)
    (hrel : con'.released = con.released ++ [(con.tasks p).job]) (hcnt : con'.jobs = con.jobs)
    (hdel : con'.deletedOk = con.deletedOk) : Jobs con' [] := by
  refine ⟨fun q hq => ?_, fun q hq => ?_, fun q r hq hr heq => ?_, fun j hj => ?_, ?_, fun j hj => ?_⟩
  · rw [hjob, hcnt]
    exact h.lt q (hlive q hq).1
  · rw [hjob, hrel, mem_append, mem_singleton]
    rintro (hold | heq)
    · exact h.new q (hlive q hq).1 hold
    · exact (hlive q hq).2 (h.inj q p (hlive q hq).1 hp heq)
  · rw [hjob, hjob] at heq
    exact h.inj q r (hlive q hq).1 (hlive r hr).1 heq
  · rw [hrel, mem_append, mem_singleton] at hj
    rw [hcnt]
    rcases hj with hj | rfl
    · exact h.released_lt j hj
    · exact h.lt p hp
  · rw [hrel]
    exact concat_eq_append ▸ h.released_nodup.concat (h.new p hp)
  · rw [hdel] at hj
    rw [hrel]
    exact mem_append_left _ (h.deletedOk j hj)

lemma Owned.cache (h : Owned con []) (hfree : ¬ con.Live [] p) (hca : p ∉ con.schedc)
    (hlt : p < con.allocated) (hid : (con.tasks p).schedId = none) :
    Owned { con with schedc := p :: con.schedc, schedccnt := con.schedccnt + 1 } [] := by
  refine ⟨{ h.places with once := fun q => ?_, cache_lt := ?_ }, { h.marked with cache := ?_ }, { h.jobs with }, h.ids,
    { h.runs with }⟩
  · have hone := h.places.once q
    have hnone := count_eq_zero.mpr hca
    simp only [Context.Live, Context.Once, count_cons_eq, count_nil] at hfree hone ⊢
    split_ifs with hq
    · subst hq
      omega
    · omega
  · exact forall_mem_cons.mpr ⟨hlt, h.places.cache_lt⟩
  · exact forall_mem_cons.mpr ⟨hid, h.marked.cache⟩

/-- Tasks that change their place within the heap, the frames, the waiters and the hand. -/
lemma Owned.move (h : Owned con hand)
    (hsame : con'.schedc = con.schedc ∧ con'.allocated = con.allocated ∧ con'.jobs = con.jobs ∧
      con'.released = con.released ∧ con'.deletedOk = con.deletedOk)
    (hjob : ∀ q, (con'.tasks q).job = (con.tasks q).job) (hmrk : Marked con') (hids : IdsExact con')
    (hruns : Runs con')
    (hplaces : ∀ q, con.Once hand q → con'.Once hand' q ∧ (con'.Live hand' q → con.Live hand q)) :
    Owned con' hand' := by
  obtain ⟨hca, hal, hjobs, hrel, hdel⟩ := hsame
  have hlive := fun q => (hplaces q (h.places.once q)).2
  refine ⟨⟨fun q => (hplaces q (h.places.once q)).1, ?_, fun q hq => hal ▸ h.places.live_lt q (hlive q hq)⟩, hmrk,
    h.jobs.mono hlive hjob hjobs hrel hdel, hids, hruns⟩
  rw [hca, hal]
  exact h.places.cache_lt

lemma Owned.takeHeap (h : Owned con []) (hp : p ∈ con.heap) : Owned { con with heap := con.heap.erase p } [p] := by
  refine h.move ⟨rfl, rfl, rfl, rfl, rfl⟩ (fun _ => rfl)
    { h.marked with heap := fun q hq => h.marked.heap q (mem_of_mem_erase hq) } h.ids { h.runs with } fun q hone => ?_
  simp only [Context.Once, Context.Live, (perm_cons_erase hp).count_eq q, count_cons_eq, count_nil] at hone ⊢
  omega

section

variable (h : Owned con [p])
include h

/-- The task without its id, before its structure goes into the cache. -/
lemma Owned.forget : Owned { con.set p { con.tasks p with schedId := none } with
      idQueue := con.idQueue ++ (con.tasks p).schedId.toList
      released := con.released ++ [(con.tasks p).job] } [] := by
  have hp : con.Live [p] p := live_hand.mpr (.inl rfl)
  have hlive : ∀ q, con.Live [] q → con.Live [p] q ∧ q ≠ p := fun q hq =>
    ⟨live_hand.mpr (.inr hq), fun heq => h.places.not_live (heq ▸ hq)⟩
  have hset := @Marked.set con p { con.tasks p with schedId := none } h.marked h.places.away
  exact ⟨{ h.places.drop with }, { hset with }, h.jobs.release hp (job_set rfl) hlive rfl rfl rfl,
    h.ids.give (h.places.live_lt p hp) rfl, { h.runs with }⟩

lemma Owned.release : Owned (con.release p) [] := by
  have hplt := h.places.live_lt p (live_hand.mpr (.inl rfl))
  unfold Context.release
  dsimp only
  split_ifs
  · exact h.forget.cache h.places.not_live h.places.away.cache hplt (by simp)
  · exact h.forget

lemma Owned.schedule (hid : (con.tasks p).schedId.isSome)
    (hdel : (con.tasks p).deleted = false) : Owned (con.schedule p) [] := by
  unfold Context.schedule
  generalize (if con.heap.length = 0 then 0 else (con.tieBreaker + 1) % 2 ^ 32) = tie
  have hedit : Owned (con.set p { con.tasks p with tieBreaker := tie }) [p] := h.edit rfl rfl
  refine hedit.move ⟨rfl, rfl, rfl, rfl, rfl⟩ (fun _ => rfl) { hedit.marked with heap := ?_ } hedit.ids
    { h.runs with } fun q hone => ?_
  · exact forall_mem_append.mpr ⟨hedit.marked.heap, forall_mem_singleton.mpr (by simpa using ⟨hid, hdel⟩)⟩
  · simp only [Context.Once, Context.Live, Context.set, count_append, count_cons_eq, count_nil] at hone ⊢
    omega

lemma Owned.start (hfrs : con.frames = []) (hid : (con.tasks p).schedId.isSome) (thread : ℕ) (when : ℤ) : Owned
      { con with
        currentlyExecuting := some p
        executingThreadId := thread
        frames := ⟨thread, p, (con.tasks p).job, when⟩ :: con.frames } [] := by
  refine h.move ⟨rfl, rfl, rfl, rfl, rfl⟩ (fun _ => rfl)
    { h.marked with frame := forall_mem_cons.mpr ⟨⟨hid, rfl⟩, h.marked.frame⟩ } h.ids
    ⟨by simp [hfrs], rfl, by simp [hfrs]⟩ fun q hone => ?_
  simp only [Context.Once, Context.Live, map_cons, count_cons_eq, count_nil] at hone ⊢
  omega

end

lemma Owned.endFrame (h : Owned con []) {f : Frame} (hf : f ∈ con.frames) :
    con.frames = [f] ∧
      Owned { con with currentlyExecuting := none, frames := con.frames.erase f }
        (if (con.tasks f.task).deleted then [] else [f.task]) := by
  have hfrs : con.frames = [f] := by
    obtain ⟨g, hg⟩ := length_eq_one_iff.mp (le_antisymm h.runs.single (length_pos_of_mem hf))
    rw [hg] at hf
    rw [hg, mem_singleton.mp hf]
  have herase : con.frames.erase f = [] := by rw [hfrs, erase_cons_head]
  refine ⟨hfrs, ?_⟩
  rw [herase]
  refine h.move ⟨rfl, rfl, rfl, rfl, rfl⟩ (fun _ => rfl) { h.marked with frame := nofun } h.ids ⟨zero_le _, rfl, nofun⟩
    fun q hone => ?_
  simp only [Context.Once, Context.Live, hfrs, map_cons, map_nil, count_cons_eq, count_nil] at hone ⊢
  cases hdel : (con.tasks f.task).deleted with
  | true =>
    simp only [if_true, count_nil]
    omega
  | false =>
    have hnot : f.task ∉ con.waiters.map Waiter.task := fun hmem =>
      Bool.false_ne_true (hdel.symm.trans (h.marked.deleted hmem))
    simp only [Bool.false_eq_true, if_false, count_cons_eq, count_nil]
    split_ifs at * with hq
    · have hnone := count_eq_zero.mpr (hq ▸ hnot)
      omega
    · omega

lemma Owned.wait (h : Owned con []) (hp : con.currentlyExecuting = some p)
    (hdel : (con.tasks p).deleted = false) (hid : (con.tasks p).schedId = some id)
    (thread : ℕ) :
    Owned
      { con.set p { con.tasks p with deleted := true } with
        waiters := con.waiters ++ [⟨thread, p, id⟩] } [] := by
  have hfr : p ∈ con.frames.map Frame.task := by
    rw [h.runs.executing] at hp
    obtain ⟨f, hf, rfl⟩ := map_eq_some_iff.mp hp
    exact mem_map_of_mem (mem_of_head? hf)
  have hone := h.places.once p
  have hrun := count_pos_iff.mpr hfr
  rw [Context.Once, count_nil] at hone
  have hnh : p ∉ con.heap := count_eq_zero.mp (by omega)
  have hnc : p ∉ con.schedc := count_eq_zero.mp (by omega)
  have hnotWaiter : p ∉ con.waiters.map Waiter.task := fun hwait =>
    Bool.false_ne_true (hdel.symm.trans (h.marked.deleted hwait))
  refine h.move ⟨rfl, rfl, rfl, rfl, rfl⟩ (job_set rfl)
    ⟨fun q hq => ?_, fun q hq => ?_, fun f hf => ?_, ?_⟩ (h.ids.edit rfl) { h.runs with } fun q hone => ?_
  · have hne : q ≠ p := ne_of_mem_of_not_mem hq hnh
    simp only [set_tasks_of_ne hne]
    exact h.marked.heap q hq
  · have hne : q ≠ p := ne_of_mem_of_not_mem hq hnc
    simp only [set_tasks_of_ne hne]
    exact h.marked.cache q hq
  · by_cases heq : f.task = p
    · have hold := h.marked.frame f hf
      simp only [heq, set_tasks_self] at hold ⊢
      exact hold
    · simp only [set_tasks_of_ne heq]
      exact h.marked.frame f hf
  · refine forall_mem_append.mpr ⟨fun w hw => ?_, forall_mem_singleton.mpr ⟨by simpa using hid, by simp⟩⟩
    have hne : w.task ≠ p := ne_of_mem_of_not_mem (mem_map_of_mem hw) hnotWaiter
    simp only [set_tasks_of_ne hne]
    exact h.marked.waiter w hw
  · simp only [Context.Once, Context.Live, Context.set, map_append, map_singleton, count_append, count_cons_eq,
      count_nil] at hone ⊢
    split_ifs with hq
    · have hnone := count_eq_zero.mpr hnotWaiter
      subst hq
      omega
    · omega

lemma Owned.stopWait (h : Owned con []) {w : Waiter} (hw : w ∈ con.waiters)
    (hdone : w.task ∉ con.frames.map Frame.task) :
    Owned { con with waiters := con.waiters.erase w } [w.task] := by
  have hawt := fun q => ((perm_cons_erase hw).map Waiter.task).count_eq q
  refine h.move ⟨rfl, rfl, rfl, rfl, rfl⟩ (fun _ => rfl)
    { h.marked with waiter := fun v hv => h.marked.waiter v (mem_of_mem_erase hv) } h.ids { h.runs with }
    fun q hone => ?_
  simp only [Context.Once, Context.Live, hawt, map_cons, count_cons_eq, count_nil] at hone ⊢
  split_ifs at * with hq
  · have hnone := count_eq_zero.mpr (hq ▸ hdone)
    omega
  · omega

end Hand

/-! ## Allocation -/

section Alloc

variable {con : Context} {p : ℕ}

lemma Owned.take (h : Owned con []) {schedc : List ℕ} {schedccnt allocated : ℕ} {task : Task}
    (hfree : ¬ con.Live [] p) (hp : p < allocated) (hca : p ∉ schedc) (hsub : schedc.Sublist con.schedc)
    (hallocated : con.allocated ≤ allocated) (hjob : task.job = con.jobs)
    (hids : IdsExact { con.set p task with schedc, schedccnt, allocated, jobs := con.jobs + 1 }) :
    Owned { con.set p task with schedc, schedccnt, allocated, jobs := con.jobs + 1 } [p] := by
  obtain ⟨⟨hheap, hfr⟩, hwtr⟩ : (p ∉ con.heap ∧ p ∉ con.frames.map Frame.task) ∧ p ∉ con.waiters.map Waiter.task := by
    simpa only [Context.Live, count_nil, Nat.zero_add, Nat.not_lt, Nat.le_zero, Nat.add_eq_zero_iff, count_eq_zero]
      using hfree
  have hlive : ∀ q, Context.Live
      { con.set p task with schedc, schedccnt, allocated, jobs := con.jobs + 1 } [p] q →
      q = p ∨ con.Live [] q := fun _ => live_hand.mp
  have hoth : ∀ q, con.Live [] q → q ≠ p := by
    rintro q hq rfl
    exact hfree hq
  have hold : ∀ q, con.Live [] q → ((con.set p task).tasks q).job < con.jobs := by
    intro q hq
    rw [set_tasks_of_ne (hoth q hq)]
    exact h.jobs.lt q hq
  have hown : ((con.set p task).tasks p).job = con.jobs := by rw [set_tasks_self, hjob]
  have hset := @Marked.set { con with schedc } p task
    { h.marked with cache := fun q hq => h.marked.cache q (hsub.subset hq) }
    ⟨hheap, hca, hfr, hwtr⟩
  refine ⟨⟨fun q => ?_, fun q hq => ?_, fun q hq => ?_⟩, { hset with },
    ⟨fun q hq => ?_, fun q hq => ?_, fun q r hq hr heq => ?_, fun j hj => ?_, h.jobs.released_nodup,
      h.jobs.deletedOk⟩, hids, { h.runs with }⟩
  · have hone := h.places.once q
    have hle := hsub.count_le q
    simp only [Context.Once, Context.Live, Context.set, count_cons_eq, count_nil] at hfree hone ⊢
    split_ifs with hq
    · have hnone := count_eq_zero.mpr (hq ▸ hca)
      subst hq
      omega
    · omega
  · exact (h.places.cache_lt q (hsub.subset hq)).trans_le hallocated
  · rcases hlive q hq with rfl | hq
    · exact hp
    · exact (h.places.live_lt q hq).trans_le hallocated
  · rcases hlive q hq with rfl | hq
    · simp only [hown]
      exact lt_succ_self _
    · exact lt_succ_of_lt (hold q hq)
  · rcases hlive q hq with rfl | hq
    · simp only [hown]
      exact fun hmem => lt_irrefl _ (h.jobs.released_lt _ hmem)
    · simp only [set_tasks_of_ne (hoth q hq)]
      exact h.jobs.new q hq
  · simp only at heq
    rcases hlive q hq with hqp | hq' <;> rcases hlive r hr with hrp | hr'
    · rw [hqp, hrp]
    · have := hold r hr'
      rw [hqp] at heq
      omega
    · have := hold q hq'
      rw [hrp] at heq
      omega
    · rw [set_tasks_of_ne (hoth q hq'), set_tasks_of_ne (hoth r hr')] at heq
      exact h.jobs.inj q r hq' hr' heq
  · exact lt_succ_of_lt (h.jobs.released_lt j hj)

lemma takeStructure_owned (h : Owned con []) :
    Owned con.takeStructure.2 [con.takeStructure.1] ∧
      (con.takeStructure.2.tasks con.takeStructure.1).schedId = none := by
  unfold Context.takeStructure
  cases hca : con.schedc with
  | cons p schedc =>
    have hp : p ∈ con.schedc := hca ▸ mem_cons_self
    have hone := h.places.once p
    rw [Context.Once, hca, count_cons_self] at hone
    refine ⟨h.take (by unfold Context.Live; omega) (h.places.cache_lt p hp) (count_eq_zero.mp (by omega))
      (hca ▸ sublist_cons_self p schedc) le_rfl rfl
      (@IdsExact.edit con p { con.tasks p with job := con.jobs } h.ids rfl), ?_⟩
    simp only [set_tasks_self]
    exact h.marked.cache p hp
  | nil =>
    have hnot : ¬ con.Live [] con.allocated := fun hl => lt_irrefl _ (h.places.live_lt _ hl)
    refine ⟨h.take hnot (lt_succ_self con.allocated)
      (fun hq => lt_irrefl _ (h.places.cache_lt _ hq)) (List.Sublist.refl con.schedc)
      (le_succ con.allocated) rfl (h.ids.alloc rfl), by simp [Task.zero]⟩

lemma addIds_owned {hand : List ℕ} (h : Owned con hand) : Owned con.addIds hand := by
  refine ⟨{ h.places with }, { h.marked with }, { h.jobs with }, ?_, { h.runs with }⟩
  obtain ⟨n, hn⟩ : ∃ n, n = min (con.idQueueSize + idQueueIncrement) (2 ^ 31 - 1) - con.idQueueSize := ⟨_, rfl⟩
  have hsize : con.addIds.idQueueSize = con.idQueueSize + n := by
    simp only [Context.addIds]
    omega
  have hque : con.addIds.idQueue = con.idQueue ++ List.range' (con.idQueueSize + 1) n := by
    rw [hn]
    rfl
  have hrng : List.range' 1 (con.idQueueSize + n) =
      List.range' 1 con.idQueueSize ++ List.range' (con.idQueueSize + 1) n := by
    rw [← range'_append_1, Nat.add_comm 1]
  unfold IdsExact
  rw [hsize, hque, hrng]
  have hswap : (con.idQueue ++ List.range' (con.idQueueSize + 1) n ++ con.heldIds).Perm
      (con.idQueue ++ con.heldIds ++ List.range' (con.idQueueSize + 1) n) := by
    rw [append_assoc, append_assoc]
    exact List.Perm.append_left _ perm_append_comm
  exact hswap.trans (List.Perm.append_right _ h.ids)

lemma setSchedId_owned (h : Owned con [p]) (hnone : (con.tasks p).schedId = none) : Owned (con.setSchedId p).2 [p] ∧
      ((con.setSchedId p).1 = true → ((con.setSchedId p).2.tasks p).schedId.isSome) := by
  unfold Context.setSchedId
  obtain ⟨con₁, heq, h₁, hnone₁⟩ : ∃ con₁, (if con.idQueue = [] then con.addIds else con) = con₁ ∧
      Owned con₁ [p] ∧ (con₁.tasks p).schedId = none := by
    split_ifs
    · exact ⟨_, rfl, addIds_owned h, hnone⟩
    · exact ⟨_, rfl, h, hnone⟩
  simp only [heq]
  cases hque : con₁.idQueue with
  | nil => exact ⟨h₁, nofun⟩
  | cons id idQueue =>
    have haway := h₁.places.away
    have hp := h₁.places.live_lt p (live_hand.mpr (.inl rfl))
    have hmrk := @Marked.set con₁ p { con₁.tasks p with schedId := some id } h₁.marked haway
    refine ⟨⟨{ h₁.places with }, { hmrk with },
      h₁.jobs.mono (fun _ hq => hq) (job_set rfl) rfl rfl rfl, h₁.ids.take hp hnone₁ hque rfl,
      { h₁.runs with }⟩, fun _ => ?_⟩
    simp

lemma schedAlloc_owned (h : Owned con []) :
    (∃ con', con.schedAlloc = (none, con') ∧ Owned con' []) ∨
      ∃ p con', con.schedAlloc = (some p, con') ∧ Owned con' [p] ∧ (con'.tasks p).schedId.isSome := by
  obtain ⟨htk, hnone⟩ := takeStructure_owned h
  obtain ⟨hset, hid⟩ := setSchedId_owned htk hnone
  unfold Context.schedAlloc
  cases hok : (con.takeStructure.2.setSchedId con.takeStructure.1).1 with
  | false => exact .inl ⟨_, by simp [hok], hset.release⟩
  | true => exact .inr ⟨_, _, by simp [hok], hset, hid hok⟩

end Alloc

/-! ## Functions -/

section Functions

variable {con : Context} {p thread : ℕ}

lemma addVariable_owned (h : Owned con []) (ms : ℤ) (variableTime : Bool) (now : ℤ) :
    Owned (con.addVariable ms variableTime now) [] := by
  unfold Context.addVariable
  rcases schedAlloc_owned h with ⟨con', hal, h'⟩ | ⟨p, con', hal, h', hid⟩
  · rwa [hal]
  rw [hal]
  have hedit := @Owned.edit con' p
    { con'.tasks p with
      resched := ms, variableTime, when := schedSettime 0 ms now, deleted := false } h' rfl rfl
  exact hedit.schedule (by simpa using hid) (by simp)

lemma release_released (p : ℕ) : (con.release p).released = con.released ++ [(con.tasks p).job] := by
  unfold Context.release
  dsimp only
  split_ifs <;> rfl

/-- A thread that would wait for a running task that is marked as deleted already. -/
def Context.WaitsSecond (con : Context) (thread : ℕ) (id : ℤ) : Prop :=
  con.Executes id.toNat ∧ con.executingThreadId ≠ thread ∧ con.currentlyExecuting.any fun p => (con.tasks p).deleted

instance (con : Context) (thread : ℕ) (id : ℤ) : Decidable (con.WaitsSecond thread id) :=
  inferInstanceAs (Decidable (_ ∧ _))

lemma del_owned (h : Owned con []) {id : ℤ} (hsec : ¬ con.WaitsSecond thread id) : Owned (con.del thread id) [] := by
  unfold Context.del
  by_cases hneg : id < 0
  · rwa [if_pos hneg]
  rw [if_neg hneg]
  cases hfind : con.heap.find? fun p => (con.tasks p).schedId = some id.toNat with
  | some p =>
    have hrele := (h.takeHeap (mem_of_find?_eq_some hfind)).release
    have hrel := @release_released { con with heap := con.heap.erase p } p
    refine ⟨{ hrele.places with }, { hrele.marked with }, { hrele.jobs with deletedOk := fun j hj => ?_ },
      hrele.ids, { hrele.runs with }⟩
    simp only [hrel]
    rcases mem_append.mp hj with hj | hj
    · exact mem_append_left _ (h.jobs.deletedOk j hj)
    · exact mem_append_right _ hj
  | none =>
    cases hexec : con.currentlyExecuting with
    | none => exact h
    | some p =>
      simp only
      split_ifs with hwait
      · refine h.wait hexec ?_ hwait.1 thread
        by_contra hdel
        refine hsec ⟨?_, hwait.2, ?_⟩
        · simp [Context.Executes, hexec, hwait.1]
        · simpa [hexec] using hdel
      · exact h

lemma wake_owned (h : Owned con []) {w : Waiter} (hw : w ∈ con.waiters) : Owned (con.wake w) [] := by
  unfold Context.wake
  split_ifs with hexec
  · exact h
  refine (h.stopWait hw fun hfr => hexec ?_).release
  obtain ⟨f, hf, hfw⟩ := mem_map.mp hfr
  obtain ⟨hfrs, -⟩ := h.endFrame hf
  have hexecuting : con.currentlyExecuting = some w.task := by
    rw [h.runs.executing, hfrs, ← hfw]
    rfl
  simp [Context.Executes, hexecuting, (h.marked.waiter w hw).1]

lemma firstOf_mem {tasks : ℕ → Task} {l : List ℕ} (h : firstOf tasks l = some p) : p ∈ l := by
  induction l with
  | nil => exact absurd h (by simp [firstOf])
  | cons a l ih =>
    unfold firstOf at h
    cases hrest : firstOf tasks l with
    | none =>
      simp only [hrest, Option.some.injEq] at h
      exact h ▸ mem_cons_self
    | some q =>
      simp only [hrest] at h
      split_ifs at h
      · exact mem_cons_of_mem _ (ih (hrest.trans h))
      · rw [Option.some.injEq] at h
        exact h ▸ mem_cons_self

lemma runNext_owned (h : Owned con []) (hfrs : con.frames = []) (thread : ℕ) (when : ℤ) :
    Owned (con.runNext thread when) [] := by
  unfold Context.runNext
  cases hfst : firstOf con.tasks con.heap with
  | none => exact h
  | some p =>
    simp only
    split_ifs with hdue
    · have hp := firstOf_mem hfst
      exact (h.takeHeap hp).start hfrs (h.marked.heap p hp).1 thread when
    · exact h

lemma release_frames (p : ℕ) : (con.release p).frames = con.frames := by
  unfold Context.release
  dsimp only
  split_ifs <;> rfl

lemma settle_frames (p : ℕ) (res now : ℤ) : (con.settle p res now).frames = con.frames := by
  unfold Context.settle
  by_cases hdel : (con.tasks p).deleted = true
  · rw [if_pos hdel]
    rfl
  rw [if_neg hdel]
  by_cases hres : res ≠ 0
  · rw [if_pos hres]
    rfl
  · rw [if_neg hres]
    exact release_frames p

lemma settle_owned (h : Owned con (if (con.tasks p).deleted then [] else [p]))
    (hid : (con.tasks p).schedId.isSome) (res now : ℤ) : Owned (con.settle p res now) [] := by
  unfold Context.settle
  by_cases hdel : (con.tasks p).deleted = true
  · rw [if_pos hdel] at h ⊢
    exact h.touch rfl rfl rfl
  rw [if_neg hdel] at h ⊢
  by_cases hres : res ≠ 0
  · rw [if_pos hres]
    have hedit := @Owned.edit con p
      { con.tasks p with
        when := schedSettime (con.tasks p).when
          (if (con.tasks p).variableTime then res else (con.tasks p).resched) now } h rfl rfl
    exact hedit.schedule (by simpa using hid) (by simpa using hdel)
  · rw [if_neg hres]
    exact h.release

lemma finish_owned (h : Owned con []) {f : Frame} (hf : f ∈ con.frames) (res now : ℤ) :
    Owned (con.finish f res now) [] := by
  obtain ⟨hfrs, hend⟩ := h.endFrame hf
  have hsettle := settle_owned hend (h.marked.frame f hf).1 res now
  refine runNext_owned hsettle ?_ f.thread f.when
  rw [settle_frames]
  simp [hfrs]

end Functions

/-! ## Interleavings -/

/-- A thread does not delete the running task when another thread is deleting it, and does not enter
`ast_sched_runq` while a callback runs. -/
def ActionOk (con : Context) : Action → Prop
  | .del thread id => ¬ con.WaitsSecond thread id
  | .runq _ _ => con.frames = []
  | _ => True

instance (con : Context) : DecidablePred (ActionOk con)
  | .del thread id => inferInstanceAs (Decidable (¬ con.WaitsSecond thread id))
  | .runq _ _ => inferInstanceAs (Decidable (con.frames = []))
  | .add .. => inferInstanceAs (Decidable True)
  | .wake _ => inferInstanceAs (Decidable True)
  | .finish .. => inferInstanceAs (Decidable True)

lemma create_owned : Owned Context.create [] := by
  have hlive : ∀ q, ¬ Context.create.Live [] q := fun q hq => Nat.lt_irrefl 0 hq
  refine ⟨⟨fun q => ⟨zero_le _, zero_le _⟩, ?_, fun q hq => absurd hq (hlive q)⟩,
    ⟨?_, ?_, ?_, ?_⟩, ⟨fun q hq => absurd hq (hlive q), fun q hq => absurd hq (hlive q),
    fun q _ hq => absurd hq (hlive q), ?_, nodup_nil, ?_⟩, List.Perm.refl _, ⟨zero_le _, rfl, ?_⟩⟩
  all_goals simp [Context.create]

lemma step_owned {con con' : Context} (h : Owned con []) {a : Action} (ha : ActionOk con a)
    (hstep : step con a = some con') : Owned con' [] := by
  cases a with
  | add thread ms variableTime now =>
    obtain ⟨-, heq⟩ := ite_none_right_eq_some.mp hstep
    exact Option.some.inj heq ▸ addVariable_owned h ms variableTime now
  | del thread id =>
    obtain ⟨-, heq⟩ := ite_none_right_eq_some.mp hstep
    exact Option.some.inj heq ▸ del_owned h ha
  | wake thread =>
    obtain ⟨w, hw, rfl⟩ := map_eq_some_iff.mp hstep
    exact wake_owned h (mem_of_find?_eq_some hw)
  | runq thread now =>
    obtain ⟨-, heq⟩ := ite_none_right_eq_some.mp hstep
    exact Option.some.inj heq ▸ runNext_owned h ha thread (now + 1000)
  | finish thread res now =>
    obtain ⟨-, hfinish⟩ := ite_none_right_eq_some.mp hstep
    obtain ⟨f, hf, rfl⟩ := map_eq_some_iff.mp hfinish
    exact finish_owned h (mem_of_find?_eq_some hf) res now

/-- Each id is in the queue or held by one task, no task was released twice, and no callback runs
for a task that was deleted with success.
Source: `main/sched.c` -/
structure Safe (con : Context) : Prop where
  ids : IdsExact con
  released : con.released.Nodup
  deleted : ∀ j ∈ con.deletedOk, ∀ f ∈ con.frames, f.job ≠ j

lemma Owned.safe {con : Context} (h : Owned con []) : Safe con := by
  refine ⟨h.ids, h.jobs.released_nodup, fun j hj f hf heq => ?_⟩
  have hlive : con.Live [] f.task := by
    have hpos := count_pos_iff.mpr (mem_map_of_mem (f := Frame.task) hf)
    unfold Context.Live
    omega
  refine h.jobs.new f.task hlive ?_
  rw [(h.marked.frame f hf).2, heq]
  exact h.jobs.deletedOk j hj

/-- **Every interleaving is safe** in which no thread deletes a running task that another thread is
deleting and `ast_sched_runq` is not entered while a callback runs. -/
theorem run_safe (actions : List Action) (con : Context) (hok : Each step ActionOk Context.create actions)
    (hrun : run actions Context.create = some con) : Safe con :=
  Owned.safe (hok.foldlM_inv (I := (Owned · [])) (fun _ _ h ha _ hstep => step_owned h ha hstep) create_owned hrun)

/-- Two tasks run. The first is deleted by another thread while it runs, the callback of the second
one schedules a third one and tries to delete itself, and the third one is deleted. -/
theorem run_safe_deletes :
    ∃ con, run [.add 1 0 false 0, .add 1 0 true 0, .runq 9 0, .del 2 1, .wake 2, .finish 9 1 10, .wake 2,
        .del 9 2, .add 9 5 false 20, .finish 9 0 30, .del 3 3, .del 3 1] Context.create = some con ∧
      Safe con := by
  obtain ⟨con, hcon⟩ := isSome_iff_exists.mp
    (show (run [.add 1 0 false 0, .add 1 0 true 0, .runq 9 0, .del 2 1, .wake 2, .finish 9 1 10, .wake 2,
      .del 9 2, .add 9 5 false 20, .finish 9 0 30, .del 3 3, .del 3 1] Context.create).isSome by
      decide)
  exact ⟨con, hcon, run_safe _ con (by decide) hcon⟩

/-- Two threads delete the same running task and wait. The first one to wake up releases
the structure, which is then used for a new task. When the callback of that returns, the second
thread wakes up and releases it, and it is released again when it is done. -/
theorem run_releases_twice :
    (run [.add 1 0 false 0, .runq 9 0, .del 2 1, .del 3 1, .finish 9 0 10, .wake 2, .add 1 0 false 20,
        .runq 9 20, .finish 9 1 30, .wake 3, .runq 9 10000, .finish 9 0 10010] Context.create).map
      (fun con => (con.released, con.schedc)) = some ([0, 1, 1], [0, 0]) := by
  decide

end Telephony.Sched
