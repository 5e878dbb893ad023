import Mathlib.Data.List.Nodup

/-!
# Thread pools

A pool has a queue of tasks, worker threads that run them, and one control thread. The containers of
active, idle and zombie workers are changed by the control thread only. Everybody else tells it by a
control task what has happened.

The actions of the model are the pieces of the source between which other threads can be noticed:

* A push holds the lock of the pool while it queues the task and then the control task. Nobody else
  can queue a control task in between, but a worker can take the task.
* A worker holds its own lock from the test of its state until it waits; others only see the control
  task that it queues. That takes the lock of the pool.
* A control task is cut at every change of the state of a worker, since only there it meets other
  threads.

The order in which a container is walked through is left open: an action of the control thread
chooses the worker that comes first. Allocations and starts of threads do not fail, the pool is not
shut down, and its listeners are left out.
-/

namespace Telephony.Threadpool

/-! ## Data model -/

inductive WorkerState where
  | alive | zombie | dead
  deriving DecidableEq, Repr

/-- Where a worker thread is.
* `idle`: in `worker_idle`.
* `active`: in `worker_active`, about to execute a task.
* `running`: in a task.
* `spent`: behind `worker_active`: the last look at the queue found no task.
* `dying`: behind the main loop, with the state that was saved.
* `gone`: the last control task is queued.
Source: `worker_start` -/
inductive WorkerPc where
  | idle | active | running | spent
  | dying (saved : WorkerState)
  | gone
  deriving DecidableEq, Repr

/-- Source: `struct worker_thread` -/
structure Worker where
  state : WorkerState
  wakeUp : Bool
  pc : WorkerPc
  deriving DecidableEq, Repr

/-- Source: `queued_active_thread_idle`, `queued_zombie_thread_dead`, `queued_idle_thread_dead`,
`queued_task_pushed`, `queued_set_size` -/
inductive ControlTask where
  | activeIdle (w : ℕ)
  | zombieDead (w : ℕ)
  | idleDead (w : ℕ)
  | taskPushed
  | setSize (size : ℕ)
  deriving DecidableEq, Repr

/-- Where the control thread is.
* `ready`: between control tasks.
* `passed`: in `queued_task_pushed` behind the first pass, with `existing_active`.
* `secondPass`: in `queued_task_pushed` before the second pass.
* `activating`: in `queued_set_size`, activating idle workers; with the size before `grow`, without
  behind it.
* `killing`, `zombifying`: in `shrink`, with the numbers of workers that are left to be killed and
  zombified.
* `joining`: in `worker_shutdown`, waiting for the thread of a worker to end. -/
inductive ControlPc where
  | ready
  | passed (existing : ℕ)
  | secondPass
  | activating (size : Option ℕ)
  | killing (kill zombify : ℕ)
  | zombifying (n : ℕ)
  | joining (w : ℕ) (next : ControlPc)
  deriving DecidableEq, Repr

/-- Whether idle workers time out, by how many workers the pool grows, how many it may have (0 for
no limit), and with how many it is created. -/
structure Options where
  idleTimeout : Bool
  autoIncrement : ℕ
  maxSize : ℕ
  initialSize : ℕ
  deriving DecidableEq, Repr

/-- Workers are known by their index. `tasks` is the number of tasks in the queue, and `pushing`
says that a push has queued its task and not yet its control task; `buried` are the workers whose
death notice was processed. -/
structure Pool where
  workers : List Worker
  active : List ℕ
  idle : List ℕ
  zombie : List ℕ
  tasks : ℕ
  pushing : Bool
  control : List ControlTask
  pc : ControlPc
  buried : List ℕ
  deriving DecidableEq, Repr

def Worker.setState (st : WorkerState) (r : Worker) : Worker :=
  if st = .alive ∧ r.state = .dead then r else ⟨st, true, r.pc⟩

/-- Source: `struct thread_worker_pair` -/
def ControlTask.isAbout (w : ℕ) : ControlTask → Bool
  | .activeIdle v => v = w
  | .zombieDead v => v = w
  | .idleDead v => v = w
  | .taskPushed => false
  | .setSize _ => false

namespace Pool

def create (opts : Options) : Pool :=
  ⟨[], [], [], [], 0, false, [.setSize opts.initialSize], .ready, []⟩

def update (p : Pool) (w : ℕ) (f : Worker → Worker) : Pool := { p with workers := p.workers.modify w f }

/-- Source: `ast_taskprocessor_push (pool->control_tps, …)` -/
def enqueue (p : Pool) (t : ControlTask) : Pool := { p with control := p.control ++ [t] }

/-! ## The threads of workers -/

/-- A worker leaves `worker_idle` since it was woken up. It goes on only if it is alive.
Source: `worker_idle`, `worker_start` -/
def wake (p : Pool) (w : ℕ) : Pool :=
  match p.workers[w]? with
  | some ⟨st, true, .idle⟩ =>
    p.update w fun _ => ⟨st, false, if st = .alive then .active else .dying st⟩
  | _ => p

/-- Source: `worker_idle`, `threadpool_idle_thread_dead` -/
def timeout (opts : Options) (p : Pool) (w : ℕ) : Pool :=
  match p.workers[w]? with
  | some ⟨_, false, .idle⟩ =>
    if opts.idleTimeout ∧ ¬ p.pushing then
      (p.update w fun _ => ⟨.dead, false, .dying .dead⟩).enqueue (.idleDead w)
    else p
  | _ => p

/-- Source: `threadpool_execute`, `ast_taskprocessor_execute` -/
def pop (p : Pool) (w : ℕ) : Pool :=
  match p.workers[w]? with
  | some ⟨st, wk, .active⟩ =>
    if p.tasks = 0 then p.update w fun _ => ⟨st, wk, .spent⟩
    else { p.update w fun _ => ⟨st, wk, .running⟩ with tasks := p.tasks - 1 }
  | _ => p

/-- Source: `ast_taskprocessor_execute` (`return size > 0`), `worker_active` -/
def finish (p : Pool) (w : ℕ) : Pool :=
  match p.workers[w]? with
  | some ⟨st, wk, .running⟩ => p.update w fun _ => ⟨st, wk, if 0 < p.tasks then .active else .spent⟩
  | _ => p

/-- A worker without tasks goes idle if it is alive, and leaves its main loop otherwise.
Source: `worker_start`, `threadpool_active_thread_idle` -/
def settle (p : Pool) (w : ℕ) : Pool :=
  match p.workers[w]? with
  | some ⟨.alive, wk, .spent⟩ =>
    if p.pushing then p else (p.update w fun _ => ⟨.alive, wk, .idle⟩).enqueue (.activeIdle w)
  | some ⟨st, wk, .spent⟩ => p.update w fun _ => ⟨st, wk, .dying st⟩
  | _ => p

/-- Source: `worker_start`, `threadpool_zombie_thread_dead` -/
def die (p : Pool) (w : ℕ) : Pool :=
  match p.workers[w]? with
  | some ⟨st, wk, .dying .zombie⟩ =>
    if p.pushing then p else (p.update w fun _ => ⟨st, wk, .gone⟩).enqueue (.zombieDead w)
  | some ⟨st, wk, .dying _⟩ => p.update w fun _ => ⟨st, wk, .gone⟩
  | _ => p

/-! ## The control thread -/

/-- The references to a worker: from the containers and from control tasks.
Source: `ao2_ref` -/
def refs (p : Pool) (w : ℕ) : ℕ :=
  p.active.count w + p.idle.count w + p.zombie.count w + p.control.countP (ControlTask.isAbout w)

/-- A reference to a worker was given up. With the last one the worker is shut down and its thread
joined.
Source: `worker_thread_destroy`, `worker_shutdown` -/
def release (p : Pool) (w : ℕ) (next : ControlPc) : Pool :=
  if p.refs w = 0 then { p.update w (Worker.setState .dead) with pc := .joining w next }
  else { p with pc := next }

def first (choice : ℕ) : List ℕ → Option ℕ
  | [] => none
  | w :: l => some ((w :: l).getD choice w)

/-- Source: `activate_thread`, `ao2_callback (pool->idle_threads, OBJ_UNLINK | …)` -/
def activate (p : Pool) (w : ℕ) (next : ControlPc) : Pool :=
  let active := p.active ++ [w]
  let dead := (p.workers[w]?).any fun r => r.state = .dead
  release { p.update w (Worker.setState .alive) with
    active := if dead then active.erase w else active
    idle := p.idle.erase w } w next

/-- Source: `worker_thread_alloc`, `worker_thread_start` -/
def fresh : Worker := ⟨.alive, false, .idle⟩

def grow (opts : Options) (p : Pool) (delta : ℕ) (next : ControlPc) : Pool :=
  let current := p.active.length + p.idle.length
  let delta := if opts.maxSize ≠ 0 ∧ current + delta > opts.maxSize then opts.maxSize - current else delta
  { p with
    workers := p.workers ++ List.replicate delta fresh
    idle := p.idle ++ List.range' p.workers.length delta
    pc := next }

/-- A control task is begun. Those about a worker end at once.
Source: `queued_active_thread_idle`, `queued_zombie_thread_dead`, `queued_idle_thread_dead`,
`queued_task_pushed`, `queued_set_size`, `shrink` -/
def beginTask (choice : ℕ) (p : Pool) : ControlTask → Pool
  | .activeIdle w => release { p with idle := p.idle ++ [w], active := p.active.erase w } w .ready
  | .zombieDead w => release { p with zombie := p.zombie.erase w, buried := p.buried ++ [w] } w .ready
  | .idleDead w => release { p with idle := p.idle.erase w, buried := p.buried ++ [w] } w .ready
  | .taskPushed =>
    match first choice p.idle with
    | none => { p with pc := .passed p.active.length }
    | some w => p.activate w (.passed p.active.length)
  | .setSize size =>
    let current := p.active.length + p.idle.length
    if current = size then { p with pc := .ready }
    else if current < size then { p with pc := .activating (some size) }
    else
      let delta := current - size
      { p with pc := .killing (min delta p.idle.length) (delta - min delta p.idle.length) }

/-- Source: `queued_task_pushed`, `queued_set_size`, `shrink`, `kill_threads`, `zombify_threads`,
`worker_shutdown` -/
def controlStep (opts : Options) (choice : ℕ) (p : Pool) : Pool :=
  match p.pc with
  | .ready =>
    match p.control with
    | [] => p
    | t :: rest => beginTask choice { p with control := rest } t
  | .passed existing =>
    if p.active.length = existing then
      if opts.autoIncrement = 0 then { p with pc := .ready } else p.grow opts opts.autoIncrement .secondPass
    else { p with pc := .ready }
  | .secondPass =>
    match first choice p.idle with
    | none => { p with pc := .ready }
    | some w => p.activate w .ready
  | .activating size =>
    match first choice p.idle with
    | some w => p.activate w (.activating size)
    | none =>
      match size with
      | none => { p with pc := .ready }
      | some n => p.grow opts (n - (p.active.length + p.idle.length)) (.activating none)
  | .killing 0 zombify => { p with pc := .zombifying zombify }
  | .killing (kill + 1) zombify =>
    match first choice p.idle with
    | none => { p with pc := .zombifying zombify }
    | some w => release { p with idle := p.idle.erase w } w (.killing kill zombify)
  | .zombifying 0 => { p with pc := .ready }
  | .zombifying (n + 1) =>
    match first choice p.active with
    | none => { p with pc := .ready }
    | some w =>
      { p.update w (Worker.setState .zombie) with
        zombie := p.zombie ++ [w]
        active := p.active.erase w
        pc := .zombifying n }
  | .joining w next =>
    if (p.workers[w]?).any fun r => r.pc = .gone then { p with pc := next } else p

end Pool

/-! ## Runs -/

inductive PoolAction where
  | push
  | notify
  | setSize (size : ℕ)
  | wake (w : ℕ)
  | timeout (w : ℕ)
  | pop (w : ℕ)
  | finish (w : ℕ)
  | settle (w : ℕ)
  | die (w : ℕ)
  | control (choice : ℕ)
  deriving DecidableEq, Repr

namespace Pool

/-- One action; an action that is not possible changes nothing.
Source: `ast_threadpool_push`, `threadpool_tps_task_pushed`, `ast_threadpool_set_size` and the
functions above -/
def step (opts : Options) (p : Pool) : PoolAction → Pool
  | .push => if p.pushing then p else { p with tasks := p.tasks + 1, pushing := true }
  | .notify => if p.pushing then { p.enqueue .taskPushed with pushing := false } else p
  | .setSize size => if p.pushing then p else p.enqueue (.setSize size)
  | .wake w => p.wake w
  | .timeout w => p.timeout opts w
  | .pop w => p.pop w
  | .finish w => p.finish w
  | .settle w => p.settle w
  | .die w => p.die w
  | .control choice => p.controlStep opts choice

def run (opts : Options) (p : Pool) (actions : List PoolAction) : Pool := actions.foldl (step opts) p

end Pool

end Telephony.Threadpool
