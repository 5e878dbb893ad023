import Telephony.Lib.Word

/-!
# The scheduler

`main/sched.c`: a context has a heap of tasks, a cache of unused task structures and a queue of
unused ids, guarded by one lock; the callback of a task runs without it. A thread that deletes the
task that is running waits on a condition variable until its callback is done.

Each action of the model is what one thread does from taking the lock to giving it back. Tasks are
known by their address. A waiting thread may wake up at any time. Memory is never exhausted.

For the record, each task gets a serial number when its structure is allocated (`job`); `released`
are those given to `sched_release`, and `deletedOk` those whose deletion was reported as a success.
-/

namespace Telephony.Sched

/-! ## Data model -/

/-- Source: `struct sched` -/
structure Task where
  schedId : Option ℕ
  when : ℤ
  tieBreaker : ℕ
  resched : ℤ
  variableTime : Bool
  deleted : Bool
  rescheduled : Bool
  job : ℕ
  deriving DecidableEq, Repr

def Task.zero : Task := ⟨none, 0, 0, 0, false, false, false, 0⟩

/-- A callback that runs in a thread: its task, the serial number, and the time up to which the
thread runs tasks.
Source: `ast_sched_runq` (`current`, `when`) -/
structure Frame where
  thread : ℕ
  task : ℕ
  job : ℕ
  when : ℤ
  deriving DecidableEq, Repr

/-- Source: `ast_sched_del_nonrunning` (`ast_cond_wait`) -/
structure Waiter where
  thread : ℕ
  task : ℕ
  id : ℕ
  deriving DecidableEq, Repr

structure Context where
  tasks : ℕ → Task
  allocated : ℕ
  tieBreaker : ℕ
  heap : List ℕ
  currentlyExecuting : Option ℕ
  executingThreadId : ℕ
  schedc : List ℕ
  schedccnt : ℕ
  idQueue : List ℕ
  idQueueSize : ℕ
  frames : List Frame
  waiters : List Waiter
  jobs : ℕ
  released : List ℕ
  deletedOk : List ℕ

def schedMaxCache : ℕ := 128

def idQueueIncrement : ℕ := 16

def Context.create : Context :=
  { tasks := fun _ => Task.zero
    allocated := 0
    tieBreaker := 0
    heap := []
    currentlyExecuting := none
    executingThreadId := 0
    schedc := []
    schedccnt := 0
    idQueue := []
    idQueueSize := 0
    frames := []
    waiters := []
    jobs := 0
    released := []
    deletedOk := [] }

/-! ## Tasks and ids -/

def Context.set (con : Context) (p : ℕ) (task : Task) : Context :=
  { con with tasks := Function.update con.tasks p task }

def Context.addIds (con : Context) : Context :=
  let newSize := min (con.idQueueSize + idQueueIncrement) (2 ^ 31 - 1)
  { con with
    idQueue := con.idQueue ++ List.range' (con.idQueueSize + 1) (newSize - con.idQueueSize)
    idQueueSize := max con.idQueueSize newSize }

/-- Give up a task: its id goes back into the queue, and its structure into the cache, unless there
are too many.
Source: `sched_release` -/
def Context.release (con : Context) (p : ℕ) : Context :=
  let tmp := con.tasks p
  let con :=
    { con.set p { tmp with schedId := none } with
      idQueue := con.idQueue ++ tmp.schedId.toList
      released := con.released ++ [tmp.job] }
  if con.schedccnt < schedMaxCache then
    { con with schedc := p :: con.schedc, schedccnt := con.schedccnt + 1 }
  else con

/-- Source: `sched_alloc` -/
def Context.takeStructure (con : Context) : ℕ × Context :=
  match con.schedc with
  | p :: schedc =>
    (p, { con.set p { con.tasks p with job := con.jobs } with
      schedc, schedccnt := con.schedccnt - 1, jobs := con.jobs + 1 })
  | [] =>
    (con.allocated, { con.set con.allocated { Task.zero with job := con.jobs } with
      allocated := con.allocated + 1, jobs := con.jobs + 1 })

def Context.setSchedId (con : Context) (p : ℕ) : Bool × Context :=
  let con := if con.idQueue = [] then con.addIds else con
  match con.idQueue with
  | [] => (false, con)
  | id :: idQueue => (true, { con.set p { con.tasks p with schedId := some id } with idQueue })

def Context.schedAlloc (con : Context) : Option ℕ × Context :=
  let taken := con.takeStructure
  let set := taken.2.setSchedId taken.1
  if set.1 then (some taken.1, set.2) else (none, set.2.release taken.1)

/-! ## The heap -/

/-- The difference of the tie breakers is unsigned and read as an `int`.
Source: `sched_time_cmp` -/
def Task.Before (a b : Task) : Prop :=
  a.when < b.when ∨ a.when = b.when ∧ 0 < Lib.int32 (b.tieBreaker - a.tieBreaker)

instance (a b : Task) : Decidable (a.Before b) := inferInstanceAs (Decidable (_ ∨ _))

/-- The top of the heap. It is the first task while the tie breakers in the heap are less than `2 ^
31` apart, and some task of the heap in any case, which is all that the proofs use. -/
def firstOf (tasks : ℕ → Task) : List ℕ → Option ℕ
  | [] => none
  | p :: ps =>
    match firstOf tasks ps with
    | none => some p
    | some q => if (tasks q).Before (tasks p) then some q else some p

def Context.schedule (con : Context) (p : ℕ) : Context :=
  let tieBreaker := if con.heap.length = 0 then 0 else (con.tieBreaker + 1) % 2 ^ 32
  { con.set p { con.tasks p with tieBreaker } with tieBreaker, heap := con.heap ++ [p] }

def schedSettime (t ms now : ℤ) : ℤ := max ((if t = 0 then now else t) + ms % 2 ^ 32 * 1000) now

/-! ## Functions -/

/-- Source: `ast_sched_add_variable` -/
def Context.addVariable (con : Context) (ms : ℤ) (variableTime : Bool) (now : ℤ) : Context :=
  match con.schedAlloc with
  | (none, con) => con
  | (some p, con) =>
    (con.set p
      { con.tasks p with
        resched := ms, variableTime, when := schedSettime 0 ms now, deleted := false }).schedule p

/-- Delete a task. A task in the heap is released, the only success for an id that is not negative.
For the task that is running the thread waits, unless it runs it itself.
Source: `ast_sched_del_nonrunning` -/
def Context.del (con : Context) (thread : ℕ) (id : ℤ) : Context :=
  if id < 0 then con
  else
    match con.heap.find? fun p => (con.tasks p).schedId = some id.toNat with
    | some p =>
      { { con with heap := con.heap.erase p }.release p with
        deletedOk := con.deletedOk ++ [(con.tasks p).job] }
    | none =>
      match con.currentlyExecuting with
      | none => con
      | some p =>
        if (con.tasks p).schedId = some id.toNat ∧ con.executingThreadId ≠ thread then
          { con.set p { con.tasks p with deleted := true } with
            waiters := con.waiters ++ [⟨thread, p, id.toNat⟩] }
        else con

/-- Source: `ast_sched_del_nonrunning` (the condition of the loop) -/
def Context.Executes (con : Context) (id : ℕ) : Prop :=
  con.currentlyExecuting.any fun p => (con.tasks p).schedId = some id

instance (con : Context) (id : ℕ) : Decidable (con.Executes id) := inferInstanceAs (Decidable (_ = true))

/-- A waiting thread wakes up: it waits on, or it releases the task.
Source: `ast_sched_del_nonrunning` ("ast_sched_runq knows we are") -/
def Context.wake (con : Context) (w : Waiter) : Context :=
  if con.Executes w.id then con else { con with waiters := con.waiters.erase w }.release w.task

/-- Source: `ast_sched_runq` -/
def Context.runNext (con : Context) (thread : ℕ) (when : ℤ) : Context :=
  match firstOf con.tasks con.heap with
  | none => con
  | some p =>
    if (con.tasks p).when < when then
      { con with
        heap := con.heap.erase p
        currentlyExecuting := some p
        executingThreadId := thread
        frames := ⟨thread, p, (con.tasks p).job, when⟩ :: con.frames }
    else con

/-- Source: `ast_sched_runq` -/
def Context.settle (con : Context) (p : ℕ) (res now : ℤ) : Context :=
  let current := con.tasks p
  if current.deleted then con.set p { current with rescheduled := res ≠ 0 }
  else if res ≠ 0 then
    (con.set p
      { current with
        when := schedSettime current.when (if current.variableTime then res else current.resched) now }).schedule p
  else con.release p

/-- Source: `ast_sched_runq` -/
def Context.finish (con : Context) (frame : Frame) (res now : ℤ) : Context :=
  ({ con with currentlyExecuting := none, frames := con.frames.erase frame }.settle frame.task res
    now).runNext frame.thread frame.when

/-! ## Interleavings -/

/-- Source: `main/sched.c` -/
inductive Action
  | add (thread : ℕ) (ms : ℤ) (variableTime : Bool) (now : ℤ)
  | del (thread : ℕ) (id : ℤ)
  | wake (thread : ℕ)
  | runq (thread : ℕ) (now : ℤ)
  | finish (thread : ℕ) (res now : ℤ)
  deriving DecidableEq, Repr

def Context.waiter (con : Context) (thread : ℕ) : Option Waiter :=
  con.waiters.find? fun w => w.thread = thread

def Context.frame (con : Context) (thread : ℕ) : Option Frame :=
  con.frames.find? fun f => f.thread = thread

/-- One action. A thread that waits can only wake up, and only a thread in a callback can return
from it. Callbacks may call every function. -/
def step (con : Context) : Action → Option Context
  | .add thread ms variableTime now =>
    if (con.waiter thread).isNone then some (con.addVariable ms variableTime now) else none
  | .del thread id => if (con.waiter thread).isNone then some (con.del thread id) else none
  | .wake thread => (con.waiter thread).map con.wake
  | .runq thread now => if (con.waiter thread).isNone then some (con.runNext thread (now + 1000)) else none
  | .finish thread res now =>
    if (con.waiter thread).isNone then (con.frame thread).map fun f => con.finish f res now else none

def run (actions : List Action) (con : Context) : Option Context := actions.foldlM step con

end Telephony.Sched
