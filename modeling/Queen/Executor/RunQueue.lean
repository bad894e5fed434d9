/-
The executor's state and the operations on it, `kernel/src/task/executor/mod.rs`:
`SchedTask`, `ReadyTask`, `RunQueue` with `insert_task`, `remove_task`, `peek`,
`pop_task_to_run`, `task_tick`, `update_min_vruntime` and `try_steal_tasks`,
`Executor::spawn`, `SchedTask::schedule_fn` and the `CallOnDrop` guard a task runs when it
completes.

A `SchedTaskRef` (`Arc<Mutex<SchedTask>>`) is an index into `GlobalState.tasks`, a heap of
objects that outlive their arena slot: `current_task` keeps one after the task completed.
A `Runnable` is named by the task it polls. `GlobalState.tasks` also records where
`async_task` has each task, since whether a wake-up schedules a task depends on it.

Three pieces of the system come from crates outside the source tree and are modelled by
their documented behaviour. `PriorityQueue` is `Queen.PriorityQueue`. The arena
`Arena<SchedTaskRef>` is an `AList` from tids to tasks; `next_vacant()` is documented only
to return a vacant index, so `Executor::spawn` takes that index as an argument and the
step function checks it is vacant. `async_task` is `TaskState`: dropping a `Runnable`
cancels its task and drops its future.

The future `Executor::spawn` builds creates its `CallOnDrop` guard when it is first polled.
Dropping a `Runnable` whose future has been polled runs that guard, which locks the task's
`SchedTask`, its `RunQueue` and the arena; every place that drops a `Runnable` holds one of
those (`dropRunnable`), so the guard spins for ever.

Every operation runs under the locks it takes in the source, so it is one atomic step.
`try_lock` then always succeeds: between two steps no lock is held. A `panic` (an
`unwrap` on `None`) and a spin that never ends are `none`.
-/
import Queen.Executor.Weight
import Queen.Lib.PriorityQueue

set_option autoImplicit false

namespace Queen.Executor

/-- `type Tid = usize`: an index of the arena. -/
abbrev Tid := Nat

/-- A `SchedTaskRef`: which object of the task heap. -/
abbrev TaskRef := Nat

/-- An `async_task::Runnable`, named by the task it polls. -/
structure Runnable where
  task : TaskRef
deriving DecidableEq, Repr, Inhabited

/-- `struct ReadyTask`: a queued `Runnable` and the key it is ordered by. -/
structure ReadyTask where
  vruntime : VRuntime
  runnable : Runnable
deriving DecidableEq, Repr, Inhabited

/-- `Ord for ReadyTask`: reverse ordering by `vruntime`, so the greatest is the least
virtual runtime. -/
instance : Ord ReadyTask := ⟨fun a b => (compare a.vruntime b.vruntime).swap⟩

/-- `struct SchedTask`. `run_queue` (a `RunQueueRef`) is the CPU whose queue it is. -/
structure SchedTask where
  tid : Tid
  load : LoadWeight
  nice : Nice
  on_rq : Bool
  run_queue : Nat
  exec_start : Usize
  sum_exec_runtime : Usize
  prev_sum_exec_runtime : Usize
  vruntime : VRuntime
deriving DecidableEq

instance : Inhabited SchedTask :=
  ⟨⟨0, default, ⟨0, MIN_NICE_le_zero, zero_le_MAX_NICE⟩, false, 0, 0, 0, 0, default⟩⟩

/-- Where `async_task` has a spawned task. -/
inductive TaskState
  /-- Spawned and never polled: its `Runnable` exists, and its future has not yet created
  its `CallOnDrop` guard. -/
  | spawned
  /-- Polled before, and a `Runnable` exists: in some `ready_tasks`, or held by the CPU
  about to run it. -/
  | scheduled
  /-- The last poll returned `Pending` and no wake-up came since: no `Runnable` exists. -/
  | idle
  /-- The future returned `Ready`. -/
  | completed
  /-- Its `Runnable` was dropped unrun: the task is cancelled. -/
  | closed
deriving DecidableEq, Repr, Inhabited

/-- One object of the task heap: the `SchedTask` behind the `Arc`, and the async state. -/
structure Task where
  sched : SchedTask
  state : TaskState
deriving DecidableEq, Inhabited

/-- `struct RunQueue`. -/
structure RunQueue where
  ready_tasks : PriorityQueue Tid ReadyTask
  current_task : Option (Tid × TaskRef)
  load : LoadWeight
  min_vruntime : VRuntime
  nr_running : Usize
deriving DecidableEq

/-- `RunQueue::new`. -/
def RunQueue.new : RunQueue := ⟨∅, none, LoadWeight.new 0, ⟨0⟩, 0⟩

instance : Inhabited RunQueue := ⟨RunQueue.new⟩

/-- `struct GlobalState`: the arena `active_tasks`, one run queue per executor, and the
heap of `SchedTaskRef` objects. -/
structure GlobalState where
  active_tasks : AList (fun _ : Tid => TaskRef)
  run_queues : List RunQueue
  tasks : List Task
deriving DecidableEq

/-! ## `SchedTask` -/

namespace SchedTask

/-- `SchedTask::new`. -/
def new (tid : Tid) (nice : Nice) (run_queue : Nat) (vruntime : VRuntime) : SchedTask :=
  ⟨tid, LoadWeight.new (nice_to_weight nice), nice, false, run_queue, 0, 0, 0, vruntime⟩

/-- `SchedTask::delta_fair`: `delta /= w`. -/
def delta_fair (t : SchedTask) (delta_exec : Usize) : Usize :=
  if t.load.weight = NICE_0_WEIGHT then delta_exec else calc_delta delta_exec NICE_0_WEIGHT t.load

/-- `SchedTask::tick`, with `now` the value of `arch::timer::read_ns()`. -/
def tick (t : SchedTask) (now : Usize) : SchedTask :=
  let delta_exec := now - t.exec_start
  { t with exec_start := now, sum_exec_runtime := t.sum_exec_runtime + delta_exec,
           vruntime := t.vruntime.add (t.delta_fair delta_exec) }

end SchedTask

/-! ## `RunQueue` alone -/

namespace RunQueue

/-- `RunQueue::sched_slice`: the wall-time slice `p * w / rw`. -/
def sched_slice (rq : RunQueue) (task : SchedTask) : Usize :=
  let period := sched_period (rq.nr_running + if task.on_rq then 0 else 1)
  let load := if !task.on_rq then rq.load + task.load else rq.load
  calc_delta period task.load.weight load

/-- `RunQueue::sched_vslice`: the virtual slice `s / w`. -/
def sched_vslice (rq : RunQueue) (task : SchedTask) : Usize :=
  task.delta_fair (rq.sched_slice task)

/-- `RunQueue::insert_task`. The count and load grow unless `tid` is the current task's;
the `push` replaces a `ReadyTask` already queued under `tid`, which `replaced` returns. -/
def insert_task (rq : RunQueue) (tid : Tid) (task : ReadyTask) (load : LoadWeight) :
    RunQueue :=
  let counted := match rq.current_task with
    | some (current_tid, _) => current_tid != tid
    | none => true
  let rq := if counted then { rq with nr_running := rq.nr_running + 1, load := rq.load + load }
    else rq
  { rq with ready_tasks := PriorityQueue.push rq.ready_tasks tid task }

/-- What `insert_task`'s `push` replaces: the `ReadyTask` queued under `tid` before. -/
def replaced (rq : RunQueue) (tid : Tid) : Option ReadyTask := PriorityQueue.get rq.ready_tasks tid

/-- `RunQueue::is_current_task`. -/
def is_current_task (rq : RunQueue) (tid : Tid) : Bool :=
  match rq.current_task with
  | some (current_tid, _) => current_tid = tid
  | none => false

/-- `RunQueue::peek`: `self.ready_tasks.peek().unwrap()`. -/
def peek (rq : RunQueue) : Option (Tid × ReadyTask) := PriorityQueue.peek rq.ready_tasks

end RunQueue

/-! ## Reading and writing the global state -/

namespace GlobalState

/-- The run queue of CPU `c`'s executor. -/
def rq (g : GlobalState) (c : Nat) : RunQueue := g.run_queues.getD c default

/-- Replace the run queue of CPU `c`. -/
def setRq (g : GlobalState) (c : Nat) (rq : RunQueue) : GlobalState :=
  { g with run_queues := g.run_queues.set c rq }

/-- `GlobalState::task(tid)`: the arena's entry for `tid`. -/
def task (g : GlobalState) (tid : Tid) : Option TaskRef := g.active_tasks.lookup tid

/-- The `SchedTask` behind a `SchedTaskRef`. -/
def sched (g : GlobalState) (r : TaskRef) : SchedTask := (g.tasks.getD r default).sched

/-- The async state of a task. -/
def state (g : GlobalState) (r : TaskRef) : TaskState := (g.tasks.getD r default).state

/-- Write through a locked `SchedTask`. -/
def modifySched (g : GlobalState) (r : TaskRef) (f : SchedTask → SchedTask) : GlobalState :=
  { g with tasks := g.tasks.modify r (fun t => { t with sched := f t.sched }) }

/-- Set a task's async state. -/
def setState (g : GlobalState) (r : TaskRef) (s : TaskState) : GlobalState :=
  { g with tasks := g.tasks.modify r (fun t => { t with state := s }) }

/-- Drop a `Runnable` that was not run: `async_task` closes its task and drops its future.
A future never polled holds no `CallOnDrop` guard yet. One polled before holds it, and
dropping it runs the guard, which locks the task's `SchedTask`, then its `RunQueue`, then the
arena for writing. Each caller holds one of these: `remove_task` and `schedule_fn` the lock of
the task whose `tid` the `Runnable` is queued under, the steal that task's lock and both run
queues, `Executor::spawn` the arena. So the guard spins for ever: `none`. -/
def dropRunnable (g : GlobalState) : Option ReadyTask → Option GlobalState
  | none => some g
  | some ready =>
    match g.state ready.runnable.task with
    | .spawned => some (g.setState ready.runnable.task .closed)
    | .scheduled | .idle => none
    | .completed | .closed => some g

/-- `run_queue.insert_task(tid, task, load)` on CPU `c`'s queue, dropping whatever the
`push` replaced. -/
def insertTask (g : GlobalState) (c : Nat) (tid : Tid) (task : ReadyTask) (load : LoadWeight) :
    Option GlobalState :=
  (g.dropRunnable ((g.rq c).replaced tid)).map fun g' =>
    g'.setRq c ((g.rq c).insert_task tid task load)

/-- `self.ready_tasks.push(tid, ready_task)` on CPU `c`'s queue, without the accounting. -/
def pushReady (g : GlobalState) (c : Nat) (tid : Tid) (task : ReadyTask) : Option GlobalState :=
  let rq := g.rq c
  (g.dropRunnable (rq.replaced tid)).map fun g' =>
    g'.setRq c { rq with ready_tasks := PriorityQueue.push rq.ready_tasks tid task }

/-- `RunQueue::update_min_vruntime` on CPU `c`'s queue; it locks the current task. -/
def update_min_vruntime (g : GlobalState) (c : Nat) : GlobalState :=
  let rq := g.rq c
  let vruntime := match rq.current_task with
    | some (_, r) => if (g.sched r).on_rq then (g.sched r).vruntime else rq.min_vruntime
    | none => rq.min_vruntime
  let vruntime := match rq.peek with
    | some (_, next) => if rq.current_task.isNone then next.vruntime else vruntime.min next.vruntime
    | none => vruntime
  -- ensure we never gain time by being placed backwards
  g.setRq c { rq with min_vruntime := rq.min_vruntime.max vruntime }

/-- `RunQueue::remove_task` on CPU `c`'s queue, for the locked task `r`. A task counts as
contained when its `ReadyTask` was queued, or when it is the current task, whether or not
it was already removed. The removed `ReadyTask` is dropped with its `Runnable` at once,
under both locks. -/
def remove_task (g : GlobalState) (c : Nat) (r : TaskRef) : Option GlobalState := do
  let g := g.modifySched r (fun t => { t with on_rq := false })
  let task := g.sched r
  let rq := g.rq c
  let removed := PriorityQueue.get rq.ready_tasks task.tid
  let g ← g.dropRunnable removed
  let rq := { rq with ready_tasks := rq.ready_tasks.erase task.tid }
  if removed.isSome || rq.is_current_task task.tid then
    some ((g.setRq c { rq with nr_running := rq.nr_running - 1, load := rq.load - task.load })
      |>.update_min_vruntime c)
  else some (g.setRq c rq)

/-- `RunQueue::task_tick` on CPU `c`'s queue for the locked task `r`, at time `now`. -/
def task_tick (g : GlobalState) (c : Nat) (r : TaskRef) (now : Usize) : GlobalState :=
  let g := g.modifySched r (fun t => t.tick now)
  let task := g.sched r
  let rq := g.rq c
  let ready_tasks := PriorityQueue.change_priority_by rq.ready_tasks task.tid
    (fun t => { t with vruntime := task.vruntime })
  let rq := { rq with ready_tasks }
  (g.setRq c rq).update_min_vruntime c

/-- `GlobalState::other_run_queues(current_cpu_id)`: `(c + 1..len).chain(0..c)`. -/
def other_run_queues (g : GlobalState) (c : Nat) : List Nat :=
  (List.range' (c + 1) (g.run_queues.length - (c + 1))) ++ List.range c

/-- The `while count != 0` loop of `try_steal_tasks`: CPU `c` takes `count` tasks of
greatest priority from `victim`'s queue, keeping aside the victim's current task (and,
in the source, any task whose lock is busy, which never happens between two steps). -/
def steal_loop (g : GlobalState) (c victim : Nat) :
    Nat → List (Tid × ReadyTask) → Option (GlobalState × List (Tid × ReadyTask))
  | 0, back => some (g, back)
  | count + 1, back =>
    let rq := g.rq victim
    match PriorityQueue.pop rq.ready_tasks with
    | (none, _) => none
    | (some (tid, ready_task), rest) =>
      let g := g.setRq victim { rq with ready_tasks := rest }
      if rq.is_current_task tid then steal_loop g c victim count (back ++ [(tid, ready_task)])
      else
        match g.task tid with
        | none => none
        | some r =>
          let victim_min := rq.min_vruntime
          let self_min := (g.rq c).min_vruntime
          let g := g.modifySched r (fun t =>
            { t with vruntime := ⟨t.vruntime.val - victim_min.val + self_min.val⟩, run_queue := c })
          match g.pushReady c tid ready_task with
          | none => none
          | some g => steal_loop g c victim count back

/-- `RunQueue::try_steal_tasks` for CPU `c`: from the first other run queue with more than
two running tasks, move half of its ready tasks here. Neither queue's `nr_running` nor
`load` changes. -/
def try_steal_tasks (g : GlobalState) (c : Nat) : Option GlobalState :=
  match (g.other_run_queues c).find? (fun v => (g.rq v).nr_running > 2) with
  | none => some g
  | some victim =>
    match steal_loop g c victim (PriorityQueue.len (g.rq victim).ready_tasks / 2) [] with
    | none => none
    | some (g, back) => back.foldlM (fun g (tid, task) => g.pushReady victim tid task) g

/-- `preempt_current` of `pop_task_to_run`, for the locked current task. -/
def preempt_current (rq : RunQueue) (current : SchedTask) : Option Bool :=
  let ideal_runtime := rq.sched_slice current
  let delta_exec := current.sum_exec_runtime - current.prev_sum_exec_runtime
  if !current.on_rq || delta_exec > ideal_runtime then some true
  else if delta_exec < SCHED_MIN_GRANULARITY then some false
  else
    match rq.peek with
    | none => none
    | some (_, next_task) => some (current.vruntime.delta next_task.vruntime > ideal_runtime.toInt)

/-- How `pop_task_to_run` chooses `next_tid` on CPU `c`'s queue (after the steal). -/
def next_tid (g : GlobalState) (c : Nat) : Option (GlobalState × Tid) :=
  let rq := g.rq c
  if rq.nr_running < 2 then (rq.peek).map (fun e => (g, e.1))
  else
    match rq.current_task with
    | none => (rq.peek).map (fun e => (g, e.1))
    | some (current_tid, current) =>
      match preempt_current rq (g.sched current) with
      | none => none
      | some false => some (g, current_tid)
      | some true =>
        let current := PriorityQueue.get rq.ready_tasks current_tid
        let ready_tasks := rq.ready_tasks.erase current_tid
        match PriorityQueue.peek ready_tasks with
        | none => none
        | some (next_tid, _) =>
          let ready_tasks := match current with
            | some ready => PriorityQueue.push ready_tasks current_tid ready
            | none => ready_tasks
          some (g.setRq c { rq with ready_tasks }, next_tid)

/-- `RunQueue::pop_task_to_run` on CPU `c` at time `now`: steal when fewer than two tasks
run here, choose `next_tid`, take its `Runnable` out of `ready_tasks`, look its task up in
the arena, and make it current. Each `unwrap` on `None` is a panic. -/
def pop_task_to_run (g : GlobalState) (c : Nat) (now : Usize) :
    Option (GlobalState × Tid × TaskRef × Runnable) := do
  let g ← if (g.rq c).nr_running < 2 then g.try_steal_tasks c else some g
  let (g, next_tid) ← g.next_tid c
  let rq := g.rq c
  let ready ← PriorityQueue.get rq.ready_tasks next_tid
  let r ← g.task next_tid
  let g := g.setRq c { rq with ready_tasks := rq.ready_tasks.erase next_tid,
                               current_task := some (next_tid, r) }
  let g := g.modifySched r (fun t => { t with exec_start := now })
  some (g, next_tid, r, ready.runnable)

/-- `SchedTask::schedule_fn(task)(runnable)`: a wake-up queues the task's `Runnable`
with key `min_vruntime - thresh` on the task's run queue. -/
def schedule_fn (g : GlobalState) (r : TaskRef) (runnable : Runnable) : Option GlobalState :=
  let g := g.modifySched r (fun t => { t with on_rq := true })
  let thresh := if SCHED_FEAT.contains GENTLE_FAIR_SLEEPERS then SCHED_LATENCY >>> 1
    else SCHED_LATENCY
  let c := (g.sched r).run_queue
  -- sleeps up to a single latency don't count
  let vruntime := (g.rq c).min_vruntime.sub thresh
  let g := g.modifySched r (fun t => { t with vruntime := t.vruntime.max vruntime })
  let task := g.sched r
  g.insertTask c task.tid ⟨vruntime, runnable⟩ task.load

/-- The `CallOnDrop` guard of a spawned task, run when its future is dropped: the task
leaves its run queue and the arena. -/
def on_drop (g : GlobalState) (r : TaskRef) : Option GlobalState := do
  let g := g.modifySched r (fun t => { t with on_rq := false })
  let task := g.sched r
  let g ← g.remove_task task.run_queue r
  some { g with active_tasks := g.active_tasks.erase task.tid }

/-- `Executor::spawn` on CPU `c`'s executor, with `tid` the arena's `next_vacant()` and
`parent` the `SpawnExtraOptions::Fork` parent, if any. The new task's `Runnable` is queued
directly; the result is the new `SchedTaskRef`. -/
def spawn (g : GlobalState) (c : Nat) (tid : Tid) (nice : Nice) (parent : Option TaskRef) :
    Option (GlobalState × TaskRef) := do
  let rq := g.rq c
  let vruntime := match parent with
    | none => rq.min_vruntime
    | some p => (g.sched p).vruntime
  let sched := SchedTask.new tid nice c vruntime
  -- place the new task where it fits in the slot that stays open at the end
  let sched := if SCHED_FEAT.contains START_DEBIT then
      { sched with vruntime := sched.vruntime.max (rq.min_vruntime.add (rq.sched_vslice sched)) }
    else sched
  let r := g.tasks.length
  let g := { g with tasks := g.tasks ++ [({ sched, state := .spawned } : Task)],
                    active_tasks := g.active_tasks.insert tid r }
  let g ← g.insertTask c tid ⟨sched.vruntime, ⟨r⟩⟩ sched.load
  some (g.modifySched r (fun t => { t with on_rq := true }), r)

end GlobalState

end Queen.Executor
