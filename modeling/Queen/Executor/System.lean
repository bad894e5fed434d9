/-
The executor as a system of CPUs. Each CPU runs `Executor::run`, whose loop body is three
atomic steps: `run_queue.lock().pop_task_to_run()`, then `runnable.run()` with no lock
held, then `run_queue.lock()` again for `remove_task` (when the task did not yield) and
`task_tick`. Between any two steps other CPUs move, tasks are spawned, and wake-ups arrive
from interrupt handlers and other CPUs; `step` takes one of these at a time.

A poll is one step whose outcome the environment picks: the future completes (its
`CallOnDrop` guard runs inside `run()`), or it returns `Pending`, having been woken during
the poll or not. `async_task` reschedules a task woken during its poll at the end of
`run()`, which then returns `true`; a wake-up of an idle task calls `schedule_fn` at once;
a wake-up of a task that has a `Runnable` does nothing. A step that panics, or whose code
spins for ever on a lock, has no successor.

`init n` is `executor::init(n)`: `n` executors, each spawning its idle task, so the idle
task of CPU `c` has tid `c`.
-/
import Queen.Executor.RunQueue
import Queen.Lib.Transition

set_option autoImplicit false

namespace Queen.Executor

open Queen.Transition

/-- Where a CPU is in `Executor::run`'s loop. -/
inductive CpuPhase
  /-- At the top of `loop`. -/
  | pick
  /-- `pop_task_to_run` returned `(tid, task, runnable)`; `runnable.run()` comes next. -/
  | running (tid : Tid) (task : TaskRef) (runnable : Runnable)
  /-- `runnable.run()` returned `is_yielded`; the run queue is locked next. -/
  | ran (tid : Tid) (task : TaskRef) (is_yielded : Bool)
deriving DecidableEq, Repr

/-- How one poll of a future ends. -/
inductive PollOutcome
  /-- `Poll::Ready`: the future completed and was dropped. -/
  | ready
  /-- `Poll::Pending`; `woken` when a waker fired during the poll. -/
  | pending (woken : Bool)
deriving DecidableEq, Repr

/-- One step of the system. -/
inductive Action
  /-- `Executor::spawn` on CPU `cpu`'s executor; `tid` is the arena's `next_vacant()`. -/
  | spawn (cpu : Nat) (tid : Tid) (nice : Nice) (parent : Option TaskRef)
  /-- CPU `cpu` calls `pop_task_to_run`, reading the timer as `now`. -/
  | pop (cpu : Nat) (now : Usize)
  /-- CPU `cpu`'s `runnable.run()` polls the future once. -/
  | run (cpu : Nat) (outcome : PollOutcome)
  /-- CPU `cpu` re-takes its run queue: `remove_task` unless yielded, then `task_tick`. -/
  | finish (cpu : Nat) (now : Usize)
  /-- A waker of task `task` fires. -/
  | wake (task : TaskRef)
deriving DecidableEq

/-- The whole executor: the global state and every CPU's place in its loop. -/
structure Sys where
  global : GlobalState
  cpus : List CpuPhase
deriving DecidableEq

/-- `Runnable::run` on CPU `c`: poll the task of `runnable` once. The result is the new
global state and `run()`'s return value. -/
def runnable_run (g : GlobalState) (runnable : Runnable) : PollOutcome → Option (GlobalState × Bool)
  | .ready => (g.on_drop runnable.task).map fun g => (g.setState runnable.task .completed, false)
  | .pending true =>
    ((g.setState runnable.task .scheduled).schedule_fn runnable.task runnable).map fun g => (g, true)
  | .pending false => some (g.setState runnable.task .idle, false)

/-- One step; `none` when the action cannot be taken or the code panics. -/
def step (s : Sys) : Action → Option Sys
  | .spawn c tid nice parent =>
    if c < s.cpus.length ∧ tid ∉ s.global.active_tasks ∧
        (∀ p ∈ parent, p < s.global.tasks.length) then
      (s.global.spawn c tid nice parent).map fun (g, _) => { s with global := g }
    else none
  | .pop c now =>
    match s.cpus[c]? with
    | some .pick =>
      (s.global.pop_task_to_run c now).map fun (g, tid, r, runnable) =>
        { global := g, cpus := s.cpus.set c (.running tid r runnable) }
    | _ => none
  | .run c outcome =>
    match s.cpus[c]? with
    | some (.running tid r runnable) =>
      (runnable_run s.global runnable outcome).map fun (g, is_yielded) =>
        { global := g, cpus := s.cpus.set c (.ran tid r is_yielded) }
    | _ => none
  | .finish c now =>
    match s.cpus[c]? with
    | some (.ran _ r is_yielded) =>
      (if is_yielded then some s.global else s.global.remove_task c r).map fun g =>
        { global := g.task_tick c r now, cpus := s.cpus.set c .pick }
    | _ => none
  | .wake r =>
    if r < s.global.tasks.length ∧ s.global.state r = .idle then
      ((s.global.setState r .scheduled).schedule_fn r ⟨r⟩).map fun g => { s with global := g }
    else some s

section Steps

variable {s : Sys} {c : Nat} {tid : Tid} {r : TaskRef}

/-- A poll on a CPU that holds a `Runnable`. -/
theorem step_run {rb : Runnable} {o : PollOutcome} (h : s.cpus[c]? = some (.running tid r rb)) :
    step s (.run c o) =
      (runnable_run s.global rb o).map fun (g, is_yielded) =>
        ⟨g, s.cpus.set c (.ran tid r is_yielded)⟩ := by
  simp [step, h]

/-- The end of a loop iteration on a CPU whose poll returned. -/
theorem step_finish {is_yielded : Bool} {now : Usize} (h : s.cpus[c]? = some (.ran tid r is_yielded)) :
    step s (.finish c now) =
      (if is_yielded then some s.global else s.global.remove_task c r).map fun g =>
        ⟨g.task_tick c r now, s.cpus.set c .pick⟩ := by
  simp [step, h]

/-- A wake-up of an idle task schedules it. -/
theorem step_wake_idle (hr : r < s.global.tasks.length) (hidle : s.global.state r = .idle) :
    step s (.wake r) =
      ((s.global.setState r .scheduled).schedule_fn r ⟨r⟩).map fun g => { s with global := g } := by
  simp [step, hr, hidle]

end Steps

/-- `MAX_NICE`, the idle task's nice level. -/
def idle_nice : Nice := ⟨MAX_NICE, by decide, by decide⟩

/-- Nice level `0`, what `task::spawn` and `Thread::spawn` pass. -/
def nice_zero : Nice := ⟨0, MIN_NICE_le_zero, zero_le_MAX_NICE⟩

/-- `executor::init(n)`: `n` executors, each spawning its idle task from `Executor::new`,
every CPU at the top of its loop. Each idle task's tid is vacant and its queue empty, so no
spawn here drops a `Runnable` and fails. -/
def init (n : Nat) : Sys :=
  let g : GlobalState := ⟨∅, List.replicate n RunQueue.new, []⟩
  ⟨(List.range n).foldl (fun g c => ((g.spawn c c idle_nice none).map Prod.fst).getD g) g,
    List.replicate n .pick⟩

/-- The states an `n`-CPU executor can reach. -/
def Reachable (n : Nat) : Sys → Prop := Queen.Transition.Reachable (· = init n) (Next step)

end Queen.Executor
