/-
The locks the executor takes, `kernel/src/task/executor/mod.rs`: the arena `active_tasks`
(an `RwLock`), each CPU's `RunQueue` (a `MutexNoIrq`) and each task's `SchedTask` (a
`Mutex`), all spin locks.

`System` takes each operation as one atomic step. Here a CPU carries out an operation as
the lock steps its code takes, one at a time, interleaved with the other CPUs' steps: the
operation's effect on the executor's state is taken when the CPU starts it, and the lock
steps it then has left are the locks the source takes, in its order, read off the state it
started from. `try_steal_tasks` only `try_lock`s, which never spins, so its locks are left
out; so are the locks a polled future takes itself.

The run loop takes a `RunQueue` and then the current task's `SchedTask` (`pop_task_to_run`,
and `remove_task` and `task_tick` after a poll), while `schedule_fn` and the `CallOnDrop`
guard take the `SchedTask` and then its `RunQueue`. Two CPUs that start these in the two
orders for one task each get their first lock and spin on the other's for ever
(`run_queue_sched_task_deadlock`).
-/
import Queen.Executor.System
import Queen.Lib.Locks

set_option autoImplicit false

namespace Queen.Executor

open Queen.Transition

/-- The executor's locks. -/
inductive Lock
  /-- `GLOBAL_STATE.active_tasks`. -/
  | active_tasks
  /-- The `RunQueue` of CPU `c`'s executor. -/
  | run_queue (c : Nat)
  /-- The `SchedTask` behind a `SchedTaskRef`. -/
  | sched_task (r : TaskRef)
deriving DecidableEq, Repr

/-- A lock taken and let go with nothing taken in between: `x.lock().field = ..`. -/
def briefly (l : Lock) : List (LockOp Lock) := [.acquire l .exclusive, .release l]

/-! ## The lock steps of each operation -/

namespace GlobalState

/-- `RunQueue::update_min_vruntime` on CPU `c`'s queue locks the current task. -/
def update_min_vruntime_locks (g : GlobalState) (c : Nat) : List (LockOp Lock) :=
  match (g.rq c).current_task with
  | some (_, current) => briefly (.sched_task current)
  | none => []

/-- `RunQueue::remove_task` on CPU `c`'s queue, given the lock of task `r`: it lets that
lock go, and when the task was contained calls `update_min_vruntime`. -/
def remove_task_locks (g : GlobalState) (c : Nat) (r : TaskRef) : List (LockOp Lock) :=
  let tid := (g.sched r).tid
  let contained := (PriorityQueue.get (g.rq c).ready_tasks tid).isSome || (g.rq c).is_current_task tid
  .release (.sched_task r) :: if contained then g.update_min_vruntime_locks c else []

/-- `Executor::spawn` on CPU `c`'s executor: the arena for writing, the run queue, the fork
parent's `SchedTask` for its `vruntime` (`SCHED_CHILD_RUNS_FIRST` is `false`), the new task
`r`'s `SchedTask`, and the guards dropped in reverse order. -/
def spawn_locks (c : Nat) (parent : Option TaskRef) (r : TaskRef) : List (LockOp Lock) :=
  [.acquire .active_tasks .exclusive, .acquire (.run_queue c) .exclusive] ++
    (match parent with
      | some p => briefly (.sched_task p)
      | none => []) ++
    briefly (.sched_task r) ++ [.release (.run_queue c), .release .active_tasks]

/-- `run_queue.lock().pop_task_to_run()` on CPU `c`, which picks task `r`: the run queue,
the current task's `SchedTask` when two or more tasks run here (`try_steal_tasks` changes
neither `nr_running` nor `current_task`), the arena for reading in `task(next_tid)`, and
`r`'s `SchedTask` for `exec_start`. -/
def pop_task_to_run_locks (g : GlobalState) (c : Nat) (r : TaskRef) : List (LockOp Lock) :=
  [.acquire (.run_queue c) .exclusive] ++
    (if (g.rq c).nr_running < 2 then []
      else match (g.rq c).current_task with
        | some (_, current) => briefly (.sched_task current)
        | none => []) ++
    [.acquire .active_tasks .shared, .release .active_tasks] ++
    briefly (.sched_task r) ++ [.release (.run_queue c)]

/-- `SchedTask::schedule_fn(r)`: the task's `SchedTask`, then the run queue it names. -/
def schedule_fn_locks (g : GlobalState) (r : TaskRef) : List (LockOp Lock) :=
  let c := (g.sched r).run_queue
  [.acquire (.sched_task r) .exclusive, .acquire (.run_queue c) .exclusive,
    .release (.run_queue c), .release (.sched_task r)]

/-- The `CallOnDrop` guard of task `r`: its `SchedTask`, the run queue it names,
`remove_task`, and the arena for writing in `remove_task(tid)`. -/
def on_drop_locks (g : GlobalState) (r : TaskRef) : List (LockOp Lock) :=
  let c := (g.sched r).run_queue
  [.acquire (.sched_task r) .exclusive, .acquire (.run_queue c) .exclusive] ++
    g.remove_task_locks c r ++ [.acquire .active_tasks .exclusive, .release .active_tasks,
      .release (.run_queue c)]

/-- The end of `Executor::run`'s loop body on CPU `c` for task `r`: the run queue,
`remove_task(task.lock())` unless the task yielded, and `task_tick(task.lock())`, which lets
the task's lock go before `update_min_vruntime`. -/
def finish_locks (g : GlobalState) (c : Nat) (r : TaskRef) (is_yielded : Bool) :
    List (LockOp Lock) :=
  [.acquire (.run_queue c) .exclusive] ++
    (if is_yielded then [] else .acquire (.sched_task r) .exclusive :: g.remove_task_locks c r) ++
    briefly (.sched_task r) ++ g.update_min_vruntime_locks c ++ [.release (.run_queue c)]

/-- `runnable.run()` of task `r`: the `CallOnDrop` guard when the future completes,
`schedule_fn` when it was woken during the poll, nothing otherwise. -/
def run_locks (g : GlobalState) (r : TaskRef) : PollOutcome → List (LockOp Lock)
  | .ready => g.on_drop_locks r
  | .pending true => g.schedule_fn_locks r
  | .pending false => []

/-- A waker of task `r` fires: `schedule_fn` when the task is idle, nothing otherwise. -/
def wake_locks (g : GlobalState) (r : TaskRef) : List (LockOp Lock) :=
  if r < g.tasks.length ∧ g.state r = .idle then g.schedule_fn_locks r else []

end GlobalState

/-- The CPU an action can run on: its own, or any for a wake-up. -/
def Action.runs_on (c : Nat) : Action → Bool
  | .spawn c' _ _ _ | .pop c' _ | .run c' _ | .finish c' _ => c' = c
  | .wake _ => true

/-- The lock steps of action `a` run on CPU `c` from state `s`. -/
def Action.locks (s : Sys) (c : Nat) : Action → List (LockOp Lock)
  | .spawn _ _ _ parent => GlobalState.spawn_locks c parent s.global.tasks.length
  | .pop _ now =>
    match s.global.pop_task_to_run c now with
    | some (_, _, r, _) => s.global.pop_task_to_run_locks c r
    | none => []
  | .run _ outcome =>
    match s.cpus[c]? with
    | some (.running _ _ runnable) => s.global.run_locks runnable.task outcome
    | _ => []
  | .finish _ _ =>
    match s.cpus[c]? with
    | some (.ran _ r is_yielded) => s.global.finish_locks c r is_yielded
    | _ => []
  | .wake r => s.global.wake_locks r

/-! ## The executor with its locks -/

/-- The executor, and the locks its CPUs hold and have left to take. -/
structure LockedSys where
  sys : Sys
  locks : LockState Nat Lock

/-- One step of the executor with its locks. -/
inductive LockedAction
  /-- CPU `c`, out of any critical section, starts action `a`. -/
  | begin (c : Nat) (a : Action)
  /-- CPU `c` takes its next lock step. -/
  | lock (c : Nat)
deriving DecidableEq

namespace LockedSys

/-- One step; `none` when it cannot be taken: a CPU spinning on a lock, or one inside a
critical section asked to start another. -/
def step (s : LockedSys) : LockedAction → Option LockedSys
  | .begin c a =>
    if c < s.sys.cpus.length ∧ a.runs_on c = true ∧ s.locks.prog c = [] then
      (Executor.step s.sys a).map fun sys => ⟨sys, s.locks.begin c (a.locks s.sys c)⟩
    else none
  | .lock c => (s.locks.step c).map fun locks => { s with locks }

/-- `executor::init(n)` with no lock held. -/
def init (n : Nat) : LockedSys := ⟨Executor.init n, LockState.init⟩

/-- The states an `n`-CPU executor with its locks can reach. -/
def Reachable (n : Nat) : LockedSys → Prop := Transition.Reachable (· = init n) (Next step)

/-- A deadlock outlasts every step of the executor: a step either starts an operation on a
CPU out of any critical section, so out of the deadlocked set, or is a lock step. -/
theorem step_deadlocked {s s' : LockedSys} {S : List Nat} {a : LockedAction}
    (hd : s.locks.Deadlocked S) (hst : s.step a = some s') : s'.locks.Deadlocked S := by
  cases a with
  | begin c a =>
    simp only [LockedSys.step] at hst
    by_cases hok : c < s.sys.cpus.length ∧ a.runs_on c = true ∧ s.locks.prog c = []
    · rw [if_pos hok] at hst
      obtain ⟨sys, -, rfl⟩ := Option.map_eq_some_iff.mp hst
      exact hd.begin _ hok.2.2
    · rw [if_neg hok] at hst
      cases hst
  | lock c =>
    obtain ⟨locks, hlocks, rfl⟩ := Option.map_eq_some_iff.mp hst
    exact hd.step hlocks

/-- From a deadlock, every run keeps it, and no member takes a lock step. -/
theorem deadlocked_forever {s s' : LockedSys} {S : List Nat} (hd : s.locks.Deadlocked S)
    (hr : Transition.Reachable (· = s) (Next step) s') :
    s'.locks.Deadlocked S ∧ ∀ c ∈ S, s'.step (.lock c) = none := by
  have hd' : s'.locks.Deadlocked S :=
    Transition.Reachable.inv (P := fun s' : LockedSys => s'.locks.Deadlocked S)
      (fun x (hs : x = s) => hs ▸ hd) (fun _ _ hd ⟨_, hst⟩ => step_deadlocked hd hst) hr
  refine ⟨hd', fun c hc => ?_⟩
  simp only [LockedSys.step, hd'.step_eq_none hc, Option.map_none]

end LockedSys

/-- Task `2` runs on CPU `0` and returns `Pending`; as CPU `0` ends the loop body, the task's
waker fires on CPU `1`. CPU `0` holds its run queue and spins on the task's lock for
`remove_task`; CPU `1` holds the task's lock in `schedule_fn` and spins on that run queue;
and neither ever takes another lock step. -/
theorem run_queue_sched_task_deadlock :
    ∃ s, LockedSys.Reachable 2 s ∧ s.locks.Deadlocked [0, 1] ∧
      (0, Lock.run_queue 0, Mode.exclusive) ∈ s.locks.held ∧
      (1, Lock.sched_task 2, Mode.exclusive) ∈ s.locks.held ∧
      ∀ s', Transition.Reachable (· = s) (Next LockedSys.step) s' →
        s'.locks.Deadlocked [0, 1] ∧ ∀ c ∈ [0, 1], s'.step (.lock c) = none := by
  obtain ⟨s, hr, hs⟩ := exists_reachable_of_run LockedSys.step (LockedSys.init 2)
    ([.begin 0 (.spawn 0 2 nice_zero none)] ++ List.replicate 6 (.lock 0) ++
      [.begin 0 (.pop 0 100)] ++ List.replicate 6 (.lock 0) ++
      [.begin 0 (.run 0 (.pending false)), .begin 0 (.finish 0 200), .lock 0,
        .begin 1 (.wake 2), .lock 1])
    (fun s => decide (s.locks.Deadlocked [0, 1] ∧
      (0, Lock.run_queue 0, Mode.exclusive) ∈ s.locks.held ∧
      (1, Lock.sched_task 2, Mode.exclusive) ∈ s.locks.held)) (by decide +kernel)
  obtain ⟨hd, h0, h1⟩ := of_decide_eq_true hs
  exact ⟨s, hr, hd, h0, h1, fun s' hs' => LockedSys.deadlocked_forever hd hs'⟩

end Queen.Executor
