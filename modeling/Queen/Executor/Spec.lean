/-
What each operation of the executor does to the global state, one spec lemma per field it
reads or writes: the accessors first (`setRq`, `modifySched`, `setState`, `dropRunnable`),
then `update_min_vruntime`, `remove_task`, `task_tick`, `schedule_fn` and the `CallOnDrop`
guard. An operation that drops a `Runnable` can spin in the guard, so it returns an `Option`:
its lemmas first say what it returns (`*_cases`), then what each field is when it returns
(`*_of_*`), and when it spins (`dropRunnable_polled`, `remove_task_polled`). The proofs about
runs of the system cite these lemmas and never unfold an operation again.

A `SchedTask` update keeps the fields it does not name, and every update the executor
makes keeps `tid`, `load` and (outside `try_steal_tasks`) `run_queue`; the three
`*_sched_modifySched` simp lemmas carry that through any chain of updates.
-/
import Queen.Executor.RunQueue
import Queen.Lib.Store

set_option autoImplicit false

namespace Queen.Executor

namespace GlobalState

variable {g : GlobalState} {c c' : Nat} {r r' : TaskRef}

/-! ## Frame lemmas of the accessors -/

theorem rq_setRq (rq : RunQueue) :
    (g.setRq c rq).rq c' = if c' = c ∧ c < g.run_queues.length then rq else g.rq c' :=
  Store.getD_set _ _ _ _ _

@[simp] theorem run_queues_length_setRq (rq : RunQueue) :
    (g.setRq c rq).run_queues.length = g.run_queues.length := by simp [setRq]

@[simp] theorem tasks_setRq (rq : RunQueue) : (g.setRq c rq).tasks = g.tasks := rfl

@[simp] theorem active_tasks_setRq (rq : RunQueue) :
    (g.setRq c rq).active_tasks = g.active_tasks := rfl

@[simp] theorem rq_modifySched (f : SchedTask → SchedTask) : (g.modifySched r f).rq c = g.rq c :=
  rfl

@[simp] theorem run_queues_modifySched (f : SchedTask → SchedTask) :
    (g.modifySched r f).run_queues = g.run_queues := rfl

@[simp] theorem active_tasks_modifySched (f : SchedTask → SchedTask) :
    (g.modifySched r f).active_tasks = g.active_tasks := rfl

@[simp] theorem rq_setState (st : TaskState) : (g.setState r st).rq c = g.rq c := rfl

@[simp] theorem run_queues_setState (st : TaskState) :
    (g.setState r st).run_queues = g.run_queues := rfl

@[simp] theorem active_tasks_setState (st : TaskState) :
    (g.setState r st).active_tasks = g.active_tasks := rfl

@[simp] theorem tasks_length_modifySched (f : SchedTask → SchedTask) :
    (g.modifySched r f).tasks.length = g.tasks.length := by simp [modifySched]

@[simp] theorem tasks_length_setState (st : TaskState) :
    (g.setState r st).tasks.length = g.tasks.length := by simp [setState]

@[simp] theorem sched_setRq (rq : RunQueue) : (g.setRq c rq).sched r = g.sched r := rfl

@[simp] theorem state_setRq (rq : RunQueue) : (g.setRq c rq).state r = g.state r := rfl

theorem sched_modifySched (f : SchedTask → SchedTask) :
    (g.modifySched r f).sched r' =
      if r' = r ∧ r < g.tasks.length then f (g.sched r) else g.sched r' := by
  simp only [sched, modifySched, Store.getD_modify]
  split
  · rename_i h; rw [h.1]
  · rfl

@[simp] theorem state_modifySched (f : SchedTask → SchedTask) :
    (g.modifySched r f).state r' = g.state r' := by
  simp only [state, modifySched, Store.getD_modify]
  split <;> rfl

@[simp] theorem sched_setState (st : TaskState) : (g.setState r st).sched r' = g.sched r' := by
  simp only [sched, setState, Store.getD_modify]
  split <;> rfl

theorem state_setState (st : TaskState) :
    (g.setState r st).state r' = if r' = r ∧ r < g.tasks.length then st else g.state r' := by
  simp only [state, setState, Store.getD_modify]
  split <;> rfl

/-- A drop that returns leaves the state as it is, or closes the task of a future that was
never polled. -/
theorem dropRunnable_cases {o : Option ReadyTask} {g' : GlobalState}
    (h : g.dropRunnable o = some g') : g' = g ∨ ∃ r, g' = g.setState r .closed := by
  rcases o with _ | ready
  · cases h
    exact .inl rfl
  · simp only [dropRunnable] at h
    split at h <;> cases h
    · exact .inr ⟨_, rfl⟩
    · exact .inl rfl
    · exact .inl rfl

@[simp] theorem dropRunnable_none : g.dropRunnable none = some g := rfl

/-- Dropping the `Runnable` of a future that has been polled spins in its `CallOnDrop`
guard. -/
theorem dropRunnable_polled {ready : ReadyTask}
    (h : g.state ready.runnable.task = .scheduled ∨ g.state ready.runnable.task = .idle) :
    g.dropRunnable (some ready) = none := by
  rcases h with h | h <;> simp [dropRunnable, h]

section Drop

variable {o : Option ReadyTask} {g' : GlobalState} (h : g.dropRunnable o = some g')
include h

theorem run_queues_of_dropRunnable : g'.run_queues = g.run_queues := by
  rcases dropRunnable_cases h with rfl | ⟨r, rfl⟩ <;> rfl

theorem rq_of_dropRunnable : g'.rq c = g.rq c := by
  simp [GlobalState.rq, run_queues_of_dropRunnable h]

theorem sched_of_dropRunnable : g'.sched r = g.sched r := by
  rcases dropRunnable_cases h with rfl | ⟨r, rfl⟩ <;> simp

end Drop

/-- `update_min_vruntime` writes `min_vruntime` and nothing else. -/
theorem update_min_vruntime_rq :
    ∃ m, (g.update_min_vruntime c).rq c' =
      if c' = c ∧ c < g.run_queues.length then { g.rq c with min_vruntime := m } else g.rq c' := by
  unfold update_min_vruntime
  exact ⟨_, rq_setRq _⟩

@[simp] theorem tasks_update_min_vruntime : (g.update_min_vruntime c).tasks = g.tasks := rfl

@[simp] theorem run_queues_length_update_min_vruntime :
    (g.update_min_vruntime c).run_queues.length = g.run_queues.length := by
  simp [update_min_vruntime]

@[simp] theorem nr_running_update_min_vruntime :
    ((g.update_min_vruntime c).rq c').nr_running = (g.rq c').nr_running := by
  obtain ⟨m, h⟩ := @update_min_vruntime_rq g c c'
  rw [h]; split <;> simp_all

@[simp] theorem current_task_update_min_vruntime :
    ((g.update_min_vruntime c).rq c').current_task = (g.rq c').current_task := by
  obtain ⟨m, h⟩ := @update_min_vruntime_rq g c c'
  rw [h]; split <;> simp_all

@[simp] theorem ready_tasks_update_min_vruntime :
    ((g.update_min_vruntime c).rq c').ready_tasks = (g.rq c').ready_tasks := by
  obtain ⟨m, h⟩ := @update_min_vruntime_rq g c c'
  rw [h]; split <;> simp_all

@[simp] theorem sched_update_min_vruntime : (g.update_min_vruntime c).sched r = g.sched r := rfl

@[simp] theorem state_update_min_vruntime : (g.update_min_vruntime c).state r = g.state r := rfl

@[simp] theorem active_tasks_update_min_vruntime :
    (g.update_min_vruntime c).active_tasks = g.active_tasks := rfl

/-! ## Updates of a `SchedTask` -/

/-- A field that `f` keeps is kept by `modifySched r f`, at every task. -/
theorem sched_modifySched_of {α : Type} (p : SchedTask → α) {f : SchedTask → SchedTask}
    (hf : ∀ t, p (f t) = p t) : p ((g.modifySched r f).sched r') = p (g.sched r') := by
  rw [sched_modifySched]
  split
  · rename_i h; rw [hf, h.1]
  · rfl

@[simp] theorem tid_sched_modifySched {f : SchedTask → SchedTask} (hf : ∀ t, (f t).tid = t.tid) :
    ((g.modifySched r f).sched r').tid = (g.sched r').tid :=
  sched_modifySched_of SchedTask.tid hf

@[simp] theorem load_sched_modifySched {f : SchedTask → SchedTask}
    (hf : ∀ t, (f t).load = t.load) :
    ((g.modifySched r f).sched r').load = (g.sched r').load :=
  sched_modifySched_of SchedTask.load hf

@[simp] theorem run_queue_sched_modifySched {f : SchedTask → SchedTask}
    (hf : ∀ t, (f t).run_queue = t.run_queue) :
    ((g.modifySched r f).sched r').run_queue = (g.sched r').run_queue :=
  sched_modifySched_of SchedTask.run_queue hf

@[simp] theorem RunQueue.is_current_task_ready_tasks (rq : RunQueue) (q : PriorityQueue Tid ReadyTask)
    (tid : Tid) : ({ rq with ready_tasks := q } : RunQueue).is_current_task tid = rq.is_current_task tid :=
  rfl

/-! ## `remove_task` -/

/-- `remove_task` with the locked task's `tid` and `load` read before its `on_rq` is
cleared, which does not change them. -/
theorem remove_task_eq : g.remove_task c r =
    let tid := (g.sched r).tid
    let rq := g.rq c
    let rq' := { rq with ready_tasks := rq.ready_tasks.erase tid }
    ((g.modifySched r fun t => { t with on_rq := false }).dropRunnable
        (PriorityQueue.get rq.ready_tasks tid)).map fun g' =>
      if (PriorityQueue.get rq.ready_tasks tid).isSome || rq.is_current_task tid then
        (g'.setRq c { rq' with nr_running := rq.nr_running - 1,
                               load := rq.load - (g.sched r).load }).update_min_vruntime c
      else g'.setRq c rq' := by
  have htid : ((g.modifySched r fun t => { t with on_rq := false }).sched r).tid =
      (g.sched r).tid := by simp
  have hload : ((g.modifySched r fun t => { t with on_rq := false }).sched r).load =
      (g.sched r).load := by simp
  simp only [remove_task, rq_modifySched, Option.bind_eq_bind]
  rw [htid, hload]
  cases (g.modifySched r fun t => { t with on_rq := false }).dropRunnable
    (PriorityQueue.get (g.rq c).ready_tasks (g.sched r).tid) with
  | none => rfl
  | some g₁ => simp only [Option.bind_some, Option.map_some, apply_ite some]; rfl

/-- `remove_task` of a task whose queued `Runnable` belongs to a polled future spins in the
guard that dropping it runs. -/
theorem remove_task_polled {ready : ReadyTask}
    (hget : PriorityQueue.get (g.rq c).ready_tasks (g.sched r).tid = some ready)
    (hst : g.state ready.runnable.task = .scheduled ∨ g.state ready.runnable.task = .idle) :
    g.remove_task c r = none := by
  have hdrop : (g.modifySched r fun t => { t with on_rq := false }).dropRunnable (some ready) = none :=
    dropRunnable_polled (by simpa using hst)
  rw [remove_task_eq]
  simp only [hget, hdrop, Option.map_none]

/-- With nothing queued under the task's `tid`, `remove_task` drops nothing and returns. -/
theorem remove_task_isSome (hget : PriorityQueue.get (g.rq c).ready_tasks (g.sched r).tid = none) :
    (g.remove_task c r).isSome := by
  rw [remove_task_eq]
  simp [hget]

section RemoveTask

variable {g' : GlobalState} (h : g.remove_task c r = some g')
include h

/-- What `remove_task` returns: the state after the drop, with the queue updated. -/
theorem remove_task_cases :
    ∃ g₁, (g.modifySched r fun t => { t with on_rq := false }).dropRunnable
        (PriorityQueue.get (g.rq c).ready_tasks (g.sched r).tid) = some g₁ ∧
      g' = if (PriorityQueue.get (g.rq c).ready_tasks (g.sched r).tid).isSome ||
            (g.rq c).is_current_task (g.sched r).tid then
          (g₁.setRq c { g.rq c with
            ready_tasks := (g.rq c).ready_tasks.erase (g.sched r).tid,
            nr_running := (g.rq c).nr_running - 1,
            load := (g.rq c).load - (g.sched r).load }).update_min_vruntime c
        else g₁.setRq c { g.rq c with ready_tasks := (g.rq c).ready_tasks.erase (g.sched r).tid } := by
  rw [remove_task_eq] at h
  obtain ⟨g₁, hdrop, rfl⟩ := Option.map_eq_some_iff.mp h
  exact ⟨g₁, hdrop, rfl⟩

theorem run_queues_length_of_remove_task : g'.run_queues.length = g.run_queues.length := by
  obtain ⟨g₁, hdrop, rfl⟩ := remove_task_cases h
  have := run_queues_of_dropRunnable hdrop
  split <;> simp_all

theorem current_task_of_remove_task : (g'.rq c').current_task = (g.rq c').current_task := by
  obtain ⟨g₁, hdrop, rfl⟩ := remove_task_cases h
  have hrq : ∀ c'', g₁.rq c'' = g.rq c'' := fun _ => rq_of_dropRunnable hdrop |>.trans (rq_modifySched _)
  have hlen := run_queues_of_dropRunnable hdrop
  split <;> (simp only [current_task_update_min_vruntime, rq_setRq, hrq, hlen]; split <;> simp_all)

theorem ready_tasks_of_remove_task :
    (g'.rq c').ready_tasks =
      if c' = c ∧ c < g.run_queues.length then (g.rq c).ready_tasks.erase (g.sched r).tid
      else (g.rq c').ready_tasks := by
  obtain ⟨g₁, hdrop, rfl⟩ := remove_task_cases h
  have hrq : ∀ c'', g₁.rq c'' = g.rq c'' := fun _ => rq_of_dropRunnable hdrop |>.trans (rq_modifySched _)
  have hlen := run_queues_of_dropRunnable hdrop
  split <;> (simp only [ready_tasks_update_min_vruntime, rq_setRq, hrq, hlen]; split <;> simp_all)

/-- The count drops by one when the task is queued or current, as `contained` decides. -/
theorem nr_running_of_remove_task (hc : c < g.run_queues.length) :
    (g'.rq c).nr_running =
      if (PriorityQueue.get (g.rq c).ready_tasks (g.sched r).tid).isSome ||
          (g.rq c).is_current_task (g.sched r).tid
      then (g.rq c).nr_running - 1 else (g.rq c).nr_running := by
  obtain ⟨g₁, hdrop, rfl⟩ := remove_task_cases h
  have hlen := run_queues_of_dropRunnable hdrop
  split <;> simp [rq_setRq, hc, hlen]

theorem sched_of_remove_task :
    g'.sched r' = (g.modifySched r fun t => { t with on_rq := false }).sched r' := by
  obtain ⟨g₁, hdrop, rfl⟩ := remove_task_cases h
  have := sched_of_dropRunnable (r := r') hdrop
  split <;> simp_all

end RemoveTask

/-- `remove_task` of the current task, with nothing queued under its `tid`, drops nothing
and counts the task out. -/
theorem remove_task_current (hc : c < g.run_queues.length)
    (hget : PriorityQueue.get (g.rq c).ready_tasks (g.sched r).tid = none)
    (hcur : (g.rq c).is_current_task (g.sched r).tid) :
    ∃ g', g.remove_task c r = some g' ∧ (g'.rq c).nr_running = (g.rq c).nr_running - 1 ∧
      PriorityQueue.get (g'.rq c).ready_tasks (g.sched r).tid = none ∧
      (g'.rq c).current_task = (g.rq c).current_task ∧ (g'.sched r).tid = (g.sched r).tid := by
  obtain ⟨g', h⟩ := Option.isSome_iff_exists.mp (remove_task_isSome hget)
  refine ⟨g', h, ?_, ?_, current_task_of_remove_task h, ?_⟩
  · rw [nr_running_of_remove_task h hc]
    simp [hcur]
  · rw [ready_tasks_of_remove_task h]
    simp [hc, PriorityQueue.get, AList.lookup_erase]
  · rw [sched_of_remove_task h]
    simp

/-! ## `task_tick` -/

@[simp] theorem tid_tick (t : SchedTask) (now : Usize) : (t.tick now).tid = t.tid := rfl

@[simp] theorem load_tick (t : SchedTask) (now : Usize) : (t.tick now).load = t.load := rfl

@[simp] theorem run_queue_tick (t : SchedTask) (now : Usize) :
    (t.tick now).run_queue = t.run_queue := rfl

@[simp] theorem run_queues_length_task_tick {now : Usize} :
    (g.task_tick c r now).run_queues.length = g.run_queues.length := by
  simp [task_tick]

@[simp] theorem tasks_length_task_tick {now : Usize} :
    (g.task_tick c r now).tasks.length = g.tasks.length := by
  simp [task_tick]

@[simp] theorem active_tasks_task_tick {now : Usize} :
    (g.task_tick c r now).active_tasks = g.active_tasks := rfl

@[simp] theorem state_task_tick {now : Usize} : (g.task_tick c r now).state r' = g.state r' := by
  simp [task_tick]

@[simp] theorem current_task_task_tick {now : Usize} :
    ((g.task_tick c r now).rq c').current_task = (g.rq c').current_task := by
  simp only [task_tick, current_task_update_min_vruntime, rq_setRq]
  split <;> simp_all

@[simp] theorem nr_running_task_tick {now : Usize} :
    ((g.task_tick c r now).rq c').nr_running = (g.rq c').nr_running := by
  simp only [task_tick, nr_running_update_min_vruntime, rq_setRq]
  split <;> simp_all

/-- `change_priority_by` only rekeys: the queued tids stay the same. -/
@[simp] theorem mem_ready_tasks_task_tick {now : Usize} {i : Tid} :
    i ∈ ((g.task_tick c r now).rq c').ready_tasks ↔ i ∈ (g.rq c').ready_tasks := by
  simp only [task_tick, ready_tasks_update_min_vruntime, rq_setRq]
  split
  · rename_i h; rw [h.1]; simp
  · rfl

/-! ## `insertTask` and `schedule_fn` -/

@[simp] theorem RunQueue.current_task_insert_task (rq : RunQueue) (tid : Tid) (task : ReadyTask)
    (load : LoadWeight) : (rq.insert_task tid task load).current_task = rq.current_task := by
  simp only [RunQueue.insert_task]
  split_ifs <;> rfl

@[simp] theorem RunQueue.ready_tasks_insert_task (rq : RunQueue) (tid : Tid) (task : ReadyTask)
    (load : LoadWeight) :
    (rq.insert_task tid task load).ready_tasks = PriorityQueue.push rq.ready_tasks tid task := by
  simp only [RunQueue.insert_task]
  split_ifs <;> rfl

/-- With nothing queued under `tid`, `insert_task` drops nothing and returns. -/
theorem insertTask_of_not_replaced {tid : Tid} {task : ReadyTask} {load : LoadWeight}
    (hnone : (g.rq c).replaced tid = none) :
    g.insertTask c tid task load = some (g.setRq c ((g.rq c).insert_task tid task load)) := by
  simp [insertTask, hnone]

section InsertTask

variable {tid : Tid} {task : ReadyTask} {load : LoadWeight} {g' : GlobalState}
  (h : g.insertTask c tid task load = some g')
include h

/-- What `insertTask` returns: the state after the drop, with the queue updated. -/
theorem insertTask_cases :
    ∃ g₁, g.dropRunnable ((g.rq c).replaced tid) = some g₁ ∧
      g' = g₁.setRq c ((g.rq c).insert_task tid task load) :=
  Option.map_eq_some_iff.mp h |>.imp fun _ ⟨hdrop, heq⟩ => ⟨hdrop, heq.symm⟩

theorem sched_of_insertTask : g'.sched r' = g.sched r' := by
  obtain ⟨g₁, hdrop, rfl⟩ := insertTask_cases h
  simp [sched_of_dropRunnable hdrop]

theorem ready_tasks_of_insertTask :
    (g'.rq c').ready_tasks =
      if c' = c ∧ c < g.run_queues.length then PriorityQueue.push (g.rq c).ready_tasks tid task
      else (g.rq c').ready_tasks := by
  obtain ⟨g₁, hdrop, rfl⟩ := insertTask_cases h
  simp only [rq_setRq, rq_of_dropRunnable hdrop, run_queues_of_dropRunnable hdrop]
  split_ifs
  · rw [RunQueue.ready_tasks_insert_task]
  · rfl

/-- An insertion that replaces nothing changes no async state. -/
theorem state_of_insertTask (hnone : (g.rq c).replaced tid = none) : g'.state r = g.state r := by
  rw [insertTask_of_not_replaced hnone] at h
  cases h
  rfl

end InsertTask

/-- The sleeper threshold of `schedule_fn`: half of `SCHED_LATENCY`, under
`GENTLE_FAIR_SLEEPERS`. -/
theorem schedule_fn_thresh :
    (if SCHED_FEAT.contains GENTLE_FAIR_SLEEPERS then SCHED_LATENCY >>> 1 else SCHED_LATENCY) =
      3_000_000#64 := by
  decide

/-- Pushing a `ReadyTask` aside writes no `SchedTask`. -/
theorem sched_of_pushReady {tid : Tid} {task : ReadyTask} {g' : GlobalState}
    (h : g.pushReady c tid task = some g') : g'.sched r = g.sched r := by
  obtain ⟨g₁, hdrop, rfl⟩ := Option.map_eq_some_iff.mp h
  rw [sched_setRq, sched_of_dropRunnable hdrop]

/-- `schedule_fn` with the task's `tid`, `load` and `run_queue` read before the two
updates of its `SchedTask`, which do not change them. -/
theorem schedule_fn_eq {rb : Runnable} : g.schedule_fn r rb =
    let c := (g.sched r).run_queue
    let thresh := if SCHED_FEAT.contains GENTLE_FAIR_SLEEPERS then SCHED_LATENCY >>> 1
      else SCHED_LATENCY
    let vruntime := (g.rq c).min_vruntime.sub thresh
    ((g.modifySched r fun t => { t with on_rq := true }).modifySched r
        fun t => { t with vruntime := t.vruntime.max vruntime }).insertTask
      c (g.sched r).tid ⟨vruntime, rb⟩ (g.sched r).load := by
  simp only [schedule_fn, rq_modifySched, tid_sched_modifySched, load_sched_modifySched,
    run_queue_sched_modifySched, implies_true]

section ScheduleFn

variable {rb : Runnable} {g' : GlobalState} (h : g.schedule_fn r rb = some g')
include h

/-- A wake-up writes the task's `on_rq` and `vruntime`, and no other field of any task. -/
theorem sched_of_schedule_fn :
    g'.sched r' = ((g.modifySched r fun t => { t with on_rq := true }).modifySched r
      fun t => { t with
        vruntime := t.vruntime.max ((g.rq (g.sched r).run_queue).min_vruntime.sub 3_000_000#64) }
      ).sched r' := by
  rw [schedule_fn_eq, schedule_fn_thresh] at h
  exact sched_of_insertTask h

theorem tid_sched_of_schedule_fn : (g'.sched r').tid = (g.sched r').tid := by
  rw [sched_of_schedule_fn h]
  simp

/-- After a wake-up the task's queue holds its `Runnable` under its `tid`, keyed
`min_vruntime - thresh`. -/
theorem get_of_schedule_fn (hc : (g.sched r).run_queue < g.run_queues.length) :
    PriorityQueue.get (g'.rq (g.sched r).run_queue).ready_tasks (g.sched r).tid =
      some ⟨(g.rq (g.sched r).run_queue).min_vruntime.sub 3_000_000#64, rb⟩ := by
  rw [schedule_fn_eq, schedule_fn_thresh] at h
  rw [ready_tasks_of_insertTask h]
  simp only [run_queues_modifySched, hc, and_self, if_true, rq_modifySched,
    PriorityQueue.get_push_self]

/-- A wake-up of a task with nothing queued under its `tid` changes no async state. -/
theorem state_of_schedule_fn
    (hnone : PriorityQueue.get (g.rq (g.sched r).run_queue).ready_tasks (g.sched r).tid = none) :
    g'.state r' = g.state r' := by
  rw [schedule_fn_eq] at h
  simpa using state_of_insertTask h (by simpa [RunQueue.replaced] using hnone)

end ScheduleFn

/-! ## The `CallOnDrop` guard -/

/-- The guard's `remove_task` runs on the task's own queue, with its `on_rq` cleared. -/
theorem on_drop_eq : g.on_drop r =
    ((g.modifySched r fun t => { t with on_rq := false }).remove_task
      (g.sched r).run_queue r).map fun g' =>
        { g' with active_tasks := g'.active_tasks.erase (g.sched r).tid } := by
  simp only [on_drop, tid_sched_modifySched, run_queue_sched_modifySched, implies_true,
    Option.bind_eq_bind]
  cases (g.modifySched r fun t => { t with on_rq := false }).remove_task (g.sched r).run_queue r <;>
    rfl

section OnDrop

variable {g' : GlobalState} (h : g.on_drop r = some g')
include h

/-- What the guard returns: the state after its `remove_task`, less the arena's entry. -/
theorem on_drop_cases :
    ∃ g₁, (g.modifySched r fun t => { t with on_rq := false }).remove_task
        (g.sched r).run_queue r = some g₁ ∧
      g' = { g₁ with active_tasks := g₁.active_tasks.erase (g.sched r).tid } := by
  rw [on_drop_eq] at h
  obtain ⟨g₁, hrem, rfl⟩ := Option.map_eq_some_iff.mp h
  exact ⟨g₁, hrem, rfl⟩

theorem sched_of_on_drop :
    g'.sched r' = ((g.modifySched r fun t => { t with on_rq := false }).modifySched r
      fun t => { t with on_rq := false }).sched r' := by
  obtain ⟨g₁, hrem, rfl⟩ := on_drop_cases h
  have hsched : g₁.sched r' = _ := sched_of_remove_task hrem
  exact hsched

end OnDrop

end GlobalState

end Queen.Executor
