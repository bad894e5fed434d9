/-
Runs of the executor that break what its code promises, each with the general fact behind
it.

`Executor::run` releases its run queue while a task is polled and locks it again only
after `runnable.run()` returns, and `remove_task` treats the current task as contained
whether or not it was removed already. So a task that completes is removed twice, once by
its `CallOnDrop` guard and once by the loop (`completion_removes_twice`), and a task woken
between the end of its poll and the loop's `remove_task` has the `Runnable` that the
wake-up queued taken out and dropped under the run queue's and the task's locks; the drop
runs the future's `CallOnDrop` guard, which spins on the task's lock, so the CPU never
comes back and the task never runs again (`wake_before_remove_deadlocks`).
`try_steal_tasks` moves half of another CPU's ready tasks without looking at which they
are, so it can take that CPU's idle task, after which the CPU's `peek().unwrap()` panics
once its own tasks go to sleep (`pop_task_to_run_empty`). A wake-up keys the woken task with
`min_vruntime - thresh` but stores `max(vruntime, min_vruntime - thresh)` in its
`SchedTask`, so the heap orders it by a key that is not its virtual runtime
(`schedule_fn_key_ne_vruntime`).

Each general theorem holds in every state that meets its hypotheses; the run after it
reaches such a state from `init`, replayed by `decide`.
-/
import Queen.Executor.Spec
import Queen.Executor.System

set_option autoImplicit false

namespace Queen.Executor

open Queen.Transition GlobalState

/-! ## Run-queue accounting -/

/-- The tasks of CPU `c`'s queue that are runnable: those whose `ReadyTask` is queued, and
the current task while its `on_rq` is set, each counted once. -/
def runnable_tasks (g : GlobalState) (c : Nat) : List TaskRef :=
  let rq := g.rq c
  let current := match rq.current_task with
    | some (_, r) => if (g.sched r).on_rq then [r] else []
    | none => []
  (rq.ready_tasks.entries.map (fun e => e.2.runnable.task) ++ current).dedup

/-- What `nr_running` and `load` are meant to count: the runnable tasks of the queue and
the sum of their weights. -/
def Accounted (g : GlobalState) (c : Nat) : Prop :=
  (g.rq c).nr_running.toNat = (runnable_tasks g c).length ∧
  (g.rq c).load.weight.toNat = ((runnable_tasks g c).map (fun r => (g.sched r).load.weight.toNat)).sum

instance (g : GlobalState) (c : Nat) : Decidable (Accounted g c) :=
  inferInstanceAs (Decidable (_ ∧ _))

/-- A completing task is removed from its queue twice: once by its `CallOnDrop` guard,
inside `runnable.run()`, and once by the loop, since `run()` returned `false`. Both times
it is still the current task, so `contained` holds both times and `nr_running` drops by
two for one task. -/
theorem completion_removes_twice (s : Sys) (c : Nat) (tid : Tid) (r : TaskRef) (now : Usize)
    (hphase : s.cpus[c]? = some (.running tid r ⟨r⟩)) (hc : c < s.global.run_queues.length)
    (hcur : (s.global.rq c).current_task = some (tid, r))
    (htid : (s.global.sched r).tid = tid) (hrq : (s.global.sched r).run_queue = c)
    (hq : PriorityQueue.get (s.global.rq c).ready_tasks tid = none) :
    ∃ s', (step s (.run c .ready)).bind (fun s => step s (.finish c now)) = some s' ∧
      (s'.global.rq c).nr_running = (s.global.rq c).nr_running - 2 := by
  have hcpu : c < s.cpus.length := (List.getElem?_eq_some_iff.mp hphase).1
  have hran : (s.cpus.set c (.ran tid r false))[c]? = some (.ran tid r false) := by simp [hcpu]
  -- the guard's `remove_task`, on the task's own queue, with its `on_rq` cleared
  let g₀ := s.global.modifySched r fun t => { t with on_rq := false }
  have htid₀ : (g₀.sched r).tid = tid := by simp [g₀, htid]
  obtain ⟨g₁, h₁, hnr₁, hget₁, hcur₁, htid₁⟩ := remove_task_current (g := g₀) (c := c) (r := r)
    (by simpa [g₀] using hc) (by simpa [g₀, htid₀] using hq)
    (by simp [g₀, htid₀, RunQueue.is_current_task, hcur])
  let g₂ := ({ g₁ with active_tasks := g₁.active_tasks.erase tid } : GlobalState).setState r .completed
  have hguard : runnable_run s.global ⟨r⟩ .ready = some (g₂, false) := by
    simp only [runnable_run, on_drop_eq, hrq]
    rw [show (s.global.modifySched r fun t => { t with on_rq := false }).remove_task c r =
      some g₁ from h₁]
    simp [g₂, htid]
  -- the loop's `remove_task` finds the same current task, still not queued
  have hrq₂ : g₂.rq c = g₁.rq c := rfl
  have htid₂ : (g₂.sched r).tid = tid := by
    rw [← htid₀, ← htid₁]
    simp only [g₂, sched_setState]
    rfl
  obtain ⟨g₃, h₃, hnr₃, -⟩ := remove_task_current (g := g₂) (c := c) (r := r)
    (by
      rw [show g₂.run_queues = g₁.run_queues from rfl, run_queues_length_of_remove_task h₁]
      simpa [g₀] using hc)
    (by rw [hrq₂, htid₂, ← htid₀]; exact hget₁)
    (by rw [hrq₂, htid₂, RunQueue.is_current_task, hcur₁]; simp [g₀, hcur])
  rw [step_run hphase, hguard, Option.map_some, Option.bind_some, step_finish hran]
  refine ⟨⟨g₃.task_tick c r now, (s.cpus.set c (.ran tid r false)).set c .pick⟩,
    by simp only [Bool.false_eq_true, ite_false, h₃, Option.map_some], ?_⟩
  simp only [nr_running_task_tick]
  rw [hnr₃, show (g₂.rq c).nr_running = (g₁.rq c).nr_running from rfl, hnr₁]
  simp only [g₀, rq_modifySched]
  bv_omega

/-- A single CPU that runs one task to completion ends with `nr_running` and `load` wrapped
below what its queue holds: the idle task is still queued, the count is zero and the
load is `15 - 1024` modulo `2 ^ 64`. -/
theorem accounting_broken_by_completion : ∃ s, Reachable 1 s ∧ ¬ Accounted s.global 0 := by
  obtain ⟨s, hs, hp⟩ := exists_reachable_of_run step (init 1)
    ([.spawn 0 1 nice_zero none, .pop 0 100, .run 0 .ready, .finish 0 200])
    (fun s => !decide (Accounted s.global 0)) (by decide +kernel)
  exact ⟨s, hs, by simpa using hp⟩

/-! ## Lost wake-ups -/

/-- A wake-up that comes after `runnable.run()` returned `false` and before the loop locks
the run queue again queues a fresh `Runnable` under the task's `tid`. The loop's
`remove_task` takes that `Runnable` out and drops it while it holds the run queue and the
task's `SchedTask`; the future has been polled, so the drop runs its `CallOnDrop` guard,
which spins on that `SchedTask`, and the CPU never comes back from `remove_task`. -/
theorem wake_before_remove_deadlocks (s : Sys) (c : Nat) (tid : Tid) (r : TaskRef)
    (hphase : s.cpus[c]? = some (.ran tid r false)) (hc : c < s.global.run_queues.length)
    (hr : r < s.global.tasks.length) (hidle : s.global.state r = .idle)
    (htid : (s.global.sched r).tid = tid) (hrq : (s.global.sched r).run_queue = c)
    (hq : PriorityQueue.get (s.global.rq c).ready_tasks tid = none) :
    ∃ s', step s (.wake r) = some s' ∧ s'.cpus = s.cpus ∧
      (∃ v, PriorityQueue.get (s'.global.rq c).ready_tasks tid = some ⟨v, ⟨r⟩⟩) ∧
      ∀ now, step s' (.finish c now) = none := by
  let g := s.global.setState r .scheduled
  have hnone : PriorityQueue.get (g.rq (g.sched r).run_queue).ready_tasks (g.sched r).tid = none := by
    simpa [g, htid, hrq] using hq
  -- nothing is queued under `tid`, so the wake-up's `insert_task` drops nothing
  obtain ⟨g', hg'⟩ : ∃ g', g.schedule_fn r ⟨r⟩ = some g' := by
    rw [schedule_fn_eq]
    exact ⟨_, insertTask_of_not_replaced (by simpa [RunQueue.replaced] using hnone)⟩
  have hget : PriorityQueue.get (g'.rq c).ready_tasks tid =
      some ⟨(g.rq c).min_vruntime.sub 3_000_000#64, ⟨r⟩⟩ := by
    simpa [g, htid, hrq] using get_of_schedule_fn hg' (by simpa [g, hrq] using hc)
  have hstate : g'.state r = .scheduled := by
    rw [state_of_schedule_fn hg' hnone]
    simp [g, state_setState, hr]
  have htid' : (g'.sched r).tid = tid := by
    rw [tid_sched_of_schedule_fn hg']
    simp [g, htid]
  refine ⟨{ s with global := g' }, by rw [step_wake_idle hr hidle, hg', Option.map_some], rfl,
    ⟨_, hget⟩, fun now => ?_⟩
  rw [step_finish (s := { s with global := g' }) hphase]
  simp only [Bool.false_eq_true, ite_false]
  rw [remove_task_polled (by rw [htid']; exact hget) (.inl hstate), Option.map_none]

/-- On one CPU, a task returns `Pending` and is woken before the loop removes it: the
wake-up's `Runnable` is queued, and the CPU, just past the poll, never finishes its loop
iteration, so nothing pops that `Runnable` again. -/
theorem wakeup_lost : ∃ s, Reachable 1 s ∧ s.cpus[0]? = some (.ran 1 1 false) ∧
    (∃ v, PriorityQueue.get (s.global.rq 0).ready_tasks 1 = some ⟨v, ⟨1⟩⟩) ∧
    ∀ now, step s (.finish 0 now) = none := by
  obtain ⟨s₀, hs₀, hp⟩ := exists_reachable_of_run step (init 1)
    ([.spawn 0 1 nice_zero none, .pop 0 100, .run 0 (.pending false)])
    (fun s => decide (s.cpus[0]? = some (CpuPhase.ran 1 1 false) ∧ 0 < s.global.run_queues.length ∧
      1 < s.global.tasks.length ∧ s.global.state 1 = .idle ∧ (s.global.sched 1).tid = 1 ∧
      (s.global.sched 1).run_queue = 0 ∧ PriorityQueue.get (s.global.rq 0).ready_tasks 1 = none))
    (by decide +kernel)
  obtain ⟨hphase, hc, hr, hidle, htid, hrq, hq⟩ := of_decide_eq_true hp
  obtain ⟨s, hstep, hcpus, hget, hfinish⟩ :=
    wake_before_remove_deadlocks s₀ 0 1 1 hphase hc hr hidle htid hrq hq
  exact ⟨s, hs₀.step ⟨_, hstep⟩, hcpus ▸ hphase, hget, hfinish⟩

/-! ## Panics in `pop_task_to_run` -/

/-- `pop_task_to_run` panics at its first `peek().unwrap()` on a CPU whose queue is empty,
with fewer than two running tasks and nothing to steal. -/
theorem pop_task_to_run_empty (g : GlobalState) (c : Nat) (now : Usize)
    (hempty : (g.rq c).ready_tasks.entries = []) (hnr : (g.rq c).nr_running < 2)
    (hsteal : ∀ v ∈ g.other_run_queues c, ¬ (g.rq v).nr_running > 2) :
    g.pop_task_to_run c now = none := by
  have hfind : (g.other_run_queues c).find? (fun v => (g.rq v).nr_running > 2) = none := by
    simpa using hsteal
  have hpeek : (g.rq c).peek = none := by
    rw [RunQueue.peek, ← Option.not_isSome_iff_eq_none, PriorityQueue.peek_isSome]
    exact fun h => h hempty
  -- no victim, so the steal leaves the state as it is; then the first `peek` fails
  have hsteal' : g.try_steal_tasks c = some g := by
    simp only [try_steal_tasks, hfind]
  have hnext : g.next_tid c = none := by
    simp only [next_tid, if_pos hnr, hpeek, Option.map_none]
  simp [pop_task_to_run, hsteal', hnext]

/-- With two CPUs, CPU `0` steals CPU `1`'s idle task while CPU `1` runs two tasks; once
both sleep, CPU `1` has nothing to run and panics at whatever time it next looks. -/
theorem pop_panics_after_steal : ∃ s, Reachable 2 s ∧ s.cpus[1]? = some .pick ∧
    ∀ now, s.global.pop_task_to_run 1 now = none := by
  obtain ⟨s, hs, hp⟩ := exists_reachable_of_run step (init 2)
    ([.spawn 1 2 nice_zero none, .spawn 1 3 nice_zero none,
      .pop 1 100, .run 1 (.pending true), .finish 1 1000000000,
      .pop 1 1000000000, .run 1 (.pending true), .finish 1 2000000000,
      .pop 0 2000000000,
      .pop 1 2000000001, .run 1 (.pending false), .finish 1 2000000002,
      .pop 1 2000000003, .run 1 (.pending false), .finish 1 2000000004])
    (fun s => decide (s.cpus[1]? = some CpuPhase.pick ∧ (s.global.rq 1).ready_tasks.entries = [] ∧
      (s.global.rq 1).nr_running < 2 ∧
      ∀ v ∈ s.global.other_run_queues 1, ¬ (s.global.rq v).nr_running > 2)) (by decide +kernel)
  simp only [decide_eq_true_eq] at hp
  obtain ⟨hpick, hempty, hnr, hsteal⟩ := hp
  exact ⟨s, hs, hpick, fun now => pop_task_to_run_empty s.global 1 now hempty hnr hsteal⟩

/-! ## Queue keys and virtual runtimes -/

/-- A wake-up keys the task with `min_vruntime - thresh` and stores `max(vruntime,
min_vruntime - thresh)` in its `SchedTask`. When the task is ahead of the key, the queue's
key and the task's virtual runtime differ. -/
theorem schedule_fn_key_ne_vruntime {g g' : GlobalState} {r : TaskRef} {rb : Runnable}
    (h : g.schedule_fn r rb = some g')
    (hr : r < g.tasks.length) (hc : (g.sched r).run_queue < g.run_queues.length)
    (hahead : compare (g.sched r).vruntime
      ((g.rq (g.sched r).run_queue).min_vruntime.sub 3_000_000#64) = .gt) :
    ∃ ready, PriorityQueue.get (g'.rq (g.sched r).run_queue).ready_tasks (g.sched r).tid =
      some ready ∧ ready.vruntime ≠ (g'.sched r).vruntime := by
  set key := (g.rq (g.sched r).run_queue).min_vruntime.sub 3_000_000#64 with hkey
  have hvruntime : (g'.sched r).vruntime = (g.sched r).vruntime := by
    rw [sched_of_schedule_fn h]
    simp only [sched_modifySched, tasks_length_modifySched, hr, and_self, if_true]
    simp only [VRuntime.max, ← hkey, hahead, if_true]
  refine ⟨⟨key, rb⟩, get_of_schedule_fn h hc, ?_⟩
  rw [hvruntime]
  intro heq
  rw [← heq] at hahead
  simp [compare, VRuntime.delta, compareOfLessAndEq] at hahead

/-- On one CPU, a task that sleeps after its first run and is woken while the CPU is back at
the top of its loop is queued under `min_vruntime - thresh = 0 - 3_000_000`, wrapped, while
its `SchedTask` keeps the virtual runtime it ran up. `pop_task_to_run` starts with that key. -/
theorem ready_key_disagrees : ∃ s, Reachable 1 s ∧ s.cpus[0]? = some .pick ∧
    s.global.task 1 = some 1 ∧ ∃ ready, PriorityQueue.get (s.global.rq 0).ready_tasks 1 = some ready ∧
      ready.vruntime ≠ (s.global.sched 1).vruntime := by
  obtain ⟨s, hs, hp⟩ := exists_reachable_of_run step (init 1)
    ([.spawn 0 1 nice_zero none, .pop 0 100, .run 0 (.pending false), .finish 0 200, .wake 1])
    (fun s => decide (s.cpus[0]? = some CpuPhase.pick ∧ s.global.task 1 = some 1 ∧
      PriorityQueue.get (s.global.rq 0).ready_tasks 1 = some ⟨⟨0 - 3_000_000#64⟩, ⟨1⟩⟩ ∧
      (⟨0 - 3_000_000#64⟩ : VRuntime) ≠ (s.global.sched 1).vruntime)) (by decide +kernel)
  obtain ⟨hpick, htask, hget, hne⟩ := of_decide_eq_true hp
  exact ⟨s, hs, hpick, htask, _, hget, hne⟩

end Queen.Executor
