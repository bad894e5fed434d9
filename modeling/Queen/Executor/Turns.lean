/-
What the preemption test of `pop_task_to_run` measures, `kernel/src/task/executor/mod.rs`.

`pop_task_to_run` compares `delta_exec = sum_exec_runtime - prev_sum_exec_runtime` of the
current task with its slice, and a turn begins when it sets `exec_start`. `SchedTask::tick`
adds the time since `exec_start` to `sum_exec_runtime`. Nothing but `SchedTask::new` writes
`prev_sum_exec_runtime`, and it writes `0`: every update of a `SchedTask` the executor makes
keeps the field (`prev_sum_exec_runtime_step`). So in every state the executor reaches the
field is `0`, and `delta_exec` is all the time the task has run since it was spawned, over all
its turns.

`SchedTask::tick` takes `now` from the generic timer, whose `read_ns` drops once its product
leaves `u64`: a task that started running before the drop and is ticked after it is charged
`now - exec_start` wrapped, `2 ^ 64` nanoseconds less the drop (`tick_after_drop`).
-/
import Queen.Executor.Spec
import Queen.Executor.System
import Queen.Task.Timer

set_option autoImplicit false

namespace Queen.Executor

open Queen.Transition GlobalState

/-- No task has a `prev_sum_exec_runtime` other than `0`. -/
def PrevZero (g : GlobalState) : Prop := ∀ r, (g.sched r).prev_sum_exec_runtime = 0

namespace GlobalState

variable {g g' : GlobalState} {c c' victim : Nat} {r r' : TaskRef}

/-! ## Every update keeps `prev_sum_exec_runtime` -/

@[simp] theorem prev_sum_exec_runtime_tick (t : SchedTask) (now : Usize) :
    (t.tick now).prev_sum_exec_runtime = t.prev_sum_exec_runtime := rfl

@[simp] theorem prev_sum_exec_runtime_sched_modifySched {f : SchedTask → SchedTask}
    (hf : ∀ t, (f t).prev_sum_exec_runtime = t.prev_sum_exec_runtime) :
    ((g.modifySched r f).sched r').prev_sum_exec_runtime = (g.sched r').prev_sum_exec_runtime :=
  sched_modifySched_of SchedTask.prev_sum_exec_runtime hf

theorem sched_foldlM_pushReady (back : List (Tid × ReadyTask)) {g g' : GlobalState}
    (h : back.foldlM (fun g (tid, task) => g.pushReady c tid task) g = some g') :
    g'.sched r = g.sched r := by
  induction back generalizing g with
  | nil =>
    cases h
    rfl
  | cons e back ih =>
    rw [List.foldlM_cons] at h
    obtain ⟨g₁, h₁, h⟩ := Option.bind_eq_some_iff.mp h
    rw [ih h, sched_of_pushReady h₁]

/-- A steal rewrites the stolen tasks' `vruntime` and `run_queue`, and nothing else of them. -/
theorem prev_sum_exec_runtime_steal_loop :
    ∀ {count : Nat} {g g' : GlobalState} {back back' : List (Tid × ReadyTask)},
      g.steal_loop c victim count back = some (g', back') →
        (g'.sched r).prev_sum_exec_runtime = (g.sched r).prev_sum_exec_runtime
  | 0, g, g', back, back', h => by
    simp only [steal_loop, Option.some.injEq, Prod.mk.injEq] at h
    rw [h.1]
  | count + 1, g, g', back, back', h => by
    unfold steal_loop at h
    dsimp only at h
    split at h
    · cases h
    · next tid ready_task rest hpop =>
      split at h
      · -- the victim's current task goes back aside
        rw [prev_sum_exec_runtime_steal_loop h, sched_setRq]
      · split at h
        · cases h
        · next r₁ _ =>
          split at h
          · cases h
          · next g₁ hpush =>
            rw [prev_sum_exec_runtime_steal_loop h, sched_of_pushReady hpush]
            simp only [prev_sum_exec_runtime_sched_modifySched, implies_true, sched_setRq]

theorem prev_sum_exec_runtime_try_steal_tasks (h : g.try_steal_tasks c = some g') :
    (g'.sched r).prev_sum_exec_runtime = (g.sched r).prev_sum_exec_runtime := by
  unfold try_steal_tasks at h
  split at h
  · cases h
    rfl
  · split at h
    · cases h
    · next g₁ back hloop =>
      rw [sched_foldlM_pushReady back h, prev_sum_exec_runtime_steal_loop hloop]

/-- Choosing the next task only moves `ReadyTask`s. -/
theorem sched_next_tid {tid : Tid} (h : g.next_tid c = some (g', tid)) : g'.sched r = g.sched r := by
  unfold next_tid at h
  dsimp only at h
  split at h
  · obtain ⟨_, -, h⟩ := Option.map_eq_some_iff.mp h
    cases h
    rfl
  · split at h
    · obtain ⟨_, -, h⟩ := Option.map_eq_some_iff.mp h
      cases h
      rfl
    · split at h
      · cases h
      · cases h
        rfl
      · split at h
        · cases h
        · cases h
          rfl

/-- `pop_task_to_run` writes the chosen task's `exec_start`, and no `prev_sum_exec_runtime`. -/
theorem prev_sum_exec_runtime_pop_task_to_run {now : Usize} {tid : Tid} {r₁ : TaskRef} {rb : Runnable}
    (h : g.pop_task_to_run c now = some (g', tid, r₁, rb)) :
    (g'.sched r).prev_sum_exec_runtime = (g.sched r).prev_sum_exec_runtime := by
  unfold pop_task_to_run at h
  dsimp only at h
  -- with or without a steal first; then only `ReadyTask`s move and `exec_start` is written
  split at h <;>
    simp only [Option.bind_eq_bind, Option.bind_eq_some_iff, Option.bind_some, Option.some.injEq,
      Prod.mk.injEq] at h
  · obtain ⟨g₁, hsteal, ⟨g₂, tid₂⟩, hnext, ready, -, r₂, -, rfl, -⟩ := h
    simp only [prev_sum_exec_runtime_sched_modifySched, implies_true, sched_setRq]
    rw [sched_next_tid hnext, prev_sum_exec_runtime_try_steal_tasks hsteal]
  · obtain ⟨⟨g₂, tid₂⟩, hnext, ready, -, r₂, -, rfl, -⟩ := h
    simp only [prev_sum_exec_runtime_sched_modifySched, implies_true, sched_setRq]
    rw [sched_next_tid hnext]

theorem prev_sum_exec_runtime_of_remove_task (h : g.remove_task c r = some g') :
    (g'.sched r').prev_sum_exec_runtime = (g.sched r').prev_sum_exec_runtime := by
  rw [sched_of_remove_task h]
  exact prev_sum_exec_runtime_sched_modifySched fun _ => rfl

@[simp] theorem prev_sum_exec_runtime_task_tick {now : Usize} :
    ((g.task_tick c r now).sched r').prev_sum_exec_runtime = (g.sched r').prev_sum_exec_runtime := by
  simp only [task_tick, sched_update_min_vruntime, sched_setRq]
  exact prev_sum_exec_runtime_sched_modifySched fun _ => rfl

theorem prev_sum_exec_runtime_of_schedule_fn {rb : Runnable} (h : g.schedule_fn r rb = some g') :
    (g'.sched r').prev_sum_exec_runtime = (g.sched r').prev_sum_exec_runtime := by
  rw [sched_of_schedule_fn h]
  simp

theorem prev_sum_exec_runtime_of_on_drop (h : g.on_drop r = some g') :
    (g'.sched r').prev_sum_exec_runtime = (g.sched r').prev_sum_exec_runtime := by
  rw [sched_of_on_drop h]
  simp

end GlobalState

/-- A spawned task starts from `SchedTask::new`, with `prev_sum_exec_runtime = 0`. -/
theorem PrevZero.spawn {g g' : GlobalState} {c : Nat} {tid : Tid} {nice : Nice}
    {parent : Option TaskRef} {r' : TaskRef} (hg : PrevZero g)
    (h : g.spawn c tid nice parent = some (g', r')) : PrevZero g' := by
  simp only [GlobalState.spawn, Option.bind_eq_bind, Option.bind_eq_some_iff, Option.some.injEq,
    Prod.mk.injEq] at h
  obtain ⟨g₁, hins, rfl, -⟩ := h
  intro r
  simp only [prev_sum_exec_runtime_sched_modifySched, implies_true, sched_of_insertTask hins]
  simp only [sched]
  by_cases hr : r < g.tasks.length
  · rw [List.getD_append _ _ _ _ hr]
    exact hg r
  · rw [List.getD_append_right _ _ _ _ (Nat.le_of_not_lt hr)]
    rcases Nat.eq_zero_or_pos (r - g.tasks.length) with h0 | hpos
    · -- the new task, at the end of the heap
      rw [h0, List.getD_cons_zero]
      split_ifs <;> rfl
    · rw [List.getD_eq_default _ _ (by simp; omega)]
      rfl

/-! ## Every step keeps `prev_sum_exec_runtime` at `0` -/

theorem prev_sum_exec_runtime_runnable_run {g g' : GlobalState} {rb : Runnable}
    {o : PollOutcome} {is_yielded : Bool} (h : runnable_run g rb o = some (g', is_yielded))
    (r : TaskRef) :
    (g'.sched r).prev_sum_exec_runtime = (g.sched r).prev_sum_exec_runtime := by
  cases o with
  | ready =>
    obtain ⟨g₁, hdrop, h⟩ := Option.map_eq_some_iff.mp h
    cases h
    rw [sched_setState, prev_sum_exec_runtime_of_on_drop hdrop]
  | pending woken =>
    cases woken with
    | true =>
      obtain ⟨g₁, hsched, h⟩ := Option.map_eq_some_iff.mp h
      cases h
      rw [prev_sum_exec_runtime_of_schedule_fn hsched, sched_setState]
    | false =>
      cases h
      rw [sched_setState]

theorem PrevZero.step {s s' : Sys} (hs : PrevZero s.global) {a : Action} (h : step s a = some s') :
    PrevZero s'.global := by
  intro r
  cases a with
  | spawn c tid nice parent =>
    simp only [Executor.step] at h
    split at h
    · obtain ⟨⟨g, r'⟩, hsp, rfl⟩ := Option.map_eq_some_iff.mp h
      exact hs.spawn hsp r
    · cases h
  | pop c now =>
    simp only [Executor.step] at h
    split at h
    · obtain ⟨⟨g, tid, r₁, rb⟩, hpop, rfl⟩ := Option.map_eq_some_iff.mp h
      rw [GlobalState.prev_sum_exec_runtime_pop_task_to_run hpop]
      exact hs r
    · cases h
  | run c o =>
    simp only [Executor.step] at h
    split at h
    · obtain ⟨⟨g, is_yielded⟩, hrun, rfl⟩ := Option.map_eq_some_iff.mp h
      show (g.sched r).prev_sum_exec_runtime = 0
      rw [prev_sum_exec_runtime_runnable_run hrun]
      exact hs r
    · cases h
  | finish c now =>
    simp only [Executor.step] at h
    split at h
    · next r₁ is_yielded _ =>
      obtain ⟨g, hg, rfl⟩ := Option.map_eq_some_iff.mp h
      show ((g.task_tick c r₁ now).sched r).prev_sum_exec_runtime = 0
      rw [GlobalState.prev_sum_exec_runtime_task_tick]
      -- a yielded task stays queued; otherwise `remove_task` returned
      split at hg
      · cases hg
        exact hs r
      · rw [GlobalState.prev_sum_exec_runtime_of_remove_task hg]
        exact hs r
    · cases h
  | wake r₁ =>
    simp only [Executor.step] at h
    split_ifs at h
    · obtain ⟨g, hg, rfl⟩ := Option.map_eq_some_iff.mp h
      show (g.sched r).prev_sum_exec_runtime = 0
      rw [GlobalState.prev_sum_exec_runtime_of_schedule_fn hg, sched_setState]
      exact hs r
    · cases h
      exact hs r

theorem PrevZero.init (n : Nat) : PrevZero (init n).global := by
  -- `executor::init` spawns the idle tasks one by one into an empty heap
  suffices h : ∀ (cs : List Nat) (g : GlobalState), PrevZero g →
      PrevZero (cs.foldl (fun g c => ((g.spawn c c idle_nice none).map Prod.fst).getD g) g) from
    h _ _ fun _ => rfl
  intro cs
  induction cs with
  | nil => exact fun _ hg => hg
  | cons c cs ih =>
    intro g hg
    apply ih
    show PrevZero (((g.spawn c c idle_nice none).map Prod.fst).getD g)
    rcases hsp : g.spawn c c idle_nice none with _ | ⟨g', r'⟩
    · exact hg
    · exact hg.spawn hsp

/-- **The preemption test measures a task's whole runtime.** In every state an executor
reaches, `delta_exec` of every task, `sum_exec_runtime - prev_sum_exec_runtime`, is its
`sum_exec_runtime`: the time it has run over all its turns since it was spawned, not since
`pop_task_to_run` last chose it. -/
theorem delta_exec_is_lifetime_runtime {n : Nat} {s : Sys} (hs : Reachable n s) (r : TaskRef) :
    (s.global.sched r).sum_exec_runtime - (s.global.sched r).prev_sum_exec_runtime =
      (s.global.sched r).sum_exec_runtime := by
  have hzero : PrevZero s.global := by
    refine Reachable.inv (P := fun s : Sys => PrevZero s.global) ?_ ?_ hs
    · rintro s rfl
      exact PrevZero.init n
    · rintro s s' hs ⟨a, h⟩
      exact hs.step h
  rw [hzero r]
  exact BitVec.sub_zero _


/-! ## Kernel time that drops -/

/-- A task that started running before the drop and is ticked after it is charged `now -
exec_start` wrapped: `2 ^ 64` nanoseconds less the drop. -/
theorem tick_after_drop (t : SchedTask) (freq : BitVec 64) (hpos : 1 ≤ freq.toNat)
    (hlt : freq.toNat < 2 ^ 32) (hstart : t.exec_start = Arch.read_ns 18_446_744_073#64 freq) :
    ((t.tick (Arch.read_ns 18_446_744_074#64 freq)).sum_exec_runtime - t.sum_exec_runtime).toNat =
      2 ^ 64 - ((Arch.read_ns 18_446_744_073#64 freq).toNat -
        (Arch.read_ns 18_446_744_074#64 freq).toNat) := by
  have hdrop := Arch.read_ns_drops freq hpos hlt
  have hbound := (Arch.read_ns 18_446_744_073#64 freq).isLt
  have hdelta : (t.tick (Arch.read_ns 18_446_744_074#64 freq)).sum_exec_runtime - t.sum_exec_runtime =
      Arch.read_ns 18_446_744_074#64 freq - t.exec_start := by
    simp only [SchedTask.tick]
    rw [BitVec.add_comm, BitVec.add_sub_cancel]
  rw [hdelta, hstart, BitVec.toNat_sub, Nat.mod_eq_of_lt (by omega)]
  omega

/-- One CPU and two tasks of nice level `0`: task `2` runs from `1 ms` to `5 ms`, task `1`
from `5 ms` to `8 ms`, and at `8 ms` `pop_task_to_run` goes back to task `2`. Its new turn has
not run at all, but its `delta_exec` is the `4 ms` of its first turn. -/
theorem delta_exec_is_lifetime_runtime_after_switch :
    ∃ s₀ s, Reachable 1 s₀ ∧ (s₀.global.rq 0).current_task = some (1, 1) ∧
      step s₀ (.pop 0 8_000_000) = some s ∧ (s.global.rq 0).current_task = some (2, 2) ∧
      (s.global.sched 2).exec_start = 8_000_000 ∧
      (s.global.sched 2).sum_exec_runtime - (s.global.sched 2).prev_sum_exec_runtime = 4_000_000 := by
  obtain ⟨s₀, hs₀, hp⟩ := exists_reachable_of_run step (init 1)
    ([.spawn 0 1 nice_zero none, .spawn 0 2 nice_zero none,
      .pop 0 1_000_000, .run 0 (.pending true), .finish 0 5_000_000,
      .pop 0 5_000_000, .run 0 (.pending true), .finish 0 6_000_000,
      .pop 0 6_000_000, .run 0 (.pending true), .finish 0 7_000_000,
      .pop 0 7_000_000, .run 0 (.pending true), .finish 0 8_000_000])
    (fun s₀ : Sys => decide ((s₀.global.rq 0).current_task = some (1, 1)) &&
      (step s₀ (.pop 0 8_000_000)).any fun s : Sys => decide ((s.global.rq 0).current_task = some (2, 2) ∧
        (s.global.sched 2).exec_start = 8_000_000 ∧ (s.global.sched 2).sum_exec_runtime = 4_000_000))
    (by decide +kernel)
  simp only [Bool.and_eq_true, decide_eq_true_eq, Option.any_eq_true] at hp
  obtain ⟨hcur₀, s, hstep, hcur, hstart, hsum⟩ := hp
  have hs : Reachable 1 s := Transition.Reachable.step hs₀ ⟨_, hstep⟩
  refine ⟨s₀, s, hs₀, hcur₀, hstep, hcur, hstart, ?_⟩
  rw [delta_exec_is_lifetime_runtime hs 2, hsum]

end Queen.Executor
