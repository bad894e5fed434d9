/-
What an exit stops and what `sys_wait4` reaps, over the tables of `Queen.Process.Table`.

`Process::exit` (from `sys_exit_group`, from the last thread's `sys_exit`, and from a
signal's default `Term` action in `handle_signal`) sets the exit code, empties the thread
list and removes the listed tids from `THREADS`. It does not stop a thread: the loop of
`Thread::spawn` breaks only on the `exit` flag of its own thread's system call or signal, and
nothing in it looks at the process. So a sibling of the thread that exits the group keeps
running user code and making system calls after its process has exited
(`sibling_survives_exit_group`).

`sys_wait4` looks a positive `pid` up in `PROCESSES`, not in the caller's children, and reaps
what it finds there if it has exited; the check that `pid` names a child runs only when
nothing was found. So the caller reaps, and takes out of `PROCESSES`, any exited process other
than its own, its child or not (`wait4_reaps_non_child`). Its own pid it does not reap: it
holds its own process's lock when it takes the lock of the process found, and the spin lock
waits for ever (`sys_wait4_own_pid_deadlocks`). `pid = 0` searches the same children as
`pid = -1`: the process group is not read (`sys_wait4_any_child_in_group`).
-/
import Queen.Process.Lifecycle

set_option autoImplicit false
set_option linter.dupNamespace false

namespace Queen.Process

open Queen.Transition

namespace Kernel

/-! ## `sys_exit_group` stops the caller only -/

section ExitGroup

variable (k : Kernel) (t : ThreadRef) (exit_code : Nat)

@[simp] theorem thrs_length_sys_exit_group :
    (k.sys_exit_group t exit_code).thrs.length = k.thrs.length := by
  simp [sys_exit_group]

/-- `sys_exit_group` stops the calling thread's task and no other. -/
theorem thread_sys_exit_group (u : ThreadRef) (hu : u ≠ t) :
    (k.sys_exit_group t exit_code).thread u = k.thread u := by
  rw [sys_exit_group, thread_stop, if_neg (fun h => hu h.1), thread_exit_process]

/-- `Process::exit` empties the caller's process's thread list: it has exited. -/
theorem exited_sys_exit_group :
    ((k.sys_exit_group t exit_code).process (k.thread t).process).exited = true := by
  rw [sys_exit_group, process_stop, Process.exited, threads_exit_process, if_pos rfl]
  rfl

/-- Every other thread can make a system call after `sys_exit_group` exactly when it could
before. -/
theorem can_call_sys_exit_group (u : ThreadRef) (hu : u ≠ t) :
    (k.sys_exit_group t exit_code).can_call u = k.can_call u := by
  rw [can_call, can_call, thrs_length_sys_exit_group, thread_sys_exit_group k t exit_code u hu]

end ExitGroup

/-- **A thread outlives its process.** When a thread calls `sys_exit_group`, every other
running thread of its process is still running after `Process::exit` has emptied the
process's thread list, and its next system call is dispatched. -/
theorem sibling_survives_exit_group (k : Kernel) {t u : ThreadRef} (hne : u ≠ t)
    (hsame : (k.thread u).process = (k.thread t).process) (ht : k.can_call t = true)
    (hu : k.can_call u = true) (exit_code : Nat) :
    step k (.exit_group t exit_code) = some (k.sys_exit_group t exit_code) ∧
      ((k.sys_exit_group t exit_code).process (k.thread u).process).exited = true ∧
      (k.sys_exit_group t exit_code).can_call u = true ∧
      (step (k.sys_exit_group t exit_code) (.fork u)).isSome := by
  have hcall : (k.sys_exit_group t exit_code).can_call u = true := by
    rw [can_call_sys_exit_group k t exit_code u hne]
    exact hu
  refine ⟨by simp [step, ht], ?_, hcall, by simp [step, hcall]⟩
  rw [hsame]
  exact exited_sys_exit_group k t exit_code

/-- After `new_user` (thread `0`) and a `clone` (thread `1`), thread `0` exits the group and
thread `1` goes on. -/
theorem sibling_survives_exit_group_after_clone :
    ∃ k, Reachable k ∧ (1 : ThreadRef) ≠ 0 ∧ (k.thread 1).process = (k.thread 0).process ∧
      k.can_call 0 = true ∧ k.can_call 1 = true ∧
      step k (.exit_group 0 0) = some (k.sys_exit_group 0 0) ∧
      ((k.sys_exit_group 0 0).process (k.thread 1).process).exited = true ∧
      (k.sys_exit_group 0 0).can_call 1 = true ∧ (step (k.sys_exit_group 0 0) (.fork 1)).isSome := by
  obtain ⟨k, hk, hp⟩ := exists_reachable_of_run step init [.new_user, .clone 0]
    (fun k => decide ((k.thread 1).process = (k.thread 0).process ∧ k.can_call 0 = true ∧
      k.can_call 1 = true)) (by decide)
  obtain ⟨hsame, h0, h1⟩ := of_decide_eq_true hp
  exact ⟨k, hk, by decide, hsame, h0, h1, sibling_survives_exit_group k (by decide) hsame h0 h1 0⟩

/-! ## `sys_wait4` -/

/-- For a positive `pid`, `sys_wait4` reaps the exited process that `PROCESSES` holds under it,
when it is not the caller's own: it takes it out of `PROCESSES` and returns its pid and exit
code. -/
theorem sys_wait4_pid_exited (k : Kernel) (t : ThreadRef) {pid : Pid} {c : ProcessRef}
    (hp : k.process_of pid = some c) (hself : c ≠ (k.thread t).process)
    (hex : (k.process c).exited = true) :
    k.sys_wait4 t (.Pid pid) =
      some ((({ k with PROCESSES := k.PROCESSES.erase (k.process c).pid } : Kernel).modifyProcess
          (k.thread t).process fun proc =>
            { proc with children := proc.children.filter (·.1 ≠ (k.process c).pid) }),
        .reaped (k.process c).pid (k.process c).exit_code) := by
  have hfree : wait_locks_self k (k.thread t).process (.Pid pid) = false := by
    simp [wait_locks_self, hp, hself]
  simp only [sys_wait4, hfree, Bool.false_eq_true, if_false, wait_find, hp, hex, if_true]

/-- **`wait4` on the caller's own pid never returns.** `sys_wait4` holds the lock of its own
process while it takes the lock of the process `PROCESSES` holds under `pid`; when that is its
own, `c.lock()` spins on the lock it holds. -/
theorem sys_wait4_own_pid_deadlocks (k : Kernel) (t : ThreadRef) {pid : Pid}
    (hp : k.process_of pid = some (k.thread t).process) : k.sys_wait4 t (.Pid pid) = none := by
  have hself : wait_locks_self k (k.thread t).process (.Pid pid) = true := by
    simp [wait_locks_self, hp]
  simp only [sys_wait4, hself, if_true]

/-- `pid = 0` and `pid = -1` wait for the same children: the process group is not read. -/
theorem sys_wait4_any_child_in_group (k : Kernel) (t : ThreadRef) :
    k.sys_wait4 t .AnyChildInGroup = k.sys_wait4 t .AnyChild := by
  rfl

/-- **`sys_wait4` reaps whatever exited process `pid` names.** A positive `pid` naming an
exited process in `PROCESSES` other than the caller's own is reaped, whether or not it is among
the caller's children: the call returns `Ok(pid)` with its exit code and the process leaves
`PROCESSES`. -/
theorem wait4_reaps_non_child (k : Kernel) (t : ThreadRef) {pid : Pid} {c : ProcessRef}
    (hp : k.process_of pid = some c) (hpid : (k.process c).pid = pid)
    (hself : c ≠ (k.thread t).process) (hex : (k.process c).exited = true) :
    ∃ k', k.sys_wait4 t (.Pid pid) = some (k', .reaped pid (k.process c).exit_code) ∧
      k'.process_of pid = none := by
  rw [sys_wait4_pid_exited k t hp hself hex, hpid]
  refine ⟨_, rfl, ?_⟩
  simp only [process_of]
  exact AList.lookup_erase _ _

/-- After `new_user` (pid 1), a `fork` (pid 2) and a `fork` by the child (pid 3), the grandchild
exits its group; the first thread's `wait4(3)` reaps it. -/
theorem wait4_reaps_grandchild :
    ∃ k, Reachable k ∧ k.can_call 0 = true ∧ k.process_of 3 = some 2 ∧ (k.process 2).pid = 3 ∧
      2 ≠ (k.thread 0).process ∧ (k.process 2).exited = true ∧
      (∀ e ∈ (k.process (k.thread 0).process).children, e.2 ≠ 2) ∧
      ∃ k', k.sys_wait4 0 (.Pid 3) = some (k', .reaped 3 (k.process 2).exit_code) ∧
        k'.process_of 3 = none := by
  obtain ⟨k, hk, hp⟩ := exists_reachable_of_run step init [.new_user, .fork 0, .fork 1, .exit_group 2 7]
    (fun k => decide (k.can_call 0 = true ∧ k.process_of 3 = some 2 ∧ (k.process 2).pid = 3 ∧
      2 ≠ (k.thread 0).process ∧ (k.process 2).exited = true ∧
      ∀ e ∈ (k.process (k.thread 0).process).children, e.2 ≠ 2))
    (by decide)
  obtain ⟨hcall, hof, hpid, hself, hex, hnot⟩ := of_decide_eq_true hp
  exact ⟨k, hk, hcall, hof, hpid, hself, hex, hnot, wait4_reaps_non_child k 0 hof hpid hself hex⟩

end Kernel

end Queen.Process
