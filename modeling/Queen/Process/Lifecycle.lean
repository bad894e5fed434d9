/-
What the process and thread tables keep along every run, and two runs where they break
what `sys_wait4` and the pid space rely on.

`THREADS` and the processes' thread lists are kept by hand, operation by operation. One
direction holds in every reachable state (`listed_in_table`): a tid in a process's list
has an entry of `THREADS`, for a thread of that process. The other does not: `new_user`
puts its thread in `THREADS` and never in its process's list (`new_user_unlisted`), and
`sys_exit` takes the caller out of the list and never out of `THREADS` (`THREADS_sys_exit`),
so a process can be `exited()` while its thread is still in the table
(`thread_table_disagrees`).

A pid is the tid of the process's first thread. `Process::exit`, from `sys_exit_group`,
frees the tids of a process that stays in `PROCESSES` until its parent waits for it; the
next `fork` takes the lowest free tid, which can be that zombie's pid, and
`add_to_process_table` overwrites its entry (`fork_replaces_entry`). The zombie is dropped
before its parent reaps it (`zombie_replaced_by_fork`).
-/
import Queen.Process.Table

set_option autoImplicit false
set_option linter.dupNamespace false

namespace Queen.Process

open Queen.Transition

namespace Kernel

/-! ## The invariant -/

/-- What the tables keep: every entry of `THREADS` names a thread object with that tid, and
every tid in a process's thread list has an entry of `THREADS` whose thread belongs to that
process. -/
structure Inv (k : Kernel) : Prop where
  table : ∀ tid t, k.thread_of tid = some t → t < k.thrs.length ∧ (k.thread t).tid = tid
  listed : ∀ p tid, tid ∈ (k.process p).threads →
    ∃ t, k.thread_of tid = some t ∧ (k.thread t).process = p

theorem inv_init : Inv init := by
  constructor
  · intro tid t ht
    simp [init, thread_of] at ht
  · intro p tid hmem
    simp [init, process] at hmem
    exact absurd hmem List.not_mem_nil

/-- An operation that keeps `THREADS` and the tid and process of every thread object, and
only shortens thread lists, keeps the invariant. -/
theorem Inv.of_frame {k k' : Kernel} (h : Inv k) (hT : k'.THREADS = k.THREADS)
    (hlen : k'.thrs.length = k.thrs.length) (htid : ∀ t, (k'.thread t).tid = (k.thread t).tid)
    (hproc : ∀ t, (k'.thread t).process = (k.thread t).process)
    (hthreads : ∀ p, (k'.process p).threads ⊆ (k.process p).threads) : Inv k' := by
  have hof : ∀ tid, k'.thread_of tid = k.thread_of tid := fun tid => by
    simp only [thread_of, hT]
  constructor
  · intro tid t ht
    rw [hof] at ht
    rw [hlen, htid]
    exact h.table tid t ht
  · intro p tid hmem
    obtain ⟨t, ht, htp⟩ := h.listed p tid (hthreads p hmem)
    exact ⟨t, (hof tid).trans ht, (hproc t).trans htp⟩

/-! ### The steps the operations are made of -/

section Steps

variable {k : Kernel}

theorem Inv.modifyProcess (h : Inv k) (p : ProcessRef) (f : Process → Process)
    (hf : ∀ proc, (f proc).threads ⊆ proc.threads) : Inv (k.modifyProcess p f) := by
  refine h.of_frame rfl rfl (fun _ => rfl) (fun _ => rfl) (fun q => ?_)
  rw [process_modifyProcess]
  split
  · exact hf _
  · exact List.Subset.refl _

/-- A new process, with no threads yet. -/
theorem Inv.alloc_process (h : Inv k) (proc : Process) (hproc : proc.threads = []) :
    Inv (k.alloc_process proc).1 := by
  refine h.of_frame rfl rfl (fun _ => rfl) (fun _ => rfl) (fun q => ?_)
  rw [process_alloc_process]
  split
  · simp [hproc]
  · exact List.Subset.refl _

/-- `add_to_table` takes a free tid, so no listed tid changes its thread. -/
theorem Inv.add_to_table (h : Inv k) (p : ProcessRef) : Inv (k.add_to_table p).1 := by
  constructor
  · intro tid t ht
    rw [thread_of_add_to_table] at ht
    rw [thrs_length_add_to_table, thread_add_to_table]
    split at ht
    · -- the new entry names the new thread object
      next hnew =>
      cases ht
      simp [hnew]
    · obtain ⟨hlt, htid⟩ := h.table tid t ht
      rw [if_neg (Nat.ne_of_lt hlt)]
      exact ⟨Nat.lt_succ_of_lt hlt, htid⟩
  · intro q tid hmem
    rw [process_add_to_table] at hmem
    obtain ⟨t, ht, htp⟩ := h.listed q tid hmem
    have hne : tid ≠ k.next_tid := by
      rintro rfl
      rw [next_tid_free] at ht
      cases ht
    have hlt := (h.table tid t ht).1
    refine ⟨t, ?_, ?_⟩
    · rw [thread_of_add_to_table, if_neg hne, ht]
    · rw [thread_add_to_table, if_neg (Nat.ne_of_lt hlt), htp]

theorem Inv.add_to_process_table (h : Inv k) (p : ProcessRef) (pid : Pid) :
    Inv (k.add_to_process_table p pid).1 :=
  h.of_frame rfl rfl (fun _ => rfl) (fun _ => rfl)
    (fun q => (threads_add_to_process_table k p pid q) ▸ List.Subset.refl _)

/-- Pushing a tid to the list of the process of the thread `THREADS` names for it. -/
theorem Inv.push_tid (h : Inv k) {p : ProcessRef} {tid : Tid} {t : ThreadRef}
    (ht : k.thread_of tid = some t) (htp : (k.thread t).process = p) :
    Inv (k.modifyProcess p fun proc => { proc with threads := proc.threads ++ [tid] }) := by
  refine ⟨h.table, fun q x hx => ?_⟩
  rw [process_modifyProcess] at hx
  split at hx
  · next hq =>
    rcases List.mem_append.mp hx with hold | hnew
    · exact h.listed q x hold
    · rw [List.mem_singleton] at hnew
      subst hnew
      exact ⟨t, ht, hq.1 ▸ htp⟩
  · exact h.listed q x hx

/-- `Process::exit` removes from `THREADS` exactly the tids it unlists. A tid listed by
another process is not among them: its entry names a thread of that other process. -/
theorem Inv.exit_process (h : Inv k) (p : ProcessRef) (exit_code : Nat) :
    Inv (k.exit_process p exit_code) := by
  constructor
  · intro tid t ht
    rw [thread_of_exit_process] at ht
    split at ht
    · cases ht
    · exact h.table tid t ht
  · intro q tid hmem
    rw [threads_exit_process] at hmem
    split at hmem
    · exact absurd hmem List.not_mem_nil
    · next hq =>
      obtain ⟨t, ht, htp⟩ := h.listed q tid hmem
      have hnot : tid ∉ (k.process p).threads := by
        intro hp
        obtain ⟨t', ht', htp'⟩ := h.listed p tid hp
        rw [ht] at ht'
        cases ht'
        exact hq (htp.symm.trans htp')
      exact ⟨t, by rw [thread_of_exit_process, if_neg hnot, ht], htp⟩

theorem Inv.stop (h : Inv k) (t : ThreadRef) : Inv (k.stop t) := by
  have hthread : ∀ u, ((k.stop t).thread u).tid = (k.thread u).tid ∧
      ((k.stop t).thread u).process = (k.thread u).process := by
    intro u
    rw [thread_stop]
    split <;> simp
  exact h.of_frame rfl (thrs_length_stop k t) (fun u => (hthread u).1) (fun u => (hthread u).2)
    (fun _ => List.Subset.refl _)

end Steps

/-! ### The operations -/

section Operations

variable {k : Kernel}

theorem inv_new_user (h : Inv k) : Inv k.new_user.1 := by
  simp only [new_user]
  exact ((h.alloc_process _ rfl).add_to_table _).add_to_process_table _ _

/-- The new thread of `add_to_table` is in `THREADS` under its tid, for the process it was
made for. -/
theorem thread_of_new_thread (k : Kernel) (p : ProcessRef) :
    let k' := (k.add_to_table p).1
    k'.thread_of (k'.thread k.thrs.length).tid = some k.thrs.length ∧
      (k'.thread k.thrs.length).process = p := by
  simp [thread_add_to_table, thread_of_add_to_table]

theorem inv_fork (h : Inv k) (t : ThreadRef) : Inv (k.fork t).1 := by
  simp only [fork, alloc_process_snd, add_to_table_snd]
  -- the parent's children list is not read by the invariant
  refine Inv.modifyProcess ?_ _ _ (fun _ => List.Subset.refl _)
  obtain ⟨hof, hproc⟩ := thread_of_new_thread (k.alloc_process
    ⟨0, ((k.process (k.thread t).process).pid, some (k.thread t).process), [], [], 0⟩).1 k.procs.length
  -- the child's process gets its first tid
  exact Inv.push_tid (((h.alloc_process _ rfl).add_to_table _).add_to_process_table _ _) hof hproc

theorem inv_new_clone (h : Inv k) (t : ThreadRef) : Inv (k.new_clone t).1 := by
  simp only [new_clone]
  obtain ⟨hof, hproc⟩ := thread_of_new_thread k (k.thread t).process
  exact Inv.push_tid (h.add_to_table _) hof hproc

theorem inv_sys_exit (h : Inv k) (t : ThreadRef) (exit_code : Nat) :
    Inv (k.sys_exit t exit_code) := by
  have h₁ := h.modifyProcess (k.thread t).process
    (fun proc => { proc with threads := proc.threads.filter (· ≠ (k.thread t).tid) })
    (fun _ => List.filter_subset_self _)
  simp only [sys_exit]
  split
  · exact (h₁.exit_process _ _).stop t
  · exact h₁.stop t

theorem inv_sys_exit_group (h : Inv k) (t : ThreadRef) (exit_code : Nat) :
    Inv (k.sys_exit_group t exit_code) :=
  (h.exit_process _ _).stop t

/-- `sys_wait4` touches `PROCESSES` and the children lists only. -/
theorem inv_sys_wait4 (h : Inv k) {t : ThreadRef} {target : WaitFor} {k' : Kernel} {r : WaitResult}
    (hw : k.sys_wait4 t target = some (k', r)) : Inv k' := by
  simp only [sys_wait4] at hw
  split at hw
  · cases hw
  · split at hw
    · next pid _ _ =>
      cases hw
      have h₁ : Inv { k with PROCESSES := k.PROCESSES.erase pid } :=
        h.of_frame rfl rfl (fun _ => rfl) (fun _ => rfl) (fun _ => List.Subset.refl _)
      exact h₁.modifyProcess _ _ (fun _ => List.Subset.refl _)
    · cases hw
      exact h

theorem inv_step (h : Inv k) {a : Action} {k' : Kernel} (hs : step k a = some k') : Inv k' := by
  cases a with
  | new_user =>
    cases hs
    exact inv_new_user h
  | fork t =>
    obtain ⟨-, rfl⟩ : k.can_call t = true ∧ (k.fork t).1 = k' := by simpa [step] using hs
    exact inv_fork h t
  | clone t =>
    obtain ⟨-, rfl⟩ : k.can_call t = true ∧ (k.new_clone t).1 = k' := by simpa [step] using hs
    exact inv_new_clone h t
  | exit t code =>
    obtain ⟨-, rfl⟩ : k.can_call t = true ∧ k.sys_exit t code = k' := by simpa [step] using hs
    exact inv_sys_exit h t code
  | exit_group t code =>
    obtain ⟨-, rfl⟩ : k.can_call t = true ∧ k.sys_exit_group t code = k' := by
      simpa [step] using hs
    exact inv_sys_exit_group h t code
  | wait4 t pid =>
    obtain ⟨-, hs⟩ : k.can_call t = true ∧ ((WaitFor.of_arg pid).bind fun target =>
        (k.sys_wait4 t target).map Prod.fst) = some k' := by
      simpa [step] using hs
    obtain ⟨target, -, hmap⟩ := Option.bind_eq_some_iff.mp hs
    obtain ⟨⟨k'', r⟩, hw, hk⟩ := Option.map_eq_some_iff.mp hmap
    cases hk
    exact inv_sys_wait4 h hw

end Operations

theorem reachable_inv {k : Kernel} (hk : Reachable k) : Inv k := by
  refine Reachable.inv ?_ ?_ hk
  · rintro s rfl
    exact inv_init
  · rintro s s' h ⟨a, hs⟩
    exact inv_step h hs

/-- In every reachable state, a tid in a process's thread list is in `THREADS`, for a
thread of that process. -/
theorem listed_in_table {k : Kernel} (hk : Reachable k) {p : ProcessRef} {tid : Tid}
    (hmem : tid ∈ (k.process p).threads) :
    ∃ t, k.thread_of tid = some t ∧ (k.thread t).process = p :=
  (reachable_inv hk).listed p tid hmem

/-! ## `THREADS` and the thread lists disagree -/

/-- `new_user` puts its thread in `THREADS` and leaves its process's list empty. -/
theorem new_user_unlisted (k : Kernel) :
    let k' := k.new_user.1
    let t := k.new_user.2
    k'.thread_of (k'.thread t).tid = some t ∧ (k'.process (k'.thread t).process).threads = [] := by
  obtain ⟨hof, hproc⟩ := thread_of_new_thread (k.alloc_process ⟨0, (0, none), [], [], 0⟩).1
    k.procs.length
  simp only [new_user, alloc_process_snd, add_to_table_snd, thread_add_to_process_table,
    thread_of_add_to_process_table, threads_add_to_process_table, process_add_to_table]
  refine ⟨hof, ?_⟩
  rw [hproc, process_alloc_process, if_pos rfl]

/-- A reachable state where a tid is in `THREADS` while its process's list does not hold it
and the process counts as `exited()`: the state right after the first `new_user`. -/
theorem thread_table_disagrees :
    ∃ k, Reachable k ∧ ∃ tid t, k.thread_of tid = some t ∧
      tid ∉ (k.process (k.thread t).process).threads ∧
      (k.process (k.thread t).process).exited = true := by
  obtain ⟨hof, hnil⟩ := new_user_unlisted init
  refine ⟨init.new_user.1, .step (.init rfl) ⟨.new_user, rfl⟩, _, _, hof, ?_, ?_⟩
  · rw [hnil]
    exact List.not_mem_nil
  · simp only [Process.exited, hnil, List.isEmpty_nil]

/-! ## A zombie's pid is reused -/

/-- The child of `fork` takes the lowest free tid as its pid, and its entry in `PROCESSES`
replaces the one that pid had. -/
theorem fork_replaces_entry (k : Kernel) (t : ThreadRef) :
    (k.fork t).2.2 = k.process_of k.next_tid ∧
      (k.fork t).1.process_of k.next_tid = some k.procs.length := by
  simp only [fork, alloc_process_snd, add_to_table_snd, add_to_process_table_snd,
    process_of_modifyProcess, process_of_add_to_table, process_of_alloc_process]
  rw [thread_add_to_table, if_pos rfl, process_of_add_to_process_table]
  dsimp only
  rw [next_tid_alloc_process, if_pos rfl]
  exact ⟨rfl, rfl⟩

/-- A reachable state where `fork` overwrites the entry of a child that has exited and that
its parent has not reaped, and the child is dropped: no table holds it and no thread of it
runs, so no `sys_wait4` can find it. After `new_user` (tid 1) and a `fork` (child pid 2),
the child calls `sys_exit_group`, which frees tid 2; the next `fork` takes tid 2. -/
theorem zombie_replaced_by_fork :
    ∃ k, Reachable k ∧ ∃ t p, k.can_call t = true ∧ (k.fork t).2.2 = some p ∧
      (k.process p).exited = true ∧ ((k.process p).pid, p) ∈ (k.process (k.thread t).process).children ∧
      (k.fork t).1.upgrade p = false := by
  obtain ⟨k, hk, hp⟩ := exists_reachable_of_run step init [.new_user, .fork 0, .exit_group 1 7]
    (fun k => decide (k.can_call 0 = true ∧ (k.fork 0).2.2 = some 1 ∧
      (k.process 1).exited = true ∧ ((k.process 1).pid, 1) ∈ (k.process (k.thread 0).process).children ∧
      (k.fork 0).1.upgrade 1 = false)) (by decide)
  exact ⟨k, hk, 0, 1, of_decide_eq_true hp⟩

end Kernel

end Queen.Process
