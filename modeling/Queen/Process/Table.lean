/-
The process and thread tables, `kernel/src/process/mod.rs`, `kernel/src/process/thread.rs`
and `kernel/src/syscall/process.rs`: `THREADS` and `PROCESSES`, `Thread::add_to_table`,
`add_to_process_table`, `Thread::new_user`, `Thread::fork`, `Thread::new_clone`,
`sys_exit`, `sys_exit_group` with `Process::exit`, and `sys_wait4`.

`Arc<Thread>` and `Arc<MutexNoIrq<Process>>` are indices into two heaps of objects that
outlive their table entries. A `Weak` is upgraded while the process is still held: by its
`PROCESSES` entry, or by a thread object that is in `THREADS` or whose task still runs
(the task's future holds the `Arc<Thread>` until the thread's loop breaks on `exit`).
`running` records that last fact; it is not a field of the source's `Thread`.

A step is one system call of a running thread, or `new_user` from the kernel. What the
calls do to files, signals, memory and events is left out: only the tables, the pids, the
thread lists, the children lists and the exit codes are modelled.
-/
import Queen.Lib.Store
import Queen.Lib.Transition

set_option autoImplicit false
set_option linter.dupNamespace false

namespace Queen.Process

/-- `type Tid = usize`. -/
abbrev Tid := Nat

/-- `type Pid = usize`. -/
abbrev Pid := Nat

/-- An `Arc<Thread>`: which object of the thread heap. -/
abbrev ThreadRef := Nat

/-- An `Arc<MutexNoIrq<Process>>` (or a `Weak` of it): which object of the process heap. -/
abbrev ProcessRef := Nat

/-- `PID_INIT`. -/
def PID_INIT : Nat := 1

/-- `struct Process`, the fields the tables use. -/
structure Process where
  pid : Pid
  parent : Pid × Option ProcessRef
  children : List (Pid × ProcessRef)
  threads : List Tid
  exit_code : Nat
deriving DecidableEq, Repr, Inhabited

/-- `Process::exited`: no thread left in its list. -/
def Process.exited (p : Process) : Bool := p.threads.isEmpty

/-- `struct Thread`, with whether its task still runs. -/
structure Thread where
  tid : Tid
  process : ProcessRef
  running : Bool
deriving DecidableEq, Repr, Inhabited

/-- The tables and the two heaps. -/
structure Kernel where
  THREADS : AList (fun _ : Tid => ThreadRef)
  PROCESSES : AList (fun _ : Pid => ProcessRef)
  procs : List Process
  thrs : List Thread

namespace Kernel

/-- The boot state: empty tables, nothing allocated. -/
def init : Kernel := ⟨∅, ∅, [], []⟩

/-- The thread behind an `Arc<Thread>`. -/
def thread (k : Kernel) (t : ThreadRef) : Thread := k.thrs.getD t default

/-- The process behind an `Arc`. -/
def process (k : Kernel) (p : ProcessRef) : Process := k.procs.getD p default

/-- `THREADS.get(tid)`. -/
def thread_of (k : Kernel) (tid : Tid) : Option ThreadRef := k.THREADS.lookup tid

/-- `PROCESSES.get(pid)`, `process::process(pid)`. -/
def process_of (k : Kernel) (pid : Pid) : Option ProcessRef := k.PROCESSES.lookup pid

/-- Write through a locked process. -/
def modifyProcess (k : Kernel) (p : ProcessRef) (f : Process → Process) : Kernel :=
  { k with procs := k.procs.modify p f }

section ModifyProcess

variable (k : Kernel) (p : ProcessRef) (f : Process → Process)

@[simp] theorem THREADS_modifyProcess : (k.modifyProcess p f).THREADS = k.THREADS := rfl

@[simp] theorem PROCESSES_modifyProcess : (k.modifyProcess p f).PROCESSES = k.PROCESSES := rfl

@[simp] theorem thrs_modifyProcess : (k.modifyProcess p f).thrs = k.thrs := rfl

@[simp] theorem thread_modifyProcess (t : ThreadRef) : (k.modifyProcess p f).thread t = k.thread t :=
  rfl

@[simp] theorem thread_of_modifyProcess (tid : Tid) :
    (k.modifyProcess p f).thread_of tid = k.thread_of tid := rfl

@[simp] theorem process_of_modifyProcess (pid : Pid) :
    (k.modifyProcess p f).process_of pid = k.process_of pid := rfl

@[simp] theorem procs_length_modifyProcess :
    (k.modifyProcess p f).procs.length = k.procs.length := List.length_modify ..

theorem process_modifyProcess (q : ProcessRef) :
    (k.modifyProcess p f).process q =
      if q = p ∧ p < k.procs.length then f (k.process q) else k.process q :=
  Store.getD_modify k.procs p q f default

/-- A write that keeps the thread list keeps every process's thread list. -/
theorem threads_modifyProcess (hf : ∀ proc, (f proc).threads = proc.threads) (q : ProcessRef) :
    ((k.modifyProcess p f).process q).threads = (k.process q).threads := by
  rw [process_modifyProcess]
  split <;> simp only [hf]

end ModifyProcess

/-- `Weak::upgrade`: the process is still held by its table entry or by a thread object. -/
def upgrade (k : Kernel) (p : ProcessRef) : Bool :=
  k.PROCESSES.entries.any (fun e => e.2 = p) ||
  (List.range k.thrs.length).any fun t =>
    (k.thread t).process = p && ((k.thread t).running || k.THREADS.entries.any (fun e => e.2 = t))

/-! ## The two tables -/

/-- The tid `Thread::add_to_table` assigns: the least number from `PID_INIT` on that is not in
`THREADS`. One of the first `THREADS.len() + 1` candidates is free. -/
def next_tid (k : Kernel) : Tid :=
  ((List.range' PID_INIT (k.THREADS.entries.length + 1)).find? fun i => k.thread_of i = none).getD
    PID_INIT

/-- One of the first `THREADS.len() + 1` tids from `PID_INIT` on is free: the keys of
`THREADS` are distinct and there are `THREADS.len()` of them. -/
theorem exists_free_tid (k : Kernel) :
    ∃ i ∈ List.range' PID_INIT (k.THREADS.entries.length + 1), k.thread_of i = none := by
  by_contra hall
  simp only [not_exists, not_and] at hall
  have hsub : List.range' PID_INIT (k.THREADS.entries.length + 1) ⊆ k.THREADS.keys := by
    intro i hi
    exact AList.lookup_isSome.mp (Option.isSome_iff_ne_none.mpr (hall i hi))
  have hle := (List.nodup_range' 1).length_le_of_subset hsub
  simp only [AList.keys, List.keys, List.length_map, List.length_range'] at hle
  omega

/-- The tid `add_to_table` assigns is free, so the `unwrap()` of the source never fails. -/
theorem next_tid_free (k : Kernel) : k.thread_of k.next_tid = none := by
  obtain ⟨i, hi, hfree⟩ := k.exists_free_tid
  have hfind : (List.range' PID_INIT (k.THREADS.entries.length + 1)).find?
      (fun i => k.thread_of i = none) ≠ none := by
    rw [Ne, List.find?_eq_none]
    exact fun hnone => hnone i hi (by simpa using hfree)
  obtain ⟨j, hj⟩ := Option.ne_none_iff_exists'.mp hfind
  simpa [next_tid, hj] using List.find?_some hj

/-- `Thread::add_to_table`: a new thread object with the next tid, put in `THREADS`. -/
def add_to_table (k : Kernel) (process : ProcessRef) : Kernel × ThreadRef :=
  let tid := k.next_tid
  let t := k.thrs.length
  ({ k with thrs := k.thrs ++ [⟨tid, process, true⟩], THREADS := k.THREADS.insert tid t }, t)

section AddToTable

variable (k : Kernel) (p : ProcessRef)

@[simp] theorem add_to_table_snd : (k.add_to_table p).2 = k.thrs.length := rfl

@[simp] theorem procs_add_to_table : (k.add_to_table p).1.procs = k.procs := rfl

@[simp] theorem process_add_to_table (q : ProcessRef) : (k.add_to_table p).1.process q = k.process q :=
  rfl

@[simp] theorem PROCESSES_add_to_table : (k.add_to_table p).1.PROCESSES = k.PROCESSES := rfl

@[simp] theorem process_of_add_to_table (pid : Pid) :
    (k.add_to_table p).1.process_of pid = k.process_of pid := rfl

@[simp] theorem thrs_length_add_to_table :
    (k.add_to_table p).1.thrs.length = k.thrs.length + 1 := by
  simp [add_to_table]

theorem thread_of_add_to_table (tid : Tid) :
    (k.add_to_table p).1.thread_of tid =
      if tid = k.next_tid then some k.thrs.length else k.thread_of tid := by
  simp only [add_to_table, thread_of]
  split
  · next h => rw [h, AList.lookup_insert]
  · next h => rw [AList.lookup_insert_ne h]

theorem thread_add_to_table (t : ThreadRef) :
    (k.add_to_table p).1.thread t =
      if t = k.thrs.length then (⟨k.next_tid, p, true⟩ : Thread) else k.thread t :=
  Store.getD_concat _ _ _ _

end AddToTable

/-- `add_to_process_table(process, pid)`: set the pid and put the process in `PROCESSES`.
The entry `insert` replaces, which the source drops, is returned with it. -/
def add_to_process_table (k : Kernel) (p : ProcessRef) (pid : Pid) :
    Kernel × Option ProcessRef :=
  let old := k.process_of pid
  ({ (k.modifyProcess p fun proc => { proc with pid }) with
      PROCESSES := k.PROCESSES.insert pid p }, old)

section AddToProcessTable

variable (k : Kernel) (p : ProcessRef) (pid : Pid)

/-- What `insert` returns, and the source drops: the entry the pid had before. -/
@[simp] theorem add_to_process_table_snd : (k.add_to_process_table p pid).2 = k.process_of pid :=
  rfl

@[simp] theorem THREADS_add_to_process_table :
    (k.add_to_process_table p pid).1.THREADS = k.THREADS := rfl

@[simp] theorem thrs_add_to_process_table : (k.add_to_process_table p pid).1.thrs = k.thrs := rfl

@[simp] theorem thread_add_to_process_table (t : ThreadRef) :
    (k.add_to_process_table p pid).1.thread t = k.thread t := rfl

@[simp] theorem thread_of_add_to_process_table (tid : Tid) :
    (k.add_to_process_table p pid).1.thread_of tid = k.thread_of tid := rfl

@[simp] theorem procs_length_add_to_process_table :
    (k.add_to_process_table p pid).1.procs.length = k.procs.length := List.length_modify ..

theorem threads_add_to_process_table (q : ProcessRef) :
    ((k.add_to_process_table p pid).1.process q).threads = (k.process q).threads :=
  threads_modifyProcess k p (fun proc => { proc with pid }) (fun _ => rfl) q

/-- The pid names the process afterwards, whatever it named before. -/
theorem process_of_add_to_process_table (x : Pid) :
    (k.add_to_process_table p pid).1.process_of x = if x = pid then some p else k.process_of x := by
  simp only [add_to_process_table, process_of]
  split
  · next h => rw [h, AList.lookup_insert]
  · next h => rw [AList.lookup_insert_ne h]

end AddToProcessTable

/-! ## Creating threads and processes -/

/-- `Arc::new(MutexNoIrq::new(process))`: the process takes the next object of the heap. -/
def alloc_process (k : Kernel) (proc : Process) : Kernel × ProcessRef :=
  ({ k with procs := k.procs ++ [proc] }, k.procs.length)

section AllocProcess

variable (k : Kernel) (proc : Process)

@[simp] theorem alloc_process_snd : (k.alloc_process proc).2 = k.procs.length := rfl

@[simp] theorem THREADS_alloc_process : (k.alloc_process proc).1.THREADS = k.THREADS := rfl

@[simp] theorem PROCESSES_alloc_process : (k.alloc_process proc).1.PROCESSES = k.PROCESSES := rfl

@[simp] theorem thrs_alloc_process : (k.alloc_process proc).1.thrs = k.thrs := rfl

@[simp] theorem thread_alloc_process (t : ThreadRef) : (k.alloc_process proc).1.thread t = k.thread t :=
  rfl

@[simp] theorem thread_of_alloc_process (tid : Tid) :
    (k.alloc_process proc).1.thread_of tid = k.thread_of tid := rfl

@[simp] theorem process_of_alloc_process (pid : Pid) :
    (k.alloc_process proc).1.process_of pid = k.process_of pid := rfl

@[simp] theorem next_tid_alloc_process : (k.alloc_process proc).1.next_tid = k.next_tid := rfl

@[simp] theorem procs_length_alloc_process :
    (k.alloc_process proc).1.procs.length = k.procs.length + 1 := by
  simp [alloc_process]

theorem process_alloc_process (q : ProcessRef) :
    (k.alloc_process proc).1.process q = if q = k.procs.length then proc else k.process q :=
  Store.getD_concat _ _ _ _

end AllocProcess

/-- `Thread::new_user`: a process with an empty thread list and its first thread, the
process taking the thread's tid as its pid. -/
def new_user (k : Kernel) : Kernel × ThreadRef :=
  let (k, p) := k.alloc_process ⟨0, (0, none), [], [], 0⟩
  let (k, t) := k.add_to_table p
  ((k.add_to_process_table p (k.thread t).tid).1, t)

/-- `Thread::fork` by thread `t`: a child process, its first thread, the child's tid in its
list and the child in the parent's children. Also returns the entry of `PROCESSES` that
`add_to_process_table` replaced. -/
def fork (k : Kernel) (t : ThreadRef) : Kernel × ThreadRef × Option ProcessRef :=
  let parent := (k.thread t).process
  let (k, p) := k.alloc_process ⟨0, ((k.process parent).pid, some parent), [], [], 0⟩
  let (k, child) := k.add_to_table p
  let child_pid := (k.thread child).tid
  let (k, old) := k.add_to_process_table p child_pid
  let k := k.modifyProcess p fun proc => { proc with threads := proc.threads ++ [child_pid] }
  let k := k.modifyProcess parent fun proc =>
    { proc with children := proc.children ++ [(child_pid, p)] }
  (k, child, old)

/-- `Thread::new_clone` by thread `t`: a new thread of the same process, pushed to its list. -/
def new_clone (k : Kernel) (t : ThreadRef) : Kernel × ThreadRef :=
  let p := (k.thread t).process
  let (k, child) := k.add_to_table p
  (k.modifyProcess p fun proc => { proc with threads := proc.threads ++ [(k.thread child).tid] },
    child)

/-! ## Exits -/

/-- `Process::exit(exit_code)`: set the exit code, remove every tid of the list from
`THREADS`, empty the list. -/
def exit_process (k : Kernel) (p : ProcessRef) (exit_code : Nat) : Kernel :=
  let tids := (k.process p).threads
  let k := k.modifyProcess p fun proc => { proc with exit_code }
  let k := { k with THREADS := tids.foldl (fun m tid => m.erase tid) k.THREADS }
  k.modifyProcess p fun proc => { proc with threads := [] }

section ExitProcess

variable (k : Kernel) (p : ProcessRef) (exit_code : Nat)

@[simp] theorem thread_exit_process (t : ThreadRef) : (k.exit_process p exit_code).thread t = k.thread t :=
  rfl

@[simp] theorem thrs_exit_process : (k.exit_process p exit_code).thrs = k.thrs := rfl

@[simp] theorem PROCESSES_exit_process : (k.exit_process p exit_code).PROCESSES = k.PROCESSES := rfl

/-- The process's tids leave `THREADS`, and only they. -/
theorem thread_of_exit_process (tid : Tid) :
    (k.exit_process p exit_code).thread_of tid =
      if tid ∈ (k.process p).threads then none else k.thread_of tid :=
  Store.lookup_foldl_erase _ _ _

/-- The process's thread list is emptied; the others are kept. -/
theorem threads_exit_process (q : ProcessRef) :
    ((k.exit_process p exit_code).process q).threads =
      if q = p then [] else (k.process q).threads := by
  simp only [exit_process, process, modifyProcess, Store.getD_modify, List.length_modify]
  by_cases hq : q = p
  · subst hq
    by_cases hp : q < k.procs.length
    · simp [hp]
    · simp [hp]
      rfl
  · simp [hq]

end ExitProcess

/-- The calling thread's loop breaks once the call returns: its task ends. -/
def stop (k : Kernel) (t : ThreadRef) : Kernel :=
  { k with thrs := k.thrs.modify t fun th => { th with running := false } }

section Stop

variable (k : Kernel) (t : ThreadRef)

@[simp] theorem THREADS_stop : (k.stop t).THREADS = k.THREADS := rfl

@[simp] theorem thread_of_stop (tid : Tid) : (k.stop t).thread_of tid = k.thread_of tid := rfl

@[simp] theorem process_stop (q : ProcessRef) : (k.stop t).process q = k.process q := rfl

@[simp] theorem thrs_length_stop : (k.stop t).thrs.length = k.thrs.length := List.length_modify ..

/-- Stopping a task changes no thread's tid or process. -/
theorem thread_stop (u : ThreadRef) :
    (k.stop t).thread u = if u = t ∧ t < k.thrs.length then { k.thread u with running := false }
      else k.thread u :=
  Store.getD_modify _ _ _ _ _

end Stop

/-- `sys_exit(exit_code)` by thread `t`: its tid leaves the list; the last thread exits the
process. -/
def sys_exit (k : Kernel) (t : ThreadRef) (exit_code : Nat) : Kernel :=
  let tid := (k.thread t).tid
  let p := (k.thread t).process
  let k := k.modifyProcess p fun proc => { proc with threads := proc.threads.filter (· ≠ tid) }
  let k := if (k.process p).threads.length = 0 then k.exit_process p exit_code else k
  k.stop t

/-- `sys_exit` never removes a tid from `THREADS`: a thread that is not the last leaves only
its process's list, and the last one has left the list before `Process::exit` removes the
listed tids. -/
theorem THREADS_sys_exit (k : Kernel) (t : ThreadRef) (exit_code : Nat) :
    (k.sys_exit t exit_code).THREADS = k.THREADS := by
  simp only [sys_exit, THREADS_stop]
  split
  · next hlen =>
    simp only [exit_process, THREADS_modifyProcess, List.eq_nil_of_length_eq_zero hlen,
      List.foldl_nil]
  · rfl

/-- `sys_exit_group(exit_code)` by thread `t`. -/
def sys_exit_group (k : Kernel) (t : ThreadRef) (exit_code : Nat) : Kernel :=
  (k.exit_process (k.thread t).process exit_code).stop t

/-! ## `sys_wait4` -/

/-- `enum WaitFor`, from the `pid` argument; other negative values hit `unimplemented!()`. -/
inductive WaitFor
  | AnyChild
  | AnyChildInGroup
  | Pid (pid : Pid)
deriving DecidableEq, Repr

/-- The `match pid` of `sys_wait4`. -/
def WaitFor.of_arg (pid : Int) : Option WaitFor :=
  if pid = -1 then some .AnyChild
  else if pid = 0 then some .AnyChildInGroup
  else if pid > 0 then some (.Pid pid.toNat)
  else none

/-- What one round of `sys_wait4`'s loop ends with. -/
inductive WaitResult
  /-- `Ok(pid)`, the exit code written to `wstatus`. -/
  | reaped (pid : Pid) (exit_code : Nat)
  /-- `Err(SysError::ECHILD)`. -/
  | echild
  /-- Waits for `CHILD_PROCESS_QUIT`. -/
  | blocked
deriving DecidableEq, Repr

/-- The child `sys_wait4` finds for `target`: an exited child in the children list, in
order, or the exited process `PROCESSES` holds under the pid. -/
def wait_find (k : Kernel) (proc : Process) : WaitFor → Option (Pid × Nat)
  | .AnyChild | .AnyChildInGroup =>
    (proc.children.find? fun (_, c) => k.upgrade c && (k.process c).exited).map
      fun (_, c) => ((k.process c).pid, (k.process c).exit_code)
  | .Pid pid =>
    match k.process_of pid with
    | some c => if (k.process c).exited then some ((k.process c).pid, (k.process c).exit_code)
      else none
    | none => none

/-- Whether the `Pid` arm of `sys_wait4` finds the caller's own process `p`, whose lock
`self.process()` holds while `c.lock()` is taken. -/
def wait_locks_self (k : Kernel) (p : ProcessRef) : WaitFor → Bool
  | .Pid pid => k.process_of pid == some p
  | .AnyChild | .AnyChildInGroup => false

/-- One round of `sys_wait4(pid, wstatus)` by thread `t`, under its own process's lock: reap
what it finds (out of `PROCESSES` and the children list), else `ECHILD` when no live child
matches, else wait. `none` when `pid` is the caller's own: the spin lock `c.lock()` waits for
the lock the caller holds, for ever. -/
def sys_wait4 (k : Kernel) (t : ThreadRef) (target : WaitFor) : Option (Kernel × WaitResult) :=
  let p := (k.thread t).process
  let proc := k.process p
  if wait_locks_self k p target then none
  else match wait_find k proc target with
  | some (pid, exit_code) =>
    let k := { k with PROCESSES := k.PROCESSES.erase pid }
    some (k.modifyProcess p fun proc => { proc with children := proc.children.filter (·.1 ≠ pid) },
      .reaped pid exit_code)
  | none =>
    let children := (proc.children.filter fun (_, c) => k.upgrade c).map (·.1)
    let invalid := match target with
      | .AnyChild | .AnyChildInGroup => children.length == 0
      | .Pid pid => (children.find? (· == pid)).isNone
    some (k, if invalid then .echild else .blocked)

/-! ## Steps -/

/-- One step: `new_user` from the kernel, or a system call of a running thread. -/
inductive Action
  | new_user
  | fork (t : ThreadRef)
  | clone (t : ThreadRef)
  | exit (t : ThreadRef) (exit_code : Nat)
  | exit_group (t : ThreadRef) (exit_code : Nat)
  | wait4 (t : ThreadRef) (pid : Int)
deriving DecidableEq, Repr

/-- Whether thread `t` exists and still runs, so it can make a system call. -/
def can_call (k : Kernel) (t : ThreadRef) : Bool := t < k.thrs.length && (k.thread t).running

/-- One step; `none` when the thread cannot make the call, or the call never returns. -/
def step (k : Kernel) : Action → Option Kernel
  | .new_user => some k.new_user.1
  | .fork t => if k.can_call t then some (k.fork t).1 else none
  | .clone t => if k.can_call t then some (k.new_clone t).1 else none
  | .exit t code => if k.can_call t then some (k.sys_exit t code) else none
  | .exit_group t code => if k.can_call t then some (k.sys_exit_group t code) else none
  | .wait4 t pid =>
    if k.can_call t then (WaitFor.of_arg pid).bind fun target => (k.sys_wait4 t target).map Prod.fst
    else none

/-- The states reachable from boot. -/
def Reachable : Kernel → Prop := Queen.Transition.Reachable (· = init) (Queen.Transition.Next step)

end Kernel

end Queen.Process
