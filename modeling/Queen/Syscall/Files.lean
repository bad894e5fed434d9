/-
The descriptor table of a process: `Process::get_free_fd` and `add_file`
(`kernel/src/process/mod.rs`), and `sys_open_at` and `sys_close` with the check
`lookup_inode_at` makes of `dir_fd` (`kernel/src/syscall/fs.rs`).

`add_file` gives a handle the lowest descriptor the process has free (`add_file_spec`). Over the
system of `Syscall/Fs.lean` with opens and closes added, every handle of every process points
to a description below the heap's next free address (`DescInv`), so the description that
`OpenFileDescription::create` makes for an open is shared with no other handle
(`open_description_unshared`): only `sys_dup3` and fork share one.

What the file system does for the path, the lookup from the directory or, with `CREATE`, the
find-or-create there under `EXCLUSIVE` and `TRUNCATE`, comes in as its answer: an inode, or
the error. `OpenFlags` of queen-syscall is what `sys_open_at` reads of it.
-/
import Queen.Syscall.Fs

set_option autoImplicit false

namespace Queen.Syscall

open Queen.Fs Queen.Transition

/-- `OpenFlags` of queen-syscall, by what the kernel reads of it. -/
structure OpenFlags where
  readable : Bool
  writable : Bool
  is_append : Bool
  cloexec : Bool
deriving DecidableEq, Repr

/-- `impl From<OpenFlags> for OpenOptions`. -/
def OpenFlags.into (flags : OpenFlags) : OpenOptions :=
  ⟨flags.readable, flags.writable, flags.is_append⟩

/-- `AT_FDCWD` of queen-syscall: `-100` as a `usize`. -/
def AT_FDCWD : Usize := -100

namespace Process

/-- `(i..).find(|i| !self.files.contains_key(i))`, trying at most `fuel` descriptors. -/
def find_free (p : Process) : Nat → Usize → Option Usize
  | 0, _ => none
  | fuel + 1, i => if p.files i = none then some i else p.find_free fuel (i + 1)

/-- `get_free_fd()`: `(0..).find(..).unwrap()` runs over the `2 ^ 64` descriptors; `none` is
the panic when all are taken. -/
def get_free_fd (p : Process) : Option Usize := p.find_free (2 ^ 64) 0

/-- `add_file(file)`: the handle at the lowest free descriptor. -/
def add_file (p : Process) (file : FileHandle) : Option (Process × Usize) :=
  p.get_free_fd.map fun fd => ({ p with files := Function.update p.files fd (some file) }, fd)

/-- `lookup_inode_at(dir_fd, path, follow)`, given what the file system finds for the path:
from the working directory for `AT_FDCWD`, else from the handle at `dir_fd`, which must be
open. -/
def lookup_inode_at (p : Process) (dir_fd : Usize) (found : Except SysError Nat) :
    Except SysError Nat :=
  if dir_fd = AT_FDCWD then found
  else p.get_file dir_fd >>= fun _ => found

/-- `sys_open_at(dir_fd, path, flags, mode)`, given the file system's answer for the path:
a new description at offset 0 with the options of `flags`, and its handle at the lowest free
descriptor. `none` is the panic of `get_free_fd`. -/
def sys_open_at (p : Process) (heap : Heap) (dir_fd : Usize) (path : String) (flags : OpenFlags)
    (found : Except SysError Nat) : Option (Process × Heap × Except SysError Usize) :=
  match p.lookup_inode_at dir_fd found with
  | .error e => some (p, heap, .error e)
  | .ok inode =>
    let created := FileHandle.new heap inode flags.into path flags.cloexec
    (p.add_file created.2).map fun added => (added.1, created.1, .ok added.2)

/-- `sys_close(fd)`: `files.remove(&fd).ok_or(EBADF)`. -/
def sys_close (p : Process) (fd : Usize) : Process × Except SysError Usize :=
  match p.files fd with
  | some _ => ({ p with files := Function.update p.files fd none }, .ok 0)
  | none => (p, .error .EBADF)

/-! ## The lowest free descriptor -/

/-- The search from `i` finds a free descriptor, and every one it passed is taken. The
bound keeps `i + 1` from wrapping. -/
theorem find_free_spec (p : Process) :
    ∀ (fuel : Nat) (i fd : Usize), i.toNat + fuel ≤ 2 ^ 64 → p.find_free fuel i = some fd →
      p.files fd = none ∧ i.toNat ≤ fd.toNat ∧
        ∀ j : Usize, i.toNat ≤ j.toNat → j.toNat < fd.toNat → p.files j ≠ none
  | 0, i, fd, _, h => by cases h
  | fuel + 1, i, fd, hbound, h => by
    unfold find_free at h
    by_cases hfree : p.files i = none
    · rw [if_pos hfree] at h
      cases h
      exact ⟨hfree, le_rfl, fun j hij hjfd => absurd hjfd (by omega)⟩
    · rw [if_neg hfree] at h
      -- a search that found something had fuel left, so `i + 1` did not wrap
      have hfuel : 0 < fuel := by
        cases fuel with
        | zero => cases h
        | succ n => omega
      have hsucc : (i + 1).toNat = i.toNat + 1 := by bv_omega
      obtain ⟨hfd, hle, hbelow⟩ := find_free_spec p fuel (i + 1) fd (by omega) h
      refine ⟨hfd, by omega, fun j hij hjfd => ?_⟩
      by_cases hji : j.toNat = i.toNat
      · rw [BitVec.eq_of_toNat_eq hji]
        exact hfree
      · exact hbelow j (by omega) hjfd

/-- The search from `i` fails only when every descriptor it could try is taken. -/
theorem find_free_eq_none (p : Process) :
    ∀ (fuel : Nat) (i : Usize), i.toNat + fuel ≤ 2 ^ 64 → p.find_free fuel i = none →
      ∀ j : Usize, i.toNat ≤ j.toNat → j.toNat < i.toNat + fuel → p.files j ≠ none
  | 0, i, _, _, j, hij, hj => absurd hj (by omega)
  | fuel + 1, i, hbound, h, j, hij, hj => by
    unfold find_free at h
    by_cases hfree : p.files i = none
    · rw [if_pos hfree] at h
      cases h
    · rw [if_neg hfree] at h
      by_cases hji : j.toNat = i.toNat
      · rw [BitVec.eq_of_toNat_eq hji]
        exact hfree
      · have hsucc : (i + 1).toNat = i.toNat + 1 := by bv_omega
        exact find_free_eq_none p fuel (i + 1) (by omega) h j (by omega) (by omega)

/-- `get_free_fd` is the lowest free descriptor, and it panics only on a full table. -/
theorem get_free_fd_spec (p : Process) :
    (∀ fd, p.get_free_fd = some fd →
      p.files fd = none ∧ ∀ j : Usize, j.toNat < fd.toNat → p.files j ≠ none) ∧
    (p.get_free_fd = none → ∀ j, p.files j ≠ none) := by
  have hbound : (0 : Usize).toNat + 2 ^ 64 ≤ 2 ^ 64 := by simp
  refine ⟨fun fd h => ?_, fun h j => ?_⟩
  · obtain ⟨hfd, -, hbelow⟩ := find_free_spec p _ 0 fd hbound h
    exact ⟨hfd, fun j hj => hbelow j (Nat.zero_le _) hj⟩
  · exact find_free_eq_none p _ 0 hbound h j (Nat.zero_le _) (by simpa using j.isLt)

/-- **`add_file` takes the lowest free descriptor.** The handle goes to a descriptor that
was free, every lower one being taken, and the rest of the table is as it was; the call
panics only when every descriptor is taken. -/
theorem add_file_spec (p : Process) (file : FileHandle) :
    (∀ p' fd, p.add_file file = some (p', fd) →
      p'.files = Function.update p.files fd (some file) ∧ p'.cwd = p.cwd ∧ p.files fd = none ∧
        ∀ j : Usize, j.toNat < fd.toNat → p.files j ≠ none) ∧
    (p.add_file file = none → ∀ j, p.files j ≠ none) := by
  obtain ⟨hsome, hnone⟩ := get_free_fd_spec p
  refine ⟨fun p' fd h => ?_, fun h => hnone (Option.map_eq_none_iff.mp h)⟩
  obtain ⟨fd', hfd', hadd⟩ := Option.map_eq_some_iff.mp h
  cases hadd
  exact ⟨rfl, rfl, hsome _ hfd'⟩

end Process

/-! ## Opens and closes over the system of processes -/

/-- What a process does to its files: the calls of `FsOp`, `sys_open_at` and `sys_close`. -/
inductive FileOp
  | fs (op : FsOp)
  | open_at (p : Nat) (dir_fd : Usize) (path : String) (flags : OpenFlags)
      (found : Except SysError Nat)
  | close (p : Nat) (fd : Usize)

namespace FsSys

open Queen.Syscall.Process

/-- One call; `none` when there is no process `p`, or `get_free_fd` panics. -/
def file_step (s : FsSys) : FileOp → Option FsSys
  | .fs op => s.step op
  | .open_at p dir_fd path flags found =>
    s.procs[p]?.bind fun proc =>
      (proc.sys_open_at s.heap dir_fd path flags found).map fun r => ⟨s.procs.set p r.1, r.2.1⟩
  | .close p fd => s.procs[p]?.map fun proc => ⟨s.procs.set p (proc.sys_close fd).1, s.heap⟩

/-- The states the calls reach from the start. -/
def FileReachable : FsSys → Prop := Queen.Transition.Reachable (· = init) (Next file_step)

/-- Descriptor `fd` of process `p` is the only handle of any process on description `d`. -/
def SoleHandle (procs : List Process) (p : Nat) (fd : Usize) (d : Nat) : Prop :=
  ∀ q pq, procs[q]? = some pq → ∀ fd' h, pq.files fd' = some h → h.description = d →
    (q, fd') = (p, fd)

/-- Every handle of every process points below the next free description. -/
def DescInv (s : FsSys) : Prop :=
  ∀ proc ∈ s.procs, ∀ fd h, proc.files fd = some h → h.description < s.heap.fresh

/-! ### What each call does to the table and to the next free description -/

theorem fresh_write {h : FileHandle} {heap heap' : Heap} {buf : List (BitVec 8)} {n : Nat}
    (hw : h.write heap buf = .ok (heap', n)) : heap'.fresh = heap.fresh := by
  simp only [FileHandle.write, bind, Except.bind] at hw
  split at hw
  · cases hw
  · next r hr =>
    obtain ⟨heap₁, len⟩ := r
    obtain ⟨-, -, rfl⟩ := FileHandle.write_at_eq_ok hr
    simp only [pure, Except.pure, Except.ok.injEq, Prod.mk.injEq] at hw
    obtain ⟨rfl, -⟩ := hw
    rfl

theorem fresh_sys_write {proc : Process} {heap heap' : Heap} {fd : Usize}
    {buf : List (BitVec 8)} {n : Usize} (hw : proc.sys_write heap fd buf = .ok (heap', n)) :
    heap'.fresh = heap.fresh := by
  simp only [Process.sys_write, bind, Except.bind] at hw
  split at hw
  · cases hw
  · split at hw
    · cases hw
    · next r hr =>
      obtain ⟨heap₁, len⟩ := r
      simp only [pure, Except.pure, Except.ok.injEq, Prod.mk.injEq] at hw
      obtain ⟨rfl, -⟩ := hw
      cases hwr : FileHandle.write _ heap buf with
      | error e =>
        rw [hwr] at hr
        cases hr
      | ok r' =>
        rw [hwr] at hr
        cases hr
        exact fresh_write hwr

theorem fresh_sys_lseek {proc : Process} {heap heap' : Heap} {fd : Usize} {offset : BitVec 64}
    {whence : BitVec 8} {r : Usize} (hl : proc.sys_lseek heap fd offset whence = .ok (heap', r)) :
    heap'.fresh = heap.fresh := by
  simp only [Process.sys_lseek, bind, Except.bind] at hl
  split at hl
  · cases hl
  · simp only [pure, Except.pure, Except.ok.injEq] at hl
    obtain ⟨rfl, -⟩ := hl
    rfl

theorem files_sys_chdir (proc : Process) (path : List Char) (lookup : Except SysError FileType) :
    (proc.sys_chdir path lookup).1.files = proc.files := by
  unfold sys_chdir
  split
  · rfl
  · split_ifs <;> rfl

/-- Every handle `sys_dup3` leaves is one the table held, or a copy of one. -/
theorem sys_dup3_handle (proc : Process) (fd1 fd2 flags : Usize) {fd : Usize} {h : FileHandle}
    (hfd : (proc.sys_dup3 fd1 fd2 flags).1.files fd = some h) :
    ∃ fd' h', proc.files fd' = some h' ∧ h.description = h'.description := by
  -- a handle the removal of `fd2` left is one the table held
  have hkept : ∀ fd h, Function.update proc.files fd2 none fd = some h →
      ∃ fd' h', proc.files fd' = some h' ∧ h.description = h'.description := by
    intro fd h hfd
    rw [Function.update_apply] at hfd
    split at hfd
    · cases hfd
    · exact ⟨fd, h, hfd, rfl⟩
  unfold sys_dup3 get_file at hfd
  dsimp only at hfd
  cases hf : Function.update proc.files fd2 none fd1 with
  | none =>
    rw [hf] at hfd
    exact hkept fd h hfd
  | some file =>
    rw [hf] at hfd
    dsimp only at hfd
    rw [Function.update_apply] at hfd
    split at hfd
    · -- the copy of `fd1` shares its description
      cases hfd
      exact hkept fd1 file hf
    · exact hkept fd h hfd

/-- `Thread::new_user` takes three descriptions, and its handles point to them. -/
theorem new_user_files_spec (heap : Heap) :
    (new_user_files heap).1.fresh = heap.fresh + 3 ∧
      ∀ fd h, (new_user_files heap).2 fd = some h → h.description < heap.fresh + 3 := by
  refine ⟨rfl, fun fd h hfd => ?_⟩
  simp only [new_user_files, FileHandle.new] at hfd
  split_ifs at hfd <;> cases hfd <;> simp

/-! ### The invariant -/

theorem DescInv.init : DescInv init := by
  intro proc hproc
  cases hproc

/-- A process whose handles point below the next free description may be set in place of
another, or added, and the heap may take more descriptions. -/
theorem DescInv.set {s : FsSys} (hinv : s.DescInv) {heap : Heap} (hfresh : s.heap.fresh ≤ heap.fresh)
    {proc : Process} (hproc : ∀ fd h, proc.files fd = some h → h.description < heap.fresh) :
    (∀ p, DescInv ⟨s.procs.set p proc, heap⟩) ∧ DescInv ⟨s.procs ++ [proc], heap⟩ := by
  have hold : ∀ q ∈ s.procs, ∀ fd h, q.files fd = some h → h.description < heap.fresh :=
    fun q hq fd h hfd => Nat.lt_of_lt_of_le (hinv q hq fd h hfd) hfresh
  refine ⟨fun p q hq => ?_, fun q hq => ?_⟩
  · rcases List.mem_or_eq_of_mem_set hq with hq | rfl
    · exact hold q hq
    · exact hproc
  · rcases List.mem_append.mp hq with hq | hq
    · exact hold q hq
    · rw [List.mem_singleton] at hq
      subst hq
      exact hproc

/-- A call of `Syscall/Fs.lean` keeps the invariant. -/
theorem DescInv.step {s s' : FsSys} (hinv : s.DescInv) {op : FsOp} (h : s.step op = some s') :
    s'.DescInv := by
  cases op with
  | new_user =>
    cases h
    obtain ⟨hfresh, hfiles⟩ := new_user_files_spec s.heap
    have hle : s.heap.fresh ≤ (new_user_files s.heap).1.fresh := by
      rw [hfresh]
      omega
    exact (hinv.set hle (hfresh ▸ hfiles)).2
  | fork p =>
    -- the child's handles are its parent's
    obtain ⟨proc, hproc, rfl⟩ := Option.map_eq_some_iff.mp h
    exact (hinv.set le_rfl (hinv proc (List.mem_of_getElem? hproc))).2
  | chdir p path lookup =>
    obtain ⟨proc, hproc, rfl⟩ := Option.map_eq_some_iff.mp h
    refine (hinv.set le_rfl ?_).1 p
    rw [files_sys_chdir]
    exact hinv proc (List.mem_of_getElem? hproc)
  | dup3 p fd1 fd2 flags =>
    obtain ⟨proc, hproc, rfl⟩ := Option.map_eq_some_iff.mp h
    refine (hinv.set le_rfl fun fd h hfd => ?_).1 p
    obtain ⟨fd', h', hh', hdesc⟩ := sys_dup3_handle proc fd1 fd2 flags hfd
    rw [hdesc]
    exact hinv proc (List.mem_of_getElem? hproc) fd' h' hh'
  | lseek p fd offset whence =>
    obtain ⟨proc, hproc, rfl⟩ := Option.map_eq_some_iff.mp h
    split
    · next heap r hl =>
      intro q hq fd h hfd
      rw [fresh_sys_lseek hl]
      exact hinv q hq fd h hfd
    · exact hinv
  | write p fd buf =>
    obtain ⟨proc, hproc, rfl⟩ := Option.map_eq_some_iff.mp h
    split
    · next heap r hw =>
      intro q hq fd h hfd
      rw [fresh_sys_write hw]
      exact hinv q hq fd h hfd
    · exact hinv

/-- What an open that succeeds does: the handle at the lowest free descriptor points to a new
description at the old next free address. -/
theorem sys_open_at_ok {proc : Process} {heap : Heap} {dir_fd : Usize} {path : String}
    {flags : OpenFlags} {found : Except SysError Nat} {proc' : Process} {heap' : Heap}
    {r : Except SysError Usize} (h : proc.sys_open_at heap dir_fd path flags found = some (proc', heap', r)) :
    (proc' = proc ∧ heap' = heap ∧ ∃ e, r = .error e) ∨
      ∃ fd file, r = .ok fd ∧ file.description = heap.fresh ∧ heap'.fresh = heap.fresh + 1 ∧
        heap'.descriptions heap.fresh = ⟨0, flags.into⟩ ∧
        proc'.files = Function.update proc.files fd (some file) ∧ proc'.cwd = proc.cwd ∧
        proc.files fd = none ∧ ∀ j : Usize, j.toNat < fd.toNat → proc.files j ≠ none := by
  unfold sys_open_at at h
  split at h
  · cases h
    exact .inl ⟨rfl, rfl, _, rfl⟩
  · next inode hlookup =>
    obtain ⟨added, hadd, hres⟩ := Option.map_eq_some_iff.mp h
    cases hres
    obtain ⟨hfiles, hcwd, hfree, hbelow⟩ := (add_file_spec proc _).1 added.1 added.2 hadd
    refine .inr ⟨added.2, _, rfl, rfl, rfl, ?_, hfiles, hcwd, hfree, hbelow⟩
    simp [FileHandle.new]

theorem DescInv.file_step {s s' : FsSys} (hinv : s.DescInv) {op : FileOp}
    (h : s.file_step op = some s') : s'.DescInv := by
  cases op with
  | fs op => exact hinv.step h
  | open_at p dir_fd path flags found =>
    obtain ⟨proc, hproc, h⟩ := Option.bind_eq_some_iff.mp h
    obtain ⟨⟨proc', heap', res⟩, hr, rfl⟩ := Option.map_eq_some_iff.mp h
    dsimp only
    have hold := hinv proc (List.mem_of_getElem? hproc)
    rcases sys_open_at_ok hr with ⟨hp, hh, -⟩ | ⟨fd, file, -, hdesc, hfresh, -, hfiles, -, -, -⟩
    · refine (hinv.set (le_of_eq (congrArg Heap.fresh hh.symm)) ?_).1 p
      rw [hp, hh]
      exact hold
    · refine (hinv.set (by omega) fun fd' h' hfd' => ?_).1 p
      rw [hfiles, Function.update_apply] at hfd'
      split at hfd'
      · cases hfd'
        omega
      · have := hold fd' h' hfd'
        omega
  | close p fd =>
    obtain ⟨proc, hproc, rfl⟩ := Option.map_eq_some_iff.mp h
    refine (hinv.set le_rfl fun fd' h' hfd' => ?_).1 p
    have hold := hinv proc (List.mem_of_getElem? hproc)
    unfold sys_close at hfd'
    split at hfd'
    · dsimp only at hfd'
      rw [Function.update_apply] at hfd'
      split at hfd'
      · cases hfd'
      · exact hold fd' h' hfd'
    · exact hold fd' h' hfd'

theorem FileReachable.desc_inv {s : FsSys} (hs : s.FileReachable) : s.DescInv :=
  Queen.Transition.Reachable.inv (fun _ hs => hs ▸ DescInv.init)
    (fun _ _ hinv ⟨_, hstep⟩ => hinv.file_step hstep) hs

/-- **An open makes a description of its own.** In every state the calls reach, an open that
succeeds puts its handle at the lowest free descriptor of the process, on a new description
at offset 0 with the options of the flags, and no other handle of any process shares it:
writes and seeks through the new descriptor move no other descriptor's offset. -/
theorem open_description_unshared {s : FsSys} (hs : s.FileReachable) {p : Nat} {proc : Process}
    (hp : s.procs[p]? = some proc) {dir_fd : Usize} {path : String} {flags : OpenFlags}
    {found : Except SysError Nat} {proc' : Process} {heap' : Heap} {fd : Usize}
    (hopen : proc.sys_open_at s.heap dir_fd path flags found = some (proc', heap', .ok fd)) :
    proc.files fd = none ∧ (∀ j : Usize, j.toNat < fd.toNat → proc.files j ≠ none) ∧
      ∃ file, proc'.files fd = some file ∧ heap'.descriptions file.description = ⟨0, flags.into⟩ ∧
        SoleHandle (s.procs.set p proc') p fd file.description := by
  have hinv := hs.desc_inv
  have hold := hinv proc (List.mem_of_getElem? hp)
  rcases sys_open_at_ok hopen with ⟨-, -, e, he⟩ | ⟨fd₁, file, hr, hdesc, -, hnew, hfiles, -, hfree, hbelow⟩
  · cases he
  · cases hr
    refine ⟨hfree, hbelow, file, by rw [hfiles, Function.update_self], hdesc ▸ hnew, ?_⟩
    intro q pq hq fd' h' hh' hshared
    rw [hdesc] at hshared
    by_cases hqp : q = p
    · -- the process that opened: any other descriptor holds an old handle
      subst hqp
      obtain ⟨hlt, -⟩ := List.getElem?_eq_some_iff.mp hp
      rw [List.getElem?_set_self hlt] at hq
      cases hq
      by_cases hfd' : fd' = fd
      · rw [hfd']
      · rw [hfiles, Function.update_of_ne hfd'] at hh'
        exact absurd hshared (Nat.ne_of_lt (hold fd' h' hh'))
    · -- another process: its handles were there before
      rw [List.getElem?_set_ne (Ne.symm hqp)] at hq
      exact absurd hshared (Nat.ne_of_lt (hinv pq (List.mem_of_getElem? hq) fd' h' hh'))

end FsSys

end Queen.Syscall
