/-
The file system calls of `kernel/src/syscall/fs.rs` that act on the open files and the
working directory of a process: `sys_write`, `sys_lseek`, `sys_dup3` (and `sys_dup2`) and
`sys_chdir`, with `Process::get_file` and `get_file_mut`; and `split_path`, which the calls
that create, remove or rename an entry use to find its directory and its name.

Of `struct Process`, these calls read and write `files`, a `BTreeMap<usize, FileHandle>`,
here a partial function from descriptors to handles, and `cwd`, here its characters. A
system of processes over one heap of open files runs them, with `Thread::new_user`, which
opens the terminal three times and starts in `/`, and fork, which copies both fields.

Each call returns the process as it leaves it together with its result, since `sys_dup3`
changes the table before it can fail. What `sys_chdir` asks of the file system,
`lookup_inode(path)` and the type of the inode found, comes in as an argument; so does the
buffer `sys_write` has read from the user (`check_read_array` is modelled in
`Memory/UserAccess`).
-/
import Queen.Syscall.UserMemory
import Queen.Lib.Path
import Queen.Lib.Transition

set_option autoImplicit false

namespace Queen.Syscall

open Queen.Fs

/-- The fields of `struct Process` the file system calls use. -/
structure Process where
  files : Usize → Option FileHandle
  cwd : List Char

namespace Process

/-- `Process::get_file_mut(fd)` and `Process::get_file(fd)`. -/
def get_file (p : Process) (fd : Usize) : Except SysError FileHandle :=
  match p.files fd with
  | some file => .ok file
  | none => .error .EBADF

/-- `sys_write(fd, base, len)`, from the buffer on. -/
def sys_write (p : Process) (heap : Heap) (fd : Usize) (buf : List (BitVec 8)) :
    Except SysError (Heap × Usize) := do
  let file ← p.get_file fd
  let (heap, len) ← (file.write heap buf).mapError .fs
  pure (heap, BitVec.ofNat 64 len)

/-- `sys_lseek(fd, offset, whence)`. The arms of its `match whence` are named `SEEK_SET`,
`SEEK_END` and `SEEK_CUR`, but no item of those names is defined in the tree or imported
into `syscall/fs.rs`: each name is a pattern that binds `whence`, the first arm matches every
value, and the other three arms are unreachable. So the position is always
`SeekFrom::Start(offset as u64)`. -/
def sys_lseek (p : Process) (heap : Heap) (fd : Usize) (offset : BitVec 64) (whence : BitVec 8) :
    Except SysError (Heap × Usize) := do
  let pos := match whence with
    | _ => SeekFrom.Start offset
  let file ← p.get_file fd
  pure (file.seek heap pos)

/-- `sys_dup3(fd1, fd2, flags)`: `fd2` is closed first, then `fd1` looked up. -/
def sys_dup3 (p : Process) (fd1 fd2 flags : Usize) : Process × Except SysError Usize :=
  let p := { p with files := Function.update p.files fd2 none }
  match p.get_file fd1 with
  | .error e => (p, .error e)
  | .ok file => ({ p with files := Function.update p.files fd2 (some (file.dup (flags ≠ 0))) }, .ok fd2)

/-- `sys_dup2(fd1, fd2)`. -/
def sys_dup2 (p : Process) (fd1 fd2 : Usize) : Process × Except SysError Usize :=
  p.sys_dup3 fd1 fd2 0

/-- `sys_chdir(path)`, given what looking `path` up found. The new directory is the old one,
or the root for an absolute path, split at `/`, walked over the segments of `path` (`..`
pops, `.` is skipped), and joined again; no segment is the root `/`. -/
def sys_chdir (p : Process) (path : List Char) (lookup : Except SysError FileType) :
    Process × Except SysError Usize :=
  match lookup with
  | .error e => (p, .error e)
  | .ok type_ =>
    if type_ ≠ .Dir then (p, .error .ENOTDIR)
    else if path.length > 0 then
      let cwd := if path.head? = some '/' then ['/'] else p.cwd
      let cwd_vec := Path.segments '/' cwd
      let cwd_vec := (Path.segments '/' path).foldl (Path.resolve ['.'] ['.', '.']) cwd_vec
      let cwd := Path.join '/' cwd_vec
      let cwd := if cwd = [] then ['/'] else cwd
      ({ p with cwd }, .ok 0)
    else (p, .ok 0)

/-! ## `sys_dup3` -/

/-- **`sys_dup3` closes `fd2` on its error path.** When `fd1` is not open, or is `fd2` itself,
the call fails with `EBADF` after it has already removed `fd2` from the table. -/
theorem dup3_error_closes_fd2 (p : Process) {fd1 fd2 : Usize} (flags : Usize)
    (hbad : fd1 = fd2 ∨ p.files fd1 = none) :
    p.sys_dup3 fd1 fd2 flags = ({ p with files := Function.update p.files fd2 none }, .error .EBADF) := by
  -- after the removal, `fd1` is not in the table
  have hnone : Function.update p.files fd2 none fd1 = none := by
    rcases hbad with rfl | hbad
    · exact Function.update_self _ _ _
    · rw [Function.update_apply]
      split <;> simp_all
  simp only [sys_dup3, get_file, hnone]

/-- Standard output open, descriptor 5 not: `dup2(5, 1)` fails, and has closed standard
output. -/
theorem dup3_error_closes_stdout :
    let p : Process := ⟨fun fd => if fd = 1 then some ⟨0, 1, "/dev/tty", false⟩ else none, ['/']⟩
    p.files 1 ≠ none ∧ (p.sys_dup3 5 1 0).2 = .error .EBADF ∧ (p.sys_dup3 5 1 0).1.files 1 = none := by
  intro p
  have h := @dup3_error_closes_fd2 p 5 1 0 (Or.inr (by decide))
  refine ⟨by decide, by rw [h], ?_⟩
  rw [h]
  simp

/-! ## `sys_lseek` -/

/-- **`sys_lseek` ignores `whence`.** For every `whence`, the offset is set to `offset`
itself, read as a `u64`, and returned. -/
theorem sys_lseek_ignores_whence (p : Process) (heap : Heap) {fd : Usize} {file : FileHandle}
    (hfile : p.files fd = some file) (offset : BitVec 64) (whence : BitVec 8) :
    p.sys_lseek heap fd offset whence =
      .ok (heap.set_description file.description
        { heap.descriptions file.description with offset }, offset) := by
  simp only [sys_lseek, get_file, hfile, bind, Except.bind, pure, Except.pure]
  rfl

/-- `lseek(fd, 5, SEEK_CUR)` at offset 10 moves to 5, not 15, and `lseek(fd, 5, 3)` succeeds
where it should fail with `EINVAL`. -/
theorem sys_lseek_seek_cur_sets :
    let file : FileHandle := ⟨0, 0, "/f", false⟩
    let p : Process := ⟨fun fd => if fd = 3 then some file else none, ['/']⟩
    let heap : Heap := ⟨fun _ => ⟨[]⟩, fun _ => ⟨10, ⟨true, true, false⟩⟩, 1⟩
    (p.sys_lseek heap 3 5 1).map Prod.snd = .ok 5 ∧ (p.sys_lseek heap 3 5 3).map Prod.snd = .ok 5 := by
  intro file p heap
  have hfile : p.files 3 = some file := by decide
  rw [sys_lseek_ignores_whence p heap hfile, sys_lseek_ignores_whence p heap hfile]
  exact ⟨rfl, rfl⟩

/-! ## `sys_chdir`

The working directory is kept in normal form: `/` alone, or `/s₁/…/sₖ` with every segment a
name (not empty, not `.` or `..`). A change of directory then lands on the lexical normal
form of the old directory, a `/` and the path, or of the path alone when it is absolute. -/

/-- The written form of a directory given by its segments: `/` alone for the root. -/
def render (segs : List (List Char)) : List Char := if segs = [] then ['/'] else Path.join '/' segs

/-- A segment of a directory in normal form. -/
abbrev Name (seg : List Char) : Prop := Path.Plain '/' ['.'] ['.', '.'] seg

/-- A directory in normal form. -/
def Canonical (cwd : List Char) : Prop := ∃ segs, (∀ s ∈ segs, Name s) ∧ cwd = render segs

/-- Where `chdir(path)` should lead from `cwd`: the lexical normal form of `cwd/path`, or of
`path` when it starts at the root. -/
def lexical_chdir (cwd path : List Char) : List Char :=
  render (Path.normalize '/' ['.'] ['.', '.'] (if path.head? = some '/' then path else cwd ++ '/' :: path))

/-- The written form of names splits back into them. -/
theorem segments_render {segs : List (List Char)} (h : ∀ s ∈ segs, Name s) :
    Path.segments '/' (render segs) = segs := by
  unfold render
  split
  · next hnil => rw [hnil]; decide
  · exact Path.segments_join '/' fun s hs => ⟨(h s hs).ne_nil, (h s hs).sep_not_mem⟩

/-- `sys_chdir`'s last two lines: joining, and `/` for nothing joined. -/
theorem join_or_root (segs : List (List Char)) :
    (if Path.join '/' segs = [] then ['/'] else Path.join '/' segs) = render segs := by
  unfold render
  rcases segs with _ | ⟨seg, segs⟩
  · rfl
  · have hne : Path.join '/' (seg :: segs) ≠ [] := by
      rw [Path.join, Path.foldl_join, Path.flatMap_sep_cons]
      simp
    rw [if_neg hne, if_neg (List.cons_ne_nil _ _)]

/-- **What `sys_chdir` does to the directory.** From a directory in normal form, a change of
directory that succeeds lands on the lexical normal form of the path from there, itself in
normal form. -/
theorem chdir_cwd {p p' : Process} {path : List Char} {lookup : Except SysError FileType}
    {r : Usize} (hcwd : Canonical p.cwd) (h : p.sys_chdir path lookup = (p', .ok r)) :
    p'.cwd = lexical_chdir p.cwd path ∧ Canonical p'.cwd := by
  obtain ⟨segs, hsegs, hcwd⟩ := hcwd
  -- the old directory is the walk over its own segments
  have hold : Path.normalize '/' ['.'] ['.', '.'] p.cwd = segs := by
    rw [hcwd, Path.normalize, segments_render hsegs, Path.foldl_resolve_of_plain hsegs,
      List.nil_append]
  have hcanon : ∀ dir, (∀ s ∈ dir, Name s) → ∀ q, Canonical
      (render ((Path.segments '/' q).foldl (Path.resolve ['.'] ['.', '.']) dir)) :=
    fun dir hdir q => ⟨_, Path.plain_foldl_resolve hdir fun s hs => Path.mem_segments '/' hs, rfl⟩
  unfold sys_chdir at h
  split at h
  · cases h
  next type_ =>
  by_cases hdir : type_ ≠ .Dir
  · rw [if_pos hdir] at h
    cases h
  rw [if_neg hdir] at h
  by_cases hlen : path.length > 0
  · rw [if_pos hlen, Prod.mk.injEq] at h
    obtain ⟨rfl, -⟩ := h
    dsimp only
    rw [join_or_root, lexical_chdir]
    by_cases habs : path.head? = some '/'
    · -- an absolute path: the walk starts at the root
      have hroot : Path.segments '/' ['/'] = [] := by decide
      rw [if_pos habs, if_pos habs, hroot, Path.normalize]
      exact ⟨rfl, hcanon [] (fun _ hs => by cases hs) path⟩
    · -- a relative path: the walk goes on from the old directory
      rw [if_neg habs, if_neg habs, Path.normalize_append_sep, hold, hcwd, segments_render hsegs]
      exact ⟨rfl, hcanon segs hsegs path⟩
  · -- an empty path: nothing changes, and `cwd/` is `cwd` again
    rw [if_neg hlen, Prod.mk.injEq] at h
    obtain ⟨rfl, -⟩ := h
    have hnil : path = [] := List.eq_nil_of_length_eq_zero (by omega)
    subst hnil
    have hempty : Path.segments '/' ([] : List Char) = [] := by decide
    refine ⟨?_, ⟨segs, hsegs, hcwd⟩⟩
    rw [lexical_chdir, if_neg (by simp), Path.normalize_append_sep, hold, hempty, List.foldl_nil, hcwd]

end Process

/-! ## `split_path` -/

/-- `split_path(path)`: the directory of a path's last entry, and the entry's name. -/
def split_path (path : List Char) : List Char × List Char :=
  let split := Path.rsplitn_two '/' (Path.trim_end_matches '/' path)
  let file_name := split.1
  let dir_path := split.2.getD ['.']
  let dir_path := if dir_path = [] then ['/'] else dir_path
  (dir_path, file_name)

/-- Without a slash before the last name, the directory is `.`. -/
theorem split_path_of_none {path after : List Char}
    (h : Path.rsplitn_two '/' (Path.trim_end_matches '/' path) = (after, none)) :
    split_path path = (['.'], after) := by
  simp [split_path, h]

/-- With a slash before the last name, the directory is what stands before it, or `/` when
nothing does. -/
theorem split_path_of_some {path after before : List Char}
    (h : Path.rsplitn_two '/' (Path.trim_end_matches '/' path) = (after, some before)) :
    split_path path = (if before = [] then ['/'] else before, after) := by
  simp [split_path, h]

/-- **`split_path` of a path with a name in it.** Let `t` be the path without its trailing
slashes. The name is not empty and holds no slash. Without a slash in `t`, the directory is `.`
and the name is `t`; when `t`'s only slash is its first character, the directory is `/` and
`t` is `/` and the name; otherwise `t` is the directory, a slash and the name. -/
theorem split_path_spec (path : List Char) (hname : ∃ c ∈ path, c ≠ '/') (d f : List Char)
    (hsplit : split_path path = (d, f)) :
    let t := Path.trim_end_matches '/' path
    f ≠ [] ∧ '/' ∉ f ∧ ('/' ∉ t → d = ['.'] ∧ f = t) ∧
      ((∃ rest, t = '/' :: rest ∧ '/' ∉ rest) → d = ['/'] ∧ t = '/' :: f) ∧
      ('/' ∈ t → (¬ ∃ rest, t = '/' :: rest ∧ '/' ∉ rest) → t = d ++ '/' :: f) := by
  intro t
  obtain ⟨q, c, ht, hc⟩ := Path.trim_end_matches_ends '/' hname
  have hlast : (Path.rsplitn_two '/' t).1 ≠ [] := Path.rsplitn_two_fst_ne_nil '/' ht hc
  rcases hr : Path.rsplitn_two '/' t with ⟨after, _ | before⟩
  · -- no slash in `t`: the directory defaults to `.`, the name is all of `t`
    obtain ⟨rfl, hnot⟩ := Path.rsplitn_two_none '/' hr
    rw [split_path_of_none hr, Prod.mk.injEq] at hsplit
    obtain ⟨rfl, rfl⟩ := hsplit
    rw [hr] at hlast
    refine ⟨hlast, hnot, fun _ => ⟨rfl, rfl⟩, fun ⟨rest, hrest, _⟩ => ?_, fun hin => absurd hin hnot⟩
    exact absurd (hrest ▸ List.mem_cons_self) hnot
  · obtain ⟨htb, hnot⟩ := Path.rsplitn_two_some '/' hr
    rw [split_path_of_some hr, Prod.mk.injEq] at hsplit
    obtain ⟨rfl, rfl⟩ := hsplit
    rw [hr] at hlast
    have hin : '/' ∈ t := by
      rw [htb]
      exact List.mem_append_right _ List.mem_cons_self
    -- a slash first and none after it: nothing stands before the last slash
    have hfirst : (∃ rest, t = '/' :: rest ∧ '/' ∉ rest) → before = [] := by
      rintro ⟨rest, hrest, hnot'⟩
      rcases before with _ | ⟨b, bs⟩
      · rfl
      · rw [htb, List.cons_append, List.cons.injEq] at hrest
        exact absurd (hrest.2 ▸ List.mem_append_right _ List.mem_cons_self) hnot'
    refine ⟨hlast, hnot, fun hno => absurd hin hno, fun honly => ?_, fun _ hnonly => ?_⟩
    · have hb := hfirst honly
      subst hb
      exact ⟨rfl, htb⟩
    · have hb : before ≠ [] := by
        rintro rfl
        exact hnonly ⟨after, htb, hnot⟩
      rw [if_neg hb]
      exact htb

/-- **`split_path` of the root.** A path of slashes only is split into `.` and the empty name:
the entry with no name in the working directory, not the root. -/
theorem split_path_root (path : List Char) (hslash : ∀ c ∈ path, c = '/') :
    split_path path = (['.'], []) := by
  have ht : Path.trim_end_matches '/' path = [] :=
    (Path.trim_end_matches_eq_nil_iff '/' path).mpr hslash
  simp [split_path, ht, Path.rsplitn_two]

theorem split_path_slash : (∀ c ∈ ['/'], c = '/') ∧ split_path ['/'] = (['.'], []) :=
  ⟨by simp, split_path_root ['/'] (by simp)⟩

/-! ## Processes over one heap of open files -/

/-- The terminal, `crate::fs::TTY`: the inode at address 0. -/
def TTY : Nat := 0

/-- The initial descriptors of `Thread::new_user`: the terminal read-only at 0 and
write-only at 1 and 2, each through a description of its own. -/
def new_user_files (heap : Heap) : Heap × (Usize → Option FileHandle) :=
  let (heap, stdin) := FileHandle.new heap TTY ⟨true, false, false⟩ "/dev/tty" false
  let (heap, stdout) := FileHandle.new heap TTY ⟨false, true, false⟩ "/dev/tty" false
  let (heap, stderr) := FileHandle.new heap TTY ⟨false, true, false⟩ "/dev/tty" false
  (heap, fun fd => if fd = 0 then some stdin else if fd = 1 then some stdout
    else if fd = 2 then some stderr else none)

/-- The processes and the open files they share. -/
structure FsSys where
  procs : List Process
  heap : Heap

/-- What a process does to its files and directory. -/
inductive FsOp
  /-- `Thread::new_user`. -/
  | new_user
  /-- `Thread::fork` of a thread of process `p`: `files.clone()`, `cwd.clone()`. -/
  | fork (p : Nat)
  | chdir (p : Nat) (path : List Char) (lookup : Except SysError FileType)
  | dup3 (p : Nat) (fd1 fd2 flags : Usize)
  | lseek (p : Nat) (fd : Usize) (offset : BitVec 64) (whence : BitVec 8)
  | write (p : Nat) (fd : Usize) (buf : List (BitVec 8))

namespace FsSys

open Queen.Syscall.Process

/-- The start: no process, the terminal with nothing written. -/
def init : FsSys := ⟨[], ⟨fun _ => ⟨[]⟩, fun _ => default, 0⟩⟩

/-- One call; `none` when there is no process `p`. -/
def step (s : FsSys) : FsOp → Option FsSys
  | .new_user =>
    let (heap, files) := new_user_files s.heap
    some ⟨s.procs ++ [⟨files, ['/']⟩], heap⟩
  | .fork p => s.procs[p]?.map fun proc => ⟨s.procs ++ [⟨proc.files, proc.cwd⟩], s.heap⟩
  | .chdir p path lookup =>
    s.procs[p]?.map fun proc => ⟨s.procs.set p (proc.sys_chdir path lookup).1, s.heap⟩
  | .dup3 p fd1 fd2 flags =>
    s.procs[p]?.map fun proc => ⟨s.procs.set p (proc.sys_dup3 fd1 fd2 flags).1, s.heap⟩
  | .lseek p fd offset whence =>
    s.procs[p]?.map fun proc => match proc.sys_lseek s.heap fd offset whence with
      | .ok (heap, _) => ⟨s.procs, heap⟩
      | .error _ => s
  | .write p fd buf =>
    s.procs[p]?.map fun proc => match proc.sys_write s.heap fd buf with
      | .ok (heap, _) => ⟨s.procs, heap⟩
      | .error _ => s

/-- The states the calls reach from the start. -/
def Reachable : FsSys → Prop := Queen.Transition.Reachable (· = init) (Queen.Transition.Next step)

/-- Every process's directory is in normal form. -/
def CwdInv (s : FsSys) : Prop := ∀ proc ∈ s.procs, Canonical proc.cwd

theorem root_canonical : Canonical ['/'] := ⟨[], (fun _ hs => nomatch hs), rfl⟩

/-- Every call but `sys_chdir` leaves the directory as it is. -/
theorem sys_dup3_cwd (proc : Process) (fd1 fd2 flags : Usize) :
    (proc.sys_dup3 fd1 fd2 flags).1.cwd = proc.cwd := by
  unfold Process.sys_dup3
  dsimp only
  split <;> rfl

/-- Whatever `sys_chdir` returns, it leaves a directory in normal form. -/
theorem sys_chdir_canonical {proc : Process} (hcwd : Canonical proc.cwd) (path : List Char)
    (lookup : Except SysError FileType) : Canonical (proc.sys_chdir path lookup).1.cwd := by
  cases h : proc.sys_chdir path lookup with
  | mk proc' res =>
    cases res with
    | ok r => exact (chdir_cwd hcwd h).2
    | error e =>
      -- a failed change of directory leaves the process as it was
      have hsame : proc' = proc := by
        unfold Process.sys_chdir at h
        split at h
        · exact (Prod.mk.inj h).1.symm
        · split_ifs at h <;> simp_all
      simpa [hsame] using hcwd

/-- A process set in place of one with its directory in normal form keeps the invariant. -/
theorem CwdInv.set {s : FsSys} (hinv : s.CwdInv) {p : Nat} {proc : Process}
    (hcwd : Canonical proc.cwd) : ∀ q ∈ s.procs.set p proc, Canonical q.cwd := by
  intro q hq
  rcases List.mem_or_eq_of_mem_set hq with hq | rfl
  · exact hinv q hq
  · exact hcwd

/-- A new process with its directory in normal form keeps the invariant. -/
theorem CwdInv.append {s : FsSys} (hinv : s.CwdInv) {proc : Process}
    (hcwd : Canonical proc.cwd) : ∀ q ∈ s.procs ++ [proc], Canonical q.cwd := by
  intro q hq
  rcases List.mem_append.mp hq with hq | hq
  · exact hinv q hq
  · rw [List.mem_singleton] at hq
    subst hq
    exact hcwd

theorem CwdInv.step {s s' : FsSys} (hinv : s.CwdInv) {op : FsOp} (h : s.step op = some s') :
    s'.CwdInv := by
  cases op with
  | new_user =>
    cases h
    exact hinv.append root_canonical
  | fork p =>
    -- the child starts in its parent's directory
    obtain ⟨proc, hproc, rfl⟩ := Option.map_eq_some_iff.mp h
    exact hinv.append (hinv proc (List.mem_of_getElem? hproc))
  | chdir p path lookup =>
    obtain ⟨proc, hproc, rfl⟩ := Option.map_eq_some_iff.mp h
    exact hinv.set (sys_chdir_canonical (hinv proc (List.mem_of_getElem? hproc)) path lookup)
  | dup3 p fd1 fd2 flags =>
    obtain ⟨proc, hproc, rfl⟩ := Option.map_eq_some_iff.mp h
    refine hinv.set ?_
    rw [sys_dup3_cwd]
    exact hinv proc (List.mem_of_getElem? hproc)
  | lseek p fd offset whence =>
    obtain ⟨proc, hproc, rfl⟩ := Option.map_eq_some_iff.mp h
    split
    · exact hinv
    · exact hinv
  | write p fd buf =>
    obtain ⟨proc, hproc, rfl⟩ := Option.map_eq_some_iff.mp h
    split
    · exact hinv
    · exact hinv

/-- **The working directory stays in normal form.** In every state the calls reach, every
process's directory is `/` or `/s₁/…/sₖ` with each segment a name; and a change of directory
that succeeds lands on the lexical normal form of the old directory, `/` and the path, or of
the path alone when it is absolute (`..` at the root staying there). -/
theorem cwd_normal_form :
    (∀ s : FsSys, s.Reachable → ∀ proc ∈ s.procs, Canonical proc.cwd) ∧
      ∀ (proc proc' : Process) (path : List Char) (lookup : Except SysError FileType) (r : Usize),
        Canonical proc.cwd → proc.sys_chdir path lookup = (proc', .ok r) →
          proc'.cwd = lexical_chdir proc.cwd path := by
  refine ⟨fun s hs => ?_, fun proc proc' path lookup r hcwd h => (chdir_cwd hcwd h).1⟩
  refine Queen.Transition.Reachable.inv (P := CwdInv) ?_ ?_ hs
  · rintro s rfl q hq
    exact nomatch hq
  · rintro s s' hinv ⟨op, h⟩
    exact hinv.step h

/-- From the root, `chdir("a/../b")` goes to `/b`, as its lexical normal form says. -/
theorem cwd_normal_form_up_and_down :
    let proc : Process := ⟨fun _ => none, ['/']⟩
    (proc.sys_chdir ['a', '/', '.', '.', '/', 'b'] (.ok .Dir)).1.cwd =
        lexical_chdir proc.cwd ['a', '/', '.', '.', '/', 'b'] ∧
      lexical_chdir ['/'] ['a', '/', '.', '.', '/', 'b'] = ['/', 'b'] := by
  intro proc
  have hres : (proc.sys_chdir ['a', '/', '.', '.', '/', 'b'] (.ok .Dir)).2 = .ok 0 := by decide
  refine ⟨cwd_normal_form.2 proc _ _ _ 0 root_canonical (Prod.ext rfl hres), by decide⟩

end FsSys

end Queen.Syscall
