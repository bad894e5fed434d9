/-
How the system calls of `kernel/src/syscall/` reach user memory: `Syscall::syscall` and the
handlers that take a user pointer, `sys_read`, `sys_write`, `sys_pread`, `sys_pwrite`,
`sys_get_cwd`, `sys_nanosleep`, `sys_clock_get_time` and the pointer checks of `sys_clone`.

A handler is modelled by what it does to user memory before it returns: the ranges it reads
or writes, in order, and its result. The file system (`queen_fs`, a submodule not in the
tree) is a parameter: what a file read or write returns for a descriptor and a length. A
checked handler calls `MemorySet::check_read_array` or `check_write_array` and returns
`EFAULT` on failure; a read or write of the file then stays inside the checked buffer, so the
buffer is the range touched. `sys_get_cwd` writes the working directory with `write_cstr`
and checks nothing (`get_cwd_writes_outside_areas`).

The handlers that read a path with `from_cstr` scan memory up to a zero byte, so what they
touch depends on memory contents; they are left out, with `sys_wait4`, whose status write is
in the process model's `sys_wait4`.
-/
import Queen.Memory.MemorySet
import Queen.Fs.File

set_option autoImplicit false

namespace Queen.Syscall

open Queen.Memory

/-- `queen_syscall::Error`, the codes the modelled handlers return themselves, and an
`FsError` that `?` passes on (its `From` conversion is queen-syscall's, outside the tree). -/
inductive SysError
  | EFAULT
  | ERANGE
  | EBADF
  | ENOSYS
  | EINVAL
  | ENOTDIR
  | fs (e : Queen.Fs.FsError)
deriving DecidableEq, Repr

/-- `SysResult`. -/
abbrev SysResult := Except SysError Usize

/-- The system-call numbers of `arch/aarch64/syscall.rs` for the modelled handlers. -/
def SYS_GETCWD : Usize := 17
def SYS_READ : Usize := 63
def SYS_WRITE : Usize := 64
def SYS_PREAD64 : Usize := 67
def SYS_PWRITE64 : Usize := 68
def SYS_NANOSLEEP : Usize := 101
def SYS_CLOCK_GETTIME : Usize := 113
def SYS_CLONE : Usize := 220

/-- `size_of::<TimeSpec>()`: two 64-bit words. -/
def TIMESPEC_SIZE : Usize := 16

/-- One access to user memory: `count` bytes from `addr`, written or read. -/
structure Access where
  addr : Usize
  count : Usize
  write : Bool
deriving DecidableEq, Repr

/-- Every byte of the access lies in an area of the memory set, one that is not read-only for
a write. -/
def Access.InAreas (ms : MemorySet) (a : Access) : Prop :=
  ∀ x : Nat, a.addr.toNat ≤ x → x < a.addr.toNat + a.count.toNat →
    ∃ area ∈ ms.areas, area.start_addr.toNat ≤ x ∧ x < area.end_addr.toNat ∧
      (a.write = true → area.attr.readonly = false)

/-- What a handler did to user memory, and what it returned. -/
structure Outcome where
  accesses : List Access
  result : SysResult

/-- The file operations behind a descriptor (`queen_fs`): bytes moved, or an error such as
`EBADF` from `get_file_mut`. -/
structure FileSystem where
  read : Usize → Usize → SysResult
  write : Usize → Usize → SysResult
  read_at : Usize → Usize → Usize → SysResult
  write_at : Usize → Usize → Usize → SysResult

/-- What a handler sees of the calling thread: its memory set and working directory. -/
structure Caller where
  vm : MemorySet
  cwd : List (BitVec 8)

/-! ## Handlers -/

/-- The shape of the four buffer handlers: `check(base, len)?`, then the file operation on the
buffer. -/
def checked (check : Bool) (buffer : Access) (op : SysResult) : Outcome :=
  if check then ⟨[buffer], op⟩ else ⟨[], .error .EFAULT⟩

/-- `sys_read(fd, base, len)`. -/
def sys_read (c : Caller) (fs : FileSystem) (fd base len : Usize) : Outcome :=
  checked (c.vm.check_write_array 1 base len) ⟨base, len, true⟩ (fs.read fd len)

/-- `sys_write(fd, base, len)`. -/
def sys_write (c : Caller) (fs : FileSystem) (fd base len : Usize) : Outcome :=
  checked (c.vm.check_read_array 1 base len) ⟨base, len, false⟩ (fs.write fd len)

/-- `sys_pread(fd, base, len, pos)`. -/
def sys_pread (c : Caller) (fs : FileSystem) (fd base len pos : Usize) : Outcome :=
  checked (c.vm.check_write_array 1 base len) ⟨base, len, true⟩ (fs.read_at fd pos len)

/-- `sys_pwrite(fd, base, len, pos)`. -/
def sys_pwrite (c : Caller) (fs : FileSystem) (fd base len pos : Usize) : Outcome :=
  checked (c.vm.check_read_array 1 base len) ⟨base, len, false⟩ (fs.write_at fd pos len)

/-- `sys_get_cwd(buf, len)`: `ERANGE` when the directory and its NUL do not fit, else
`write_cstr(buf, cwd)` and `Ok(buf)`. No check of `buf`. -/
def sys_get_cwd (c : Caller) (buf len : Usize) : Outcome :=
  if c.cwd.length + 1 > len.toNat then ⟨[], .error .ERANGE⟩
  else ⟨[⟨buf, BitVec.ofNat 64 (c.cwd.length + 1), true⟩], .ok buf⟩

/-- `sys_nanosleep(req)`: reads the `TimeSpec` at `req` unchecked, then sleeps. -/
def sys_nanosleep (req : Usize) : Outcome :=
  ⟨[⟨req, TIMESPEC_SIZE, false⟩], .ok 0⟩

/-- `sys_clock_get_time(clock, NonNull::new(ts).unwrap())`: panics on a null `ts`, else
writes the time there unchecked. -/
def sys_clock_get_time (ts : Usize) : Option Outcome :=
  if ts = 0 then none else some ⟨[⟨ts, TIMESPEC_SIZE, true⟩], .ok 0⟩

/-- The user-memory part of `sys_clone(flags, newsp, parent_tid, child_tid, newtls)`: the
fork flags go to `sys_fork`, other flags than musl's `pthread_create` are `ENOSYS`, and both
tid words are checked with `check_write_ptr` before the new thread's tid is written to them. -/
def sys_clone (c : Caller) (flags parent_tid child_tid : Usize) (tid : Usize) : Outcome :=
  if flags = 0x4111 ∨ flags = 0x11 then ⟨[], .ok tid⟩
  else if flags ≠ 0x7d0f00 ∧ flags ≠ 0x5d0f00 then ⟨[], .error .ENOSYS⟩
  else if c.vm.check_write_array 4 parent_tid 1 && c.vm.check_write_array 4 child_tid 1 then
    ⟨[⟨parent_tid, 4, true⟩, ⟨child_tid, 4, true⟩], .ok tid⟩
  else ⟨[], .error .EFAULT⟩

/-- `Syscall::syscall(id, args)` over the modelled numbers; `none` for the others. `tid` is
the tid `sys_clone` gives the new thread. -/
def syscall (c : Caller) (fs : FileSystem) (tid : Usize) (id : Usize) (args : Fin 6 → Usize) :
    Option Outcome :=
  if id = SYS_READ then some (sys_read c fs (args 0) (args 1) (args 2))
  else if id = SYS_WRITE then some (sys_write c fs (args 0) (args 1) (args 2))
  else if id = SYS_PREAD64 then some (sys_pread c fs (args 0) (args 1) (args 2) (args 3))
  else if id = SYS_PWRITE64 then some (sys_pwrite c fs (args 0) (args 1) (args 2) (args 3))
  else if id = SYS_GETCWD then some (sys_get_cwd c (args 0) (args 1))
  else if id = SYS_NANOSLEEP then some (sys_nanosleep (args 0))
  else if id = SYS_CLOCK_GETTIME then sys_clock_get_time (args 1)
  else if id = SYS_CLONE then some (sys_clone c (args 0) (args 2) (args 3) tid)
  else none

/-! ## `sys_get_cwd` -/

/-- `sys_get_cwd` never returns `EFAULT`: whatever the memory set, when the directory fits
in `len` it writes it at `buf` and returns `Ok(buf)`. So when `buf` lies in no area, the call
writes a byte that no area holds, and still succeeds. -/
theorem get_cwd_writes_outside_areas (c : Caller) (fs : FileSystem) (tid : Usize)
    (args : Fin 6 → Usize) (hlen : c.cwd.length + 1 ≤ (args 1).toNat)
    (hout : ∀ area ∈ c.vm.areas,
      ¬ (area.start_addr.toNat ≤ (args 0).toNat ∧ (args 0).toNat < area.end_addr.toNat)) :
    ∃ o, syscall c fs tid SYS_GETCWD args = some o ∧ o.result = .ok (args 0) ∧
      ∃ a ∈ o.accesses, ¬ a.InAreas c.vm := by
  have hcount : 0 < (BitVec.ofNat 64 (c.cwd.length + 1)).toNat := by
    rw [BitVec.toNat_ofNat, Nat.mod_eq_of_lt (by have := (args 1).isLt; omega)]
    omega
  refine ⟨_, rfl, ?_, ⟨args 0, BitVec.ofNat 64 (c.cwd.length + 1), true⟩, ?_, ?_⟩
  · simp [sys_get_cwd, Nat.not_lt.mpr hlen]
  · simp [sys_get_cwd, Nat.not_lt.mpr hlen]
  · -- the first byte, at `buf`, is in no area
    intro hin
    obtain ⟨area, harea, hlo, hhi, -⟩ := hin (args 0).toNat le_rfl (Nat.lt_add_of_pos_right hcount)
    exact hout area harea ⟨hlo, hhi⟩

/-- `getcwd(0, 2)` from a process whose memory set has no areas and whose working directory
is `/`, the one `Thread::new_user` gives. -/
theorem get_cwd_writes_outside_areas_at_null :
    ([0x2f#8] : List (BitVec 8)).length + 1 ≤ (2#64 : Usize).toNat ∧
      (∀ area ∈ (MemorySet.new).areas,
        ¬ (area.start_addr.toNat ≤ (0#64 : Usize).toNat ∧ (0#64 : Usize).toNat < area.end_addr.toNat)) ∧
      ∃ o, syscall ⟨MemorySet.new, [0x2f#8]⟩ ⟨fun _ _ => .ok 0, fun _ _ => .ok 0,
          fun _ _ _ => .ok 0, fun _ _ _ => .ok 0⟩ 0 SYS_GETCWD ![0#64, 2#64, 0, 0, 0, 0] = some o ∧
        o.result = .ok 0#64 ∧ ∃ a ∈ o.accesses, ¬ a.InAreas MemorySet.new :=
  ⟨by decide, by simp [MemorySet.new],
    get_cwd_writes_outside_areas ⟨MemorySet.new, [0x2f#8]⟩ _ 0 ![0#64, 2#64, 0, 0, 0, 0]
      (by decide) (by simp [MemorySet.new])⟩

end Queen.Syscall
