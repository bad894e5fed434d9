/-
Open files, `kernel/src/fs/file.rs`: `FileHandle`, the `OpenFileDescription` it shares with
its copies, and `read`, `read_at`, `write`, `write_at`, `seek` and `dup`.

A `FileHandle` holds two `Arc`s, to its inode and to its description. Here they are
addresses into a `Heap` of inodes and descriptions, so that every copy of a handle (`dup`,
`files.clone()` on fork) reads and writes the same offset, as the `Arc` makes it do.

The inode is queen-fs's `dyn INode`, outside the tree. It is taken to behave as a file of
bytes: `read_at(off, buf)` reads the bytes from `off` on, as many as `buf` holds, and never
answers `Again`, so the loop of `FileHandle::read_at` returns at once; `write_at(off, buf)`
writes all of `buf` at `off`, reading the hole below `off` as zeros, and `metadata().size` is
its length; `metadata()` does not fail.

Offsets are `u64` and `i64`, both `BitVec 64` here; `as` between them and `usize` keeps the
bits, and `+=` wraps, as in a release build.
-/
import Queen.Lib.Bytes

set_option autoImplicit false

namespace Queen.Fs

/-- `FsError`: the one of queen-fs's errors this file returns itself. -/
inductive FsError
  | InvalidParam
deriving DecidableEq, Repr

/-- `FileType`, of queen-fs; `sys_chdir` asks for a directory. -/
inductive FileType
  | File
  | Dir
  | SymLink
  | Other
deriving DecidableEq, Repr

/-- An inode, taken to be a file of bytes. -/
structure INode where
  data : List (BitVec 8)
deriving DecidableEq, Repr, Inhabited

namespace INode

/-- `metadata().size`. -/
def size (i : INode) : Nat := i.data.length

/-- `INode::read_at(offset, buf)` for a `buf` of `len` bytes: the bytes it fills, from
`offset` on, none past the end. -/
def read_at (i : INode) (offset len : Nat) : List (BitVec 8) := (i.data.drop offset).take len

/-- `INode::write_at(offset, buf)`: all of `buf` at `offset`, past a hole of zeros when
`offset` is beyond the end. -/
def write_at (i : INode) (offset : Nat) (buf : List (BitVec 8)) : INode × Nat :=
  (⟨i.data.take offset ++ List.replicate (offset - i.data.length) 0 ++ buf ++
    i.data.drop (offset + buf.length)⟩, buf.length)

end INode

/-- `OpenOptions`. -/
structure OpenOptions where
  read : Bool
  write : Bool
  /-- Before each write, the file offset is positioned at the end of the file. -/
  append : Bool
deriving DecidableEq, Repr, Inhabited

/-- `OpenFileDescription`; its `flock` is never read, and left out. -/
structure OpenFileDescription where
  offset : BitVec 64
  options : OpenOptions
deriving DecidableEq, Repr, Inhabited

/-- What the `Arc`s of the open files point to, by address. -/
structure Heap where
  inodes : Nat → INode
  descriptions : Nat → OpenFileDescription
  /-- The address the next `OpenFileDescription::create` takes. -/
  fresh : Nat

/-- `FileHandle`. -/
structure FileHandle where
  inode : Nat
  description : Nat
  path : String
  fd_cloexec : Bool
deriving DecidableEq, Repr

/-- `SeekFrom`. -/
inductive SeekFrom
  | Start (offset : BitVec 64)
  | End (offset : BitVec 64)
  | Current (offset : BitVec 64)
deriving DecidableEq, Repr

namespace Heap

/-- `*description = d`, through one of the handles that share it. -/
def set_description (heap : Heap) (d : Nat) (desc : OpenFileDescription) : Heap :=
  { heap with descriptions := Function.update heap.descriptions d desc }

@[simp] theorem descriptions_set_description (heap : Heap) (d : Nat) (desc : OpenFileDescription)
    (d' : Nat) :
    (heap.set_description d desc).descriptions d' = if d' = d then desc else heap.descriptions d' := by
  simp only [set_description, Function.update_apply]

@[simp] theorem inodes_set_description (heap : Heap) (d : Nat) (desc : OpenFileDescription) :
    (heap.set_description d desc).inodes = heap.inodes := rfl

end Heap

namespace FileHandle

/-- `OpenFileDescription::create(options)` and `FileHandle::new`: a description at offset 0,
at the next free address. -/
def new (heap : Heap) (inode : Nat) (options : OpenOptions) (path : String) (fd_cloexec : Bool) :
    Heap × FileHandle :=
  let descriptions := Function.update heap.descriptions heap.fresh ⟨0, options⟩
  ({ heap with descriptions, fresh := heap.fresh + 1 }, ⟨inode, heap.fresh, path, fd_cloexec⟩)

/-- `FileHandle::dup(fd_cloexec)`: the same inode and description. -/
def dup (h : FileHandle) (fd_cloexec : Bool) : FileHandle := { h with fd_cloexec }

/-- `FileHandle::read_at(offset, buf)` for a `buf` of `len` bytes: the bytes read. -/
def read_at (h : FileHandle) (heap : Heap) (offset len : Nat) : Except FsError (List (BitVec 8)) :=
  if !(heap.descriptions h.description).options.read then .error .InvalidParam
  else .ok ((heap.inodes h.inode).read_at offset len)

/-- `FileHandle::read(buf)` for a `buf` of `len` bytes, in one piece: the offset loaded, the
bytes read there, and the offset moved on by their number. -/
def read (h : FileHandle) (heap : Heap) (len : Nat) : Except FsError (Heap × List (BitVec 8)) := do
  let offset := (heap.descriptions h.description).offset.toNat
  let bytes ← h.read_at heap offset len
  let description := heap.descriptions h.description
  pure (heap.set_description h.description
    { description with offset := description.offset + BitVec.ofNat 64 bytes.length }, bytes)

/-- `FileHandle::write_at(offset, buf)`. -/
def write_at (h : FileHandle) (heap : Heap) (offset : Nat) (buf : List (BitVec 8)) :
    Except FsError (Heap × Nat) :=
  if !(heap.descriptions h.description).options.write then .error .InvalidParam
  else
    let (inode, len) := (heap.inodes h.inode).write_at offset buf
    .ok ({ heap with inodes := Function.update heap.inodes h.inode inode }, len)

/-- `FileHandle::write(buf)`: at the end of the file in append mode, else at the offset; the
offset then moves past what was written. -/
def write (h : FileHandle) (heap : Heap) (buf : List (BitVec 8)) : Except FsError (Heap × Nat) := do
  let description := heap.descriptions h.description
  let offset := (if description.options.append then BitVec.ofNat 64 (heap.inodes h.inode).size
    else description.offset).toNat
  let (heap, len) ← h.write_at heap offset buf
  let description := heap.descriptions h.description
  pure (heap.set_description h.description
    { description with offset := description.offset + BitVec.ofNat 64 len }, len)

/-- `FileHandle::seek(pos)`: the new offset, stored and returned. -/
def seek (h : FileHandle) (heap : Heap) (pos : SeekFrom) : Heap × BitVec 64 :=
  let description := heap.descriptions h.description
  let offset := match pos with
    | .Start offset => offset
    | .End offset => BitVec.ofNat 64 (heap.inodes h.inode).size + offset
    | .Current offset => description.offset + offset
  (heap.set_description h.description { description with offset }, offset)

/-! ## What a write does -/

theorem write_at_eq_ok {h : FileHandle} {heap heap' : Heap} {offset n : Nat}
    {buf : List (BitVec 8)} (hw : h.write_at heap offset buf = .ok (heap', n)) :
    (heap.descriptions h.description).options.write = true ∧ n = buf.length ∧
      heap' = { heap with
        inodes := Function.update heap.inodes h.inode ((heap.inodes h.inode).write_at offset buf).1 } := by
  unfold write_at at hw
  split at hw
  · cases hw
  · next hwrite =>
    simp only [Bool.not_eq_true', Bool.not_eq_false] at hwrite
    simp only [INode.write_at, Except.ok.injEq, Prod.mk.injEq] at hw
    exact ⟨hwrite, hw.2.symm, hw.1.symm⟩

/-- Writing at the end of a file appends. -/
theorem write_at_size (i : INode) (buf : List (BitVec 8)) :
    (i.write_at i.size buf).1.data = i.data ++ buf := by
  simp [INode.write_at, INode.size]

/-- **What `write` does.** When it goes through, the whole buffer is written where the offset
points, or at the end of the file in append mode, and the shared offset moves on by its length
from where it was, in either mode. -/
theorem write_eq_ok {h : FileHandle} {heap heap' : Heap} {n : Nat} {buf : List (BitVec 8)}
    (hw : h.write heap buf = .ok (heap', n)) :
    let description := heap.descriptions h.description
    let offset := (if description.options.append then BitVec.ofNat 64 (heap.inodes h.inode).size
      else description.offset).toNat
    n = buf.length ∧
      heap'.inodes h.inode = ((heap.inodes h.inode).write_at offset buf).1 ∧
      heap'.descriptions h.description =
        { description with offset := description.offset + BitVec.ofNat 64 n } := by
  intro description offset
  simp only [write, bind, Except.bind] at hw
  split at hw
  · cases hw
  · next r hr =>
    obtain ⟨heap₁, len⟩ := r
    obtain ⟨-, rfl, rfl⟩ := write_at_eq_ok hr
    simp only [pure, Except.pure, Except.ok.injEq, Prod.mk.injEq] at hw
    obtain ⟨rfl, rfl⟩ := hw
    refine ⟨rfl, ?_, ?_⟩
    · simp only [Heap.inodes_set_description, Function.update_self]
      rfl
    · simp only [Heap.descriptions_set_description]
      rfl

/-- **Append mode.** The bytes go to the end of the file, but the shared offset moves on from
where it was, not from the end: `+=` adds the length to the description's offset in both
modes. -/
theorem append_write_offset {h : FileHandle} {heap heap' : Heap} {n : Nat} {buf : List (BitVec 8)}
    (happend : (heap.descriptions h.description).options.append = true)
    (hsize : (heap.inodes h.inode).size < 2 ^ 64) (hw : h.write heap buf = .ok (heap', n)) :
    (heap'.inodes h.inode).data = (heap.inodes h.inode).data ++ buf ∧
      (heap'.descriptions h.description).offset =
        (heap.descriptions h.description).offset + BitVec.ofNat 64 n := by
  obtain ⟨-, hinode, hdesc⟩ := write_eq_ok hw
  -- the end of the file, read as a `u64` and back, is the size
  have hend : (BitVec.ofNat 64 (heap.inodes h.inode).size).toNat = (heap.inodes h.inode).size := by
    rw [BitVec.toNat_ofNat]
    exact Nat.mod_eq_of_lt hsize
  refine ⟨?_, by rw [hdesc]⟩
  rw [hinode, if_pos happend, hend, write_at_size]

/-- A file of three bytes opened for appending, its offset at 0: two bytes written land at
its end, and the offset is then 2, not 5. -/
theorem append_write_offset_from_start :
    ∃ heap' n, (⟨0, 0, "/f", false⟩ : FileHandle).write
        ⟨fun _ => ⟨[1, 2, 3]⟩, fun _ => ⟨0, ⟨false, true, true⟩⟩, 1⟩ [4, 5] = .ok (heap', n) ∧
      (heap'.inodes 0).data = [1, 2, 3, 4, 5] ∧ (heap'.descriptions 0).offset = 2 := by
  obtain ⟨heap', n, hw⟩ : ∃ heap' n, (⟨0, 0, "/f", false⟩ : FileHandle).write
      ⟨fun _ => ⟨[1, 2, 3]⟩, fun _ => ⟨0, ⟨false, true, true⟩⟩, 1⟩ [4, 5] = .ok (heap', n) :=
    ⟨_, _, rfl⟩
  obtain ⟨hdata, hoffset⟩ := append_write_offset rfl (by decide) hw
  obtain ⟨rfl, -, -⟩ := write_eq_ok hw
  exact ⟨heap', 2, hw, hdata, hoffset⟩

end FileHandle

end Queen.Fs
