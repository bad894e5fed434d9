/-
Reads through one open-file description, `FileHandle::read`, `kernel/src/fs/file.rs`,
interleaved step by step.

After `fork` (`files.clone()`) or `sys_dup3`, two `FileHandle`s share one
`OpenFileDescription`, and a thread of each process can be inside `read` at once. `read` takes
the offset and moves it on in two critical sections, with the inode's `read_at` between them:

  1. `self.description.read().offset`: load the offset under the read lock;
  2. `self.read_at(offset, buf)`: read the inode there;
  3. `self.description.write().offset += len`: add what was read, under the write lock.

A `Reader` is one call, at one of these steps (`ReadPc`), and `Readers.step` takes the next
step of one of them, so a run of `Readers` is an interleaving of the calls. Alone, a call's
three steps are `FileHandle::read` (`run_alone`). Together, no addition is lost: in
every state a run reaches, each description's offset is its first offset plus what the
finished calls through it read (`reachable_account`). But nothing keeps a second call from
loading the offset before the first adds to it: when both load first, both read at the same
offset, the same bytes (`shared_reads_overlap`), while the offset still moves on by both
lengths.
-/
import Queen.Fs.File
import Queen.Lib.Transition

set_option autoImplicit false

namespace Queen.Fs

open Queen.Transition

/-- How far a `FileHandle::read` call has got. -/
inductive ReadPc
  /-- Not started. -/
  | start
  /-- The offset loaded under the read lock. -/
  | loaded (offset : Nat)
  /-- `read_at` returned these bytes, read at `offset`. -/
  | read (offset : Nat) (bytes : List (BitVec 8))
  /-- Their number added to the offset: the call returned them. -/
  | done (offset : Nat) (bytes : List (BitVec 8))
  /-- `read_at` failed, and the call returned its error. -/
  | failed (err : FsError)
deriving DecidableEq, Repr

/-- A `read(buf)` call through `handle`, with a `buf` of `len` bytes. -/
structure Reader where
  handle : FileHandle
  len : Nat
  pc : ReadPc
deriving DecidableEq, Repr

/-- The heap of open files and the calls in progress. -/
structure Readers where
  heap : Heap
  readers : List Reader

namespace Reader

/-- The next step of a call: the heap after it, and where the call is. A call that returned
takes no step. -/
def step (r : Reader) (heap : Heap) : Option (Heap × ReadPc) :=
  match r.pc with
  | .start => some (heap, .loaded (heap.descriptions r.handle.description).offset.toNat)
  | .loaded offset =>
    match r.handle.read_at heap offset r.len with
    | .ok bytes => some (heap, .read offset bytes)
    | .error err => some (heap, .failed err)
  | .read offset bytes =>
    let description := heap.descriptions r.handle.description
    some (heap.set_description r.handle.description
      { description with offset := description.offset + BitVec.ofNat 64 bytes.length },
      .done offset bytes)
  | .done .. | .failed _ => none

/-- What a call has added to the offset of description `d`: the number of bytes it read, once
it returned, if its handle is on `d`. -/
def added (d : Nat) (r : Reader) : Usize :=
  match r.pc with
  | .done _ bytes => if r.handle.description = d then BitVec.ofNat 64 bytes.length else 0
  | _ => 0

/-- **One step of a call.** It has added nothing yet; the heap keeps its inodes and every
description's options, and each offset moves on by what the call has added after the step. -/
theorem step_spec {r : Reader} {heap heap' : Heap} {pc : ReadPc} (h : r.step heap = some (heap', pc)) :
    (∀ d, r.added d = 0) ∧ heap'.inodes = heap.inodes ∧
      (∀ d, (heap'.descriptions d).options = (heap.descriptions d).options) ∧
      ∀ d, (heap'.descriptions d).offset = (heap.descriptions d).offset + { r with pc }.added d := by
  obtain ⟨handle, len, rpc⟩ := r
  cases rpc with
  | start =>
    simp only [step, Option.some.injEq, Prod.mk.injEq] at h
    obtain ⟨rfl, rfl⟩ := h
    simp [added]
  | loaded offset =>
    simp only [step] at h
    split at h <;>
    · simp only [Option.some.injEq, Prod.mk.injEq] at h
      obtain ⟨rfl, rfl⟩ := h
      simp [added]
  | read offset bytes =>
    simp only [step, Option.some.injEq, Prod.mk.injEq] at h
    obtain ⟨rfl, rfl⟩ := h
    refine ⟨fun d => rfl, rfl, fun d => ?_, fun d => ?_⟩
    · rw [Heap.descriptions_set_description]
      split <;> simp_all
    · -- only the call's own description moves on
      simp only [Heap.descriptions_set_description, added]
      by_cases hd : d = handle.description
      · simp [hd]
      · simp [hd, Ne.symm hd]
  | done offset bytes => simp [step] at h
  | failed err => simp [step] at h

end Reader

namespace Readers

/-- Call `i` takes its next step. -/
def step (s : Readers) (i : Nat) : Option Readers := do
  let r ← s.readers[i]?
  let (heap, pc) ← r.step s.heap
  pure ⟨heap, s.readers.set i { r with pc }⟩

theorem step_eq_some {s s' : Readers} {i : Nat} (h : s.step i = some s') :
    ∃ r heap pc, s.readers[i]? = some r ∧ r.step s.heap = some (heap, pc) ∧
      s' = ⟨heap, s.readers.set i { r with pc }⟩ := by
  simp only [step, Option.bind_eq_bind, Option.bind_eq_some_iff, Prod.exists, Option.pure_def,
    Option.some.injEq] at h
  obtain ⟨r, hr, heap, pc, hstep, rfl⟩ := h
  exact ⟨r, heap, pc, hr, hstep, rfl⟩

/-- Call `i`'s step, when there is a call `i`. -/
theorem step_of_getElem? {s : Readers} {i : Nat} {r : Reader} (hr : s.readers[i]? = some r) :
    s.step i = (r.step s.heap).map fun t => ⟨t.1, s.readers.set i { r with pc := t.2 }⟩ := by
  simp only [step, hr, Option.bind_eq_bind, Option.bind_some, Option.pure_def]
  cases r.step s.heap <;> rfl

/-- **Alone, a call is `FileHandle::read`.** Three steps of a call not yet started, with no
other call between them, leave the heap `read` leaves and the call done with the bytes `read`
returns, read at the offset it found; when `read_at` fails, two steps leave the heap as it was
and the call failed with `read`'s error. -/
theorem run_alone {s : Readers} {i : Nat} {r : Reader} (hr : s.readers[i]? = some r)
    (hpc : r.pc = .start) :
    let offset := (s.heap.descriptions r.handle.description).offset.toNat
    (∀ heap bytes, r.handle.read s.heap r.len = .ok (heap, bytes) →
      run step s [i, i, i] = some ⟨heap, s.readers.set i { r with pc := .done offset bytes }⟩) ∧
    (∀ err, r.handle.read s.heap r.len = .error err →
      run step s [i, i] = some ⟨s.heap, s.readers.set i { r with pc := .failed err }⟩) := by
  intro offset
  have hi : i < s.readers.length := (List.getElem?_eq_some_iff.mp hr).1
  -- after each step the call is found again at `i`, at its new step
  have hagain : ∀ (heap : Heap) (pc : ReadPc),
      (⟨heap, s.readers.set i { r with pc }⟩ : Readers).readers[i]? = some { r with pc } :=
    fun _ _ => List.getElem?_set_self (by simpa using hi)
  have hstart : s.step i = some ⟨s.heap, s.readers.set i { r with pc := .loaded offset }⟩ := by
    rw [step_of_getElem? hr]
    simp [Reader.step, hpc, offset]
  constructor
  · intro heap bytes hread
    simp only [FileHandle.read, bind, Except.bind] at hread
    split at hread
    · cases hread
    · next bytes₁ hread_at =>
      change r.handle.read_at s.heap offset r.len = _ at hread_at
      simp only [pure, Except.pure, Except.ok.injEq, Prod.mk.injEq] at hread
      obtain ⟨rfl, rfl⟩ := hread
      simp [run_cons, hstart, step_of_getElem? (hagain _ _), Reader.step, hread_at, List.set_set]
  · intro err hread
    simp only [FileHandle.read, bind, Except.bind] at hread
    split at hread
    · next err₁ hread_at =>
      change r.handle.read_at s.heap offset r.len = _ at hread_at
      cases hread
      simp [run_cons, hstart, step_of_getElem? (hagain _ _), Reader.step, hread_at, List.set_set]
    · cases hread

/-! ## The offsets' account -/

/-- Each description's offset is the one it started from plus what the returned calls through
it read; the calls' handles and buffers, the inodes and the open options are as they were. -/
structure Account (s₀ s : Readers) : Prop where
  handles : s.readers.map (fun r => (r.handle, r.len)) = s₀.readers.map (fun r => (r.handle, r.len))
  inodes : s.heap.inodes = s₀.heap.inodes
  options : ∀ d, (s.heap.descriptions d).options = (s₀.heap.descriptions d).options
  offset : ∀ d, (s.heap.descriptions d).offset =
    (s₀.heap.descriptions d).offset + (s.readers.map (Reader.added d)).sum

/-- Calls that have not started have added nothing. -/
theorem account_init {s₀ : Readers} (h0 : ∀ r ∈ s₀.readers, r.pc = .start) : Account s₀ s₀ := by
  refine ⟨rfl, rfl, fun _ => rfl, fun d => ?_⟩
  have hzero : (s₀.readers.map (Reader.added d)).sum = 0 := by
    refine List.sum_eq_zero fun x hx => ?_
    obtain ⟨r, hr, rfl⟩ := List.mem_map.mp hx
    simp [Reader.added, h0 r hr]
  rw [hzero, add_zero]

/-- Setting call `i` to itself at another step keeps the handles and buffers. -/
theorem handles_set {rs : List Reader} {i : Nat} {r : Reader} (hr : rs[i]? = some r) (pc : ReadPc) :
    (rs.set i { r with pc }).map (fun r => (r.handle, r.len)) = rs.map (fun r => (r.handle, r.len)) := by
  obtain ⟨hi, rfl⟩ := List.getElem?_eq_some_iff.mp hr
  apply List.ext_getElem (by simp)
  intro j h₁ h₂
  rw [List.getElem_map, List.getElem_map, List.getElem_set]
  split
  · -- the call set: its handle and buffer are those it had
    next hij =>
    subst hij
    rfl
  · rfl

/-- Setting call `i`, which had added nothing, adds what it has added at its new step. -/
theorem sum_added_set {rs : List Reader} {i d : Nat} {r r' : Reader} (hr : rs[i]? = some r)
    (hzero : r.added d = 0) :
    ((rs.set i r').map (Reader.added d)).sum = (rs.map (Reader.added d)).sum + r'.added d := by
  obtain ⟨hi, rfl⟩ := List.getElem?_eq_some_iff.mp hr
  rw [List.map_set, List.sum_set', dif_pos (by simpa using hi), List.getElem_map, hzero, neg_zero,
    zero_add]

/-- **The account is kept** by every step of every call. -/
theorem Account.step {s₀ s s' : Readers} {i : Nat} (hacc : Account s₀ s) (h : s.step i = some s') :
    Account s₀ s' := by
  obtain ⟨r, heap, pc, hr, hstep, rfl⟩ := step_eq_some h
  obtain ⟨hzero, hinodes, hoptions, hoffset⟩ := Reader.step_spec hstep
  refine ⟨(handles_set hr pc).trans hacc.handles, hinodes.trans hacc.inodes,
    fun d => (hoptions d).trans (hacc.options d), fun d => ?_⟩
  rw [hoffset, hacc.offset, sum_added_set hr (hzero d), add_assoc]

/-- **No addition is lost.** In every state a run of the calls reaches, from calls not yet
started, each description's offset is its first offset plus the numbers of bytes the returned
calls through it read; the inodes are as they were. -/
theorem reachable_account {s₀ s : Readers} (h0 : ∀ r ∈ s₀.readers, r.pc = .start)
    (h : Reachable (· = s₀) (Next step) s) : Account s₀ s := by
  refine Reachable.inv (fun s hs => by rw [hs]; exact account_init h0) (fun s s' hacc hnext => ?_) h
  obtain ⟨i, hi⟩ := hnext
  exact hacc.step hi

/-! ## Two calls that load before either adds -/

/-- **Two calls read the same bytes.** Two handles on one description and one inode (as `dup`
and `fork` make them), readable, and a call through each: when both load the offset before
either adds to it, both read at the offset they found, the same bytes from there on, and the
offset then moves on by both lengths. -/
theorem shared_reads_overlap (heap : Heap) (a b : FileHandle) (la lb : Nat)
    (hdesc : b.description = a.description) (hinode : b.inode = a.inode)
    (hread : (heap.descriptions a.description).options.read = true) :
    let offset := (heap.descriptions a.description).offset
    let file := heap.inodes a.inode
    ∃ s, run step ⟨heap, [⟨a, la, .start⟩, ⟨b, lb, .start⟩]⟩ [0, 1, 0, 1, 0, 1] = some s ∧
      s.readers.map Reader.pc =
        [.done offset.toNat (file.read_at offset.toNat la), .done offset.toNat (file.read_at offset.toNat lb)] ∧
      (s.heap.descriptions a.description).offset =
        offset + BitVec.ofNat 64 (file.read_at offset.toNat la).length +
          BitVec.ofNat 64 (file.read_at offset.toNat lb).length := by
  intro offset file
  -- a read through either handle finds the file at the offset
  have hat : ∀ h : FileHandle, h.description = a.description → h.inode = a.inode → ∀ len,
      h.read_at heap offset.toNat len = .ok (file.read_at offset.toNat len) := by
    intro h hd hi len
    simp [FileHandle.read_at, hd, hi, hread, file]
  -- both calls load the offset before either adds to it, so both read at it
  have hloaded : run step ⟨heap, [⟨a, la, .start⟩, ⟨b, lb, .start⟩]⟩ [0, 1, 0, 1] =
      some ⟨heap, [⟨a, la, .read offset.toNat (file.read_at offset.toNat la)⟩,
        ⟨b, lb, .read offset.toNat (file.read_at offset.toNat lb)⟩]⟩ := by
    simp [run_cons, step_of_getElem?, Reader.step, hdesc, offset, hat a rfl rfl,
      hat b hdesc hinode]
  -- then each adds its own length to the one offset
  rw [show [0, 1, 0, 1, 0, 1] = [0, 1, 0, 1] ++ [0, 1] from rfl, run_append, hloaded,
    Option.bind_some]
  simp [run_cons, step_of_getElem?, Reader.step, hdesc, offset, BitVec.add_assoc]

/-- A file of four bytes opened for reading, and its handle duplicated: both calls read the
four bytes at offset `0`, and the offset ends at `8`, past the end of the file. -/
theorem shared_reads_overlap_four_bytes :
    let heap : Heap := ⟨fun _ => ⟨[1, 2, 3, 4]⟩, fun _ => ⟨0, ⟨true, false, false⟩⟩, 1⟩
    let h : FileHandle := ⟨0, 0, "", false⟩
    ∃ s, run step ⟨heap, [⟨h, 4, .start⟩, ⟨h.dup false, 4, .start⟩]⟩ [0, 1, 0, 1, 0, 1] = some s ∧
      s.readers.map Reader.pc = [.done 0 [1, 2, 3, 4], .done 0 [1, 2, 3, 4]] ∧
      (s.heap.descriptions 0).offset = 8 :=
  shared_reads_overlap _ _ _ 4 4 rfl rfl rfl

end Readers

end Queen.Fs
