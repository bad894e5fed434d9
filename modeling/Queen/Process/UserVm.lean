/-
`Thread::new_user_vm`, `kernel/src/process/thread.rs`: the address space of a new user
program. With it the ELF helpers of `process/structs.rs` (`make_memory_set`,
`append_as_interpreter`, `get_phdr_vaddr`, `to_attr`) and the initial stack of
`process/abi.rs` (`ProcInitInfo::push_at`, `StackWriter`).

The ELF file comes parsed (`xmas_elf` is not in the tree): its type, machine, entry point,
program-header table and program headers, and the bytes of the file, which the `File`
handlers read. The interpreter, when the ELF names one, comes as what looking it up, reading
it and parsing it gave: an ELF and its bytes, or the error message.

`new_user_vm` clears the memory set, maps the segments with `File` handlers, maps the user
stack (a `Delay` area and, above it, four `ByFrame` pages), and writes the initial
information at the top of the stack through the new page table. The kernel writes it with
raw pointers, so each byte goes through `PageTable.translate`: a byte whose page is not
present faults in kernel mode, which is a panic.
-/
import Queen.Memory.UserAccess
import Queen.Memory.Progress

set_option autoImplicit false

namespace Queen.Process

open Queen.Memory

/-! ## Constants -/

/-- `USER_STACK_SIZE` (aarch64): 1 MiB. -/
def USER_STACK_SIZE : Usize := 1 * 1024 * 1024

/-- `USER_STACK_OFFSET` (aarch64): the stack ends at `0x0000_8000_0000_0000`. -/
def USER_STACK_OFFSET : Usize := 0x0000_8000_0000_0000 - USER_STACK_SIZE

/-- `abi::AT_*`, the keys of the auxiliary vector. -/
def AT_PHDR : BitVec 8 := 3
def AT_PHENT : BitVec 8 := 4
def AT_PHNUM : BitVec 8 := 5
def AT_PAGESZ : BitVec 8 := 6
def AT_BASE : BitVec 8 := 7
def AT_ENTRY : BitVec 8 := 9

/-! ## The ELF file -/

/-- `header::Type`, as far as `new_user_vm` tells the kinds apart. -/
inductive ElfType
  | Executable
  | SharedObject
  | Other
deriving DecidableEq, Repr

/-- `header::Machine`, as far as `new_user_vm` tells them apart. -/
inductive ElfMachine
  | AArch64
  | Other
deriving DecidableEq, Repr

/-- `program::Type`; `Other` also stands for a type `get_type` cannot read. -/
inductive SegmentType
  | Load
  | Interp
  | Phdr
  | Other
deriving DecidableEq, Repr

/-- A program header: what the kernel reads of it. -/
structure ProgramHeader where
  type_ : SegmentType
  offset : Usize
  virtual_addr : Usize
  file_size : Usize
  mem_size : Usize
  is_execute : Bool
  is_write : Bool
deriving DecidableEq, Repr

/-- A parsed ELF file: the header fields the kernel reads and the program headers. -/
structure ElfFile where
  type_ : ElfType
  machine : ElfMachine
  entry_point : Usize
  ph_offset : Usize
  ph_entry_size : Usize
  program_headers : List ProgramHeader
deriving DecidableEq, Repr

/-- `Flags::to_attr`: user memory, executable if the segment is, read-only unless it is
writable. -/
def ProgramHeader.to_attr (ph : ProgramHeader) : MemoryAttr :=
  let flags := (default : MemoryAttr).set_user
  let flags := if ph.is_execute then flags.set_execute else flags
  if !ph.is_write then flags.set_readonly else flags

namespace ElfFile

/-- `make_memory_set`: a `File` area for each loadable segment, and the page after the
farthest one, where the interpreter goes. -/
def make_memory_set (elf : ElfFile) (file : List (BitVec 8)) (m : Machine) (ms : MemorySet) :
    Option (Machine × MemorySet × Usize) := do
  let (m, ms, farthest_memory) ← elf.program_headers.foldlM
    (fun (m, ms, farthest_memory) ph =>
      if ph.type_ ≠ .Load then some (m, ms, farthest_memory)
      else do
        let (m, ms) ← ms.push m ph.virtual_addr (ph.virtual_addr + ph.mem_size) ph.to_attr
          (.file file ph.virtual_addr ph.offset (ph.offset + ph.file_size))
        let segment_end := ph.virtual_addr + ph.mem_size
        some (m, ms, if segment_end > farthest_memory then segment_end else farthest_memory))
    (m, ms, 0)
  some (m, ms, (Page.of_addr (farthest_memory + PAGE_SIZE)).start_address)

/-- `append_as_interpreter`: a `File` area for each loadable segment, moved up by `bias`. -/
def append_as_interpreter (elf : ElfFile) (file : List (BitVec 8)) (m : Machine)
    (ms : MemorySet) (bias : Usize) : Option (Machine × MemorySet) :=
  elf.program_headers.foldlM
    (fun (m, ms) ph =>
      if ph.type_ ≠ .Load then some (m, ms)
      else
        ms.push m (ph.virtual_addr + bias) (ph.virtual_addr + ph.mem_size + bias) ph.to_attr
          (.file file (ph.virtual_addr + bias) ph.offset (ph.offset + ph.file_size)))
    (m, ms)

/-- `get_phdr_vaddr`: the `Phdr` segment's address, or the table's place in a segment loaded
from the start of the file. -/
def get_phdr_vaddr (elf : ElfFile) : Option Usize :=
  match elf.program_headers.find? (fun ph => ph.type_ = .Phdr) with
  | some phdr => some phdr.virtual_addr
  | none =>
    match elf.program_headers.find? (fun ph => ph.type_ = .Load ∧ ph.offset = 0) with
    | some ph => some (ph.virtual_addr + elf.ph_offset)
    | none => none

end ElfFile

/-! ## The initial stack -/

/-- `BTreeMap::insert` on a map kept as a list in key order. -/
def auxv_insert : List (BitVec 8 × Usize) → BitVec 8 → Usize → List (BitVec 8 × Usize)
  | [], k, v => [(k, v)]
  | (k', v') :: rest, k, v =>
    if k = k' then (k, v) :: rest
    else if k < k' then (k, v) :: (k', v') :: rest
    else (k', v') :: auxv_insert rest k v

/-- `ProcInitInfo`: the strings are their bytes. -/
structure ProcInitInfo where
  args : List (List (BitVec 8))
  envs : List (List (BitVec 8))
  auxv : List (BitVec 8 × Usize)

/-- The little-endian bytes of a `usize`. -/
def usize_bytes (v : Usize) : List (BitVec 8) :=
  (List.range 8).map fun k => v.extractLsb' (8 * k) 8

/-- `StackWriter`. -/
structure StackWriter where
  sp : Usize

namespace StackWriter

/-- `push_slice`: move `sp` down by the slice's size, then down to its alignment, and write the
slice there. -/
def push_slice (w : StackWriter) (pt : PageTable) (mem : PhysMem) (len size align : Usize)
    (data : List (BitVec 8)) : Option (StackWriter × PhysMem) :=
  let sp := w.sp - len * size
  let sp := sp - sp % align
  (pt.write_bytes mem sp data).map fun mem => (⟨sp⟩, mem)

/-- `push_slice` of bytes. -/
def push_bytes (w : StackWriter) (pt : PageTable) (mem : PhysMem) (bytes : List (BitVec 8)) :
    Option (StackWriter × PhysMem) :=
  w.push_slice pt mem (BitVec.ofNat 64 bytes.length) 1 1 bytes

/-- `push_slice` of words. -/
def push_usizes (w : StackWriter) (pt : PageTable) (mem : PhysMem) (vs : List Usize) :
    Option (StackWriter × PhysMem) :=
  w.push_slice pt mem (BitVec.ofNat 64 vs.length) 8 8 (vs.flatMap usize_bytes)

/-- `push_str`: the terminating zero, then the bytes above it. -/
def push_str (w : StackWriter) (pt : PageTable) (mem : PhysMem) (s : List (BitVec 8)) :
    Option (StackWriter × PhysMem) := do
  let (w, mem) ← w.push_bytes pt mem [0]
  w.push_bytes pt mem s

/-- The `map` over strings in `push_at`: push each, and collect where each starts. -/
def push_strs (w : StackWriter) (pt : PageTable) (mem : PhysMem) (ss : List (List (BitVec 8))) :
    Option (StackWriter × PhysMem × List Usize) :=
  ss.foldlM
    (fun (w, mem, sps) s => do
      let (w, mem) ← w.push_str pt mem s
      some (w, mem, sps ++ [w.sp]))
    (w, mem, [])

/-- The loop over the auxiliary vector in `push_at`: each entry as two words. -/
def push_auxv (w : StackWriter) (pt : PageTable) (mem : PhysMem) (auxv : List (BitVec 8 × Usize)) :
    Option (StackWriter × PhysMem) :=
  auxv.foldlM
    (fun (w, mem) (type_, value) => w.push_usizes pt mem [type_.setWidth 64, value]) (w, mem)

end StackWriter

/-- `ProcInitInfo::push_at(stack_top)`: the program name, the environment and argument
strings, the auxiliary vector, the environment and argument pointers and the argument count,
from the top down; the new stack pointer. `args[0]` panics when there are no arguments. -/
def ProcInitInfo.push_at (info : ProcInitInfo) (pt : PageTable) (mem : PhysMem)
    (stack_top : Usize) : Option (Usize × PhysMem) := do
  let w : StackWriter := ⟨stack_top⟩
  let name ← info.args.head?
  let (w, mem) ← w.push_str pt mem name
  let (w, mem, envs) ← w.push_strs pt mem info.envs
  let (w, mem, argv) ← w.push_strs pt mem info.args
  let (w, mem) ← w.push_usizes pt mem [0, 0]
  let (w, mem) ← w.push_auxv pt mem info.auxv
  let (w, mem) ← w.push_usizes pt mem [0]
  let (w, mem) ← w.push_usizes pt mem envs
  let (w, mem) ← w.push_usizes pt mem [0]
  let (w, mem) ← w.push_usizes pt mem argv
  let (w, mem) ← w.push_usizes pt mem [BitVec.ofNat 64 argv.length]
  some (w.sp, mem)

/-! ## The initial stack fits the pages it is written to

Each write of `push_at` moves `sp` down by its size and at most `align - 1` bytes of padding,
and goes through when every byte it touches is writable. So `push_at` succeeds when the
writable range below `stack_top` has room for `stack_bytes`, the sum of those bounds. -/

/-- The bytes the strings take on the stack, each with its terminating zero. -/
def strs_size (ss : List (List (BitVec 8))) : Nat := (ss.map fun s => s.length + 1).sum

/-- The most bytes `push_at` takes below the top: the strings with their zeros, and each array
of words with the padding its alignment may add. -/
def ProcInitInfo.stack_bytes (info : ProcInitInfo) : Nat :=
  ((info.args.head?.map List.length).getD 0 + 1) + strs_size info.envs + strs_size info.args +
    23 + 23 * info.auxv.length + 15 + (8 * info.envs.length + 7) + 15 +
    (8 * info.args.length + 7) + 15

theorem length_flatMap_usize_bytes (vs : List Usize) : (vs.flatMap usize_bytes).length = 8 * vs.length := by
  simp [List.length_flatMap, usize_bytes, Nat.mul_comm]

namespace StackWriter

variable {pt : PageTable} {lo hi : Nat}

/-- The pointer `push_slice` moves to, when neither move wraps: down by the size, then down to
the alignment. -/
theorem push_slice_sp_toNat (sp size align : Usize) (hsize : size.toNat ≤ sp.toNat) :
    (sp - size - (sp - size) % align).toNat =
      sp.toNat - size.toNat - (sp.toNat - size.toNat) % align.toNat := by
  have h₁ : (sp - size).toNat = sp.toNat - size.toNat := Usize.toNat_sub_of_le (BitVec.le_def.mpr hsize)
  have hmod : ((sp - size) % align).toNat = (sp - size).toNat % align.toNat := BitVec.toNat_umod
  have hle : (sp - size).toNat % align.toNat ≤ (sp - size).toNat := Nat.mod_le _ _
  rw [Usize.toNat_sub_of_le (BitVec.le_def.mpr (by omega)), hmod, h₁]

/-- The size `push_bytes` passes, `len * 1`, does not wrap. -/
theorem bytes_size_toNat (n : Nat) (h : n < 2 ^ 64) : (BitVec.ofNat 64 n * 1).toNat = n := by
  rw [BitVec.toNat_mul, BitVec.toNat_ofNat, Usize.toNat_one]
  omega

/-- The size `push_usizes` passes, `len * 8`, does not wrap for an array that fits in memory. -/
theorem usizes_size_toNat (n : Nat) (h : 8 * n < 2 ^ 64) :
    (BitVec.ofNat 64 n * 8).toNat = 8 * n := by
  have h8 : (8 : Usize).toNat = 8 := rfl
  rw [BitVec.toNat_mul, BitVec.toNat_ofNat, h8, Nat.mod_eq_of_lt (by omega : n < 2 ^ 64)]
  omega

/-- `push_slice` into a writable range goes through when the slice and its padding fit
between `lo` and `sp`, and moves `sp` down by at most that much. -/
theorem push_slice_exists (hw : pt.Writable lo hi) (hhi : hi ≤ 2 ^ 64) (w : StackWriter)
    (mem : PhysMem) (len size align : Usize) (data : List (BitVec 8))
    (hdata : data.length = (len * size).toNat) (halign : 0 < align.toNat)
    (hlo : lo + (len * size).toNat + (align.toNat - 1) ≤ w.sp.toNat) (hsp : w.sp.toNat ≤ hi) :
    ∃ w' mem', w.push_slice pt mem len size align data = some (w', mem') ∧
      w'.sp.toNat ≤ w.sp.toNat ∧
      w.sp.toNat ≤ w'.sp.toNat + (len * size).toNat + (align.toNat - 1) := by
  -- neither move of `sp` wraps
  have hsp' := push_slice_sp_toNat w.sp (len * size) align (by omega)
  have hlt : (w.sp.toNat - (len * size).toNat) % align.toNat < align.toNat := Nat.mod_lt _ halign
  have hle : (w.sp.toNat - (len * size).toNat) % align.toNat ≤ w.sp.toNat - (len * size).toNat :=
    Nat.mod_le _ _
  obtain ⟨mem', hmem'⟩ := Option.isSome_iff_exists.mp
    (hw.write_bytes_isSome hhi mem (w.sp - len * size - (w.sp - len * size) % align) data
      (by omega) (by omega))
  refine ⟨⟨w.sp - len * size - (w.sp - len * size) % align⟩, mem', ?_, by dsimp only; omega,
    by dsimp only; omega⟩
  simp only [push_slice, hmem', Option.map_some]

theorem push_bytes_exists (hw : pt.Writable lo hi) (hhi : hi ≤ 2 ^ 64) (w : StackWriter)
    (mem : PhysMem) (bytes : List (BitVec 8)) (hlo : lo + bytes.length ≤ w.sp.toNat)
    (hsp : w.sp.toNat ≤ hi) :
    ∃ w' mem', w.push_bytes pt mem bytes = some (w', mem') ∧ w'.sp.toNat ≤ w.sp.toNat ∧
      w.sp.toNat ≤ w'.sp.toNat + bytes.length := by
  -- the length is below `sp`, so `len * 1` does not wrap
  have hlen := bytes_size_toNat bytes.length (by have := w.sp.isLt; omega)
  obtain ⟨w', mem', h, hle, hge⟩ := push_slice_exists hw hhi w mem _ 1 1 bytes hlen.symm
    (by rw [Usize.toNat_one]; omega) (by rw [hlen, Usize.toNat_one]; omega) hsp
  rw [hlen, Usize.toNat_one] at hge
  exact ⟨w', mem', h, hle, by omega⟩

theorem push_usizes_exists (hw : pt.Writable lo hi) (hhi : hi ≤ 2 ^ 64) (w : StackWriter)
    (mem : PhysMem) (vs : List Usize) (hlo : lo + (8 * vs.length + 7) ≤ w.sp.toNat)
    (hsp : w.sp.toNat ≤ hi) :
    ∃ w' mem', w.push_usizes pt mem vs = some (w', mem') ∧ w'.sp.toNat ≤ w.sp.toNat ∧
      w.sp.toNat ≤ w'.sp.toNat + (8 * vs.length + 7) := by
  have h8 : (8 : Usize).toNat = 8 := rfl
  -- the size in bytes is below `sp`, so `len * 8` does not wrap
  have hlen := usizes_size_toNat vs.length (by have := w.sp.isLt; omega)
  obtain ⟨w', mem', h, hle, hge⟩ := push_slice_exists hw hhi w mem _ 8 8 (vs.flatMap usize_bytes)
    (by rw [hlen, length_flatMap_usize_bytes]) (by rw [h8]; omega) (by rw [hlen, h8]; omega) hsp
  rw [hlen, h8] at hge
  exact ⟨w', mem', h, hle, by omega⟩

theorem push_str_exists (hw : pt.Writable lo hi) (hhi : hi ≤ 2 ^ 64) (w : StackWriter)
    (mem : PhysMem) (s : List (BitVec 8)) (hlo : lo + (s.length + 1) ≤ w.sp.toNat)
    (hsp : w.sp.toNat ≤ hi) :
    ∃ w' mem', w.push_str pt mem s = some (w', mem') ∧ w'.sp.toNat ≤ w.sp.toNat ∧
      w.sp.toNat ≤ w'.sp.toNat + (s.length + 1) := by
  obtain ⟨w₁, mem₁, h₁, hle₁, hge₁⟩ := push_bytes_exists hw hhi w mem [0] (by simp; omega) hsp
  rw [List.length_singleton] at hge₁
  obtain ⟨w₂, mem₂, h₂, hle₂, hge₂⟩ := push_bytes_exists hw hhi w₁ mem₁ s (by omega) (by omega)
  refine ⟨w₂, mem₂, ?_, by omega, by omega⟩
  simp only [push_str, h₁, h₂, Option.bind_eq_bind, Option.bind_some]

/-- The strings one after another, each taking its length and its zero of the room. -/
theorem push_strs_exists (hw : pt.Writable lo hi) (hhi : hi ≤ 2 ^ 64) (w : StackWriter)
    (mem : PhysMem) (ss : List (List (BitVec 8))) (hlo : lo + strs_size ss ≤ w.sp.toNat)
    (hsp : w.sp.toNat ≤ hi) :
    ∃ w' mem' sps, w.push_strs pt mem ss = some (w', mem', sps) ∧ sps.length = ss.length ∧
      w'.sp.toNat ≤ w.sp.toNat ∧ w.sp.toNat ≤ w'.sp.toNat + strs_size ss := by
  -- the invariant: the strings done took at most their size, and left one pointer each
  have hex : ∃ t, w.push_strs pt mem ss = some t ∧ t.1.sp.toNat ≤ w.sp.toNat ∧
      w.sp.toNat ≤ t.1.sp.toNat + strs_size ss ∧ t.2.2.length = ss.length :=
    Fold.foldlM_exists _
      (fun done (t : StackWriter × PhysMem × List Usize) => t.1.sp.toNat ≤ w.sp.toNat ∧
        w.sp.toNat ≤ t.1.sp.toNat + strs_size done ∧ t.2.2.length = done.length)
      (fun done x rest t hl ht => by
        obtain ⟨w₁, mem₁, sps₁⟩ := t
        obtain ⟨hle, hge, hlen⟩ := ht
        dsimp only at hle hge hlen
        have hsize : strs_size ss = strs_size done + (x.length + 1) + strs_size rest := by
          rw [← hl]
          simp only [strs_size, List.map_append, List.sum_append, List.map_cons, List.sum_cons]
          omega
        obtain ⟨w₂, mem₂, h, hle₂, hge₂⟩ := push_str_exists hw hhi w₁ mem₁ x (by omega) (by omega)
        refine ⟨(w₂, mem₂, sps₁ ++ [w₂.sp]), by simp only [h, Option.bind_eq_bind, Option.bind_some],
          ?_, ?_, by simp [hlen]⟩
        · dsimp only
          omega
        · simp only [strs_size, List.map_append, List.sum_append, List.map_cons, List.map_nil,
            List.sum_cons, List.sum_nil] at hge ⊢
          omega)
      ⟨le_refl _, by simp [strs_size], rfl⟩
  obtain ⟨⟨w', mem', sps⟩, h, hle, hge, hlen⟩ := hex
  exact ⟨w', mem', sps, h, hlen, hle, hge⟩

/-- The auxiliary vector, 16 bytes and up to 7 of padding an entry. -/
theorem push_auxv_exists (hw : pt.Writable lo hi) (hhi : hi ≤ 2 ^ 64) (w : StackWriter)
    (mem : PhysMem) (auxv : List (BitVec 8 × Usize)) (hlo : lo + 23 * auxv.length ≤ w.sp.toNat)
    (hsp : w.sp.toNat ≤ hi) :
    ∃ w' mem', w.push_auxv pt mem auxv = some (w', mem') ∧ w'.sp.toNat ≤ w.sp.toNat ∧
      w.sp.toNat ≤ w'.sp.toNat + 23 * auxv.length := by
  have hex : ∃ t, w.push_auxv pt mem auxv = some t ∧ t.1.sp.toNat ≤ w.sp.toNat ∧
      w.sp.toNat ≤ t.1.sp.toNat + 23 * auxv.length :=
    Fold.foldlM_exists _
      (fun done (t : StackWriter × PhysMem) => t.1.sp.toNat ≤ w.sp.toNat ∧
        w.sp.toNat ≤ t.1.sp.toNat + 23 * done.length)
      (fun done x rest t hl ht => by
        obtain ⟨w₁, mem₁⟩ := t
        obtain ⟨type_, value⟩ := x
        obtain ⟨hle, hge⟩ := ht
        dsimp only at hle hge
        have hlen : auxv.length = done.length + 1 + rest.length := by
          rw [← hl]
          simp only [List.length_append, List.length_cons]
          omega
        obtain ⟨w₂, mem₂, h, hle₂, hge₂⟩ :=
          push_usizes_exists hw hhi w₁ mem₁ [type_.setWidth 64, value] (by simp; omega) (by omega)
        simp only [List.length_cons, List.length_nil] at hge₂
        refine ⟨(w₂, mem₂), h, ?_, ?_⟩
        · dsimp only
          omega
        · rw [List.length_append, List.length_singleton]
          dsimp only
          omega)
      ⟨le_refl _, by simp⟩
  obtain ⟨⟨w', mem'⟩, h, hle, hge⟩ := hex
  exact ⟨w', mem', h, hle, hge⟩

end StackWriter

/-- **`push_at` goes through** when the writable range below the top has room for
`stack_bytes`, and there is a program name. -/
theorem ProcInitInfo.push_at_exists {pt : PageTable} {lo hi : Nat} (info : ProcInitInfo)
    (hw : pt.Writable lo hi) (hhi : hi ≤ 2 ^ 64) (mem : PhysMem) (stack_top : Usize)
    (hargs : info.args ≠ []) (hlo : lo + info.stack_bytes ≤ stack_top.toNat)
    (htop : stack_top.toNat ≤ hi) :
    ∃ sp mem', info.push_at pt mem stack_top = some (sp, mem') ∧ lo ≤ sp.toNat ∧
      sp.toNat ≤ stack_top.toNat := by
  obtain ⟨args, envs, auxv⟩ := info
  obtain ⟨name, rest, rfl⟩ := List.exists_cons_of_ne_nil hargs
  simp only [stack_bytes, List.head?_cons, Option.map_some, Option.getD_some] at hlo
  -- each write takes no more than its share of the room
  obtain ⟨w₁, mem₁, h₁, hle₁, hge₁⟩ :=
    StackWriter.push_str_exists hw hhi ⟨stack_top⟩ mem name (by dsimp only; omega) htop
  dsimp only at hle₁ hge₁
  obtain ⟨w₂, mem₂, envp, h₂, hlen₂, hle₂, hge₂⟩ :=
    StackWriter.push_strs_exists hw hhi w₁ mem₁ envs (by omega) (by omega)
  obtain ⟨w₃, mem₃, argv, h₃, hlen₃, hle₃, hge₃⟩ :=
    StackWriter.push_strs_exists hw hhi w₂ mem₂ (name :: rest) (by omega) (by omega)
  obtain ⟨w₄, mem₄, h₄, hle₄, hge₄⟩ :=
    StackWriter.push_usizes_exists hw hhi w₃ mem₃ [0, 0] (by simp; omega) (by omega)
  simp only [List.length_cons, List.length_nil] at hge₄
  obtain ⟨w₅, mem₅, h₅, hle₅, hge₅⟩ :=
    StackWriter.push_auxv_exists hw hhi w₄ mem₄ auxv (by omega) (by omega)
  obtain ⟨w₆, mem₆, h₆, hle₆, hge₆⟩ :=
    StackWriter.push_usizes_exists hw hhi w₅ mem₅ [0] (by simp; omega) (by omega)
  simp only [List.length_cons, List.length_nil] at hge₆
  obtain ⟨w₇, mem₇, h₇, hle₇, hge₇⟩ :=
    StackWriter.push_usizes_exists hw hhi w₆ mem₆ envp (by rw [hlen₂]; omega) (by omega)
  rw [hlen₂] at hge₇
  obtain ⟨w₈, mem₈, h₈, hle₈, hge₈⟩ :=
    StackWriter.push_usizes_exists hw hhi w₇ mem₇ [0] (by simp; omega) (by omega)
  simp only [List.length_cons, List.length_nil] at hge₈
  obtain ⟨w₉, mem₉, h₉, hle₉, hge₉⟩ :=
    StackWriter.push_usizes_exists hw hhi w₈ mem₈ argv (by rw [hlen₃]; omega) (by omega)
  rw [hlen₃] at hge₉
  obtain ⟨w₁₀, mem₁₀, h₁₀, hle₁₀, hge₁₀⟩ :=
    StackWriter.push_usizes_exists hw hhi w₉ mem₉ [BitVec.ofNat 64 argv.length] (by simp; omega)
      (by omega)
  simp only [List.length_cons, List.length_nil] at hge₁₀
  refine ⟨w₁₀.sp, mem₁₀, ?_, by omega, by omega⟩
  simp only [push_at, List.head?_cons, Option.bind_eq_bind, Option.bind_some, h₁, h₂, h₃, h₄, h₅,
    h₆, h₇, h₈, h₉, h₁₀]

/-! ## `new_user_vm` -/

/-- `MemoryAttr::default().user().execute()`, the user stack's attributes. -/
def stack_attr : MemoryAttr := (default : MemoryAttr).set_user.set_execute

/-- The user stack of `new_user_vm` and the initial information on it: the stack but its top
four pages mapped lazily, the top four eagerly, since the information is written at once. -/
def push_user_stack (m : Machine) (vm : MemorySet) (info : ProcInitInfo) (entry_addr : Usize) :
    Option (Machine × MemorySet × Except String (Usize × Usize)) := do
  let ustack_buttom := USER_STACK_OFFSET
  let ustack_top := USER_STACK_OFFSET + USER_STACK_SIZE
  let (m, vm) ← vm.push m ustack_buttom (ustack_top - PAGE_SIZE * 4) stack_attr .delay
  let (m, vm) ← vm.push m (ustack_top - PAGE_SIZE * 4) ustack_top stack_attr .byFrame
  let (ustack_top, mem) ← info.push_at vm.page_table m.mem ustack_top
  some ({ m with mem }, vm, .ok (entry_addr, ustack_top))

/-- `Thread::new_user_vm(inode, args, envs, vm)`: the machine and memory set after it, and
the entry address and stack pointer or the error; `none` is a panic. -/
def new_user_vm (elf : ElfFile) (file : List (BitVec 8))
    (interp : Option (Except String (ElfFile × List (BitVec 8))))
    (args envs : List (List (BitVec 8))) (m : Machine) (vm : MemorySet) :
    Option (Machine × MemorySet × Except String (Usize × Usize)) :=
  if elf.type_ = .Other then some (m, vm, .error "ELF is not executable or shared object")
  else if elf.machine ≠ .AArch64 then some (m, vm, .error "invalid ELF arch")
  else do
    let auxv := match elf.get_phdr_vaddr with
      | some phdr_vaddr => auxv_insert [] AT_PHDR phdr_vaddr
      | none => []
    let auxv := auxv_insert auxv AT_PHENT elf.ph_entry_size
    let auxv := auxv_insert auxv AT_PHNUM (BitVec.ofNat 64 elf.program_headers.length)
    let auxv := auxv_insert auxv AT_PAGESZ PAGE_SIZE
    let (m, vm) ← vm.clear m
    let (m, vm, bias) ← elf.make_memory_set file m vm
    match interp with
    | none => push_user_stack m vm ⟨args, envs, auxv⟩ elf.entry_point
    | some (.error e) => some (m, vm, .error e)
    | some (.ok (elf_interp, interp_file)) => do
      let (m, vm) ← elf_interp.append_as_interpreter interp_file m vm bias
      let auxv := auxv_insert (auxv_insert auxv AT_ENTRY elf.entry_point) AT_BASE bias
      push_user_stack m vm ⟨args, envs, auxv⟩ (elf_interp.entry_point + bias)

/-! ## What `new_user_vm` leaves

The segments are pushed as `File` areas, and the stack as a `Delay` area with four `ByFrame`
pages above it; every push keeps the invariant (`MemorySet.inv_push`). The `Delay` part
passes the checks of the system calls, being an area that is not read-only, but `Delay::map`
left its pages absent and nothing touches them before the program runs. -/

theorem USER_STACK_OFFSET_toNat : USER_STACK_OFFSET.toNat = 2 ^ 47 - 2 ^ 20 := by decide

theorem ustack_top_toNat : (USER_STACK_OFFSET + USER_STACK_SIZE).toNat = 2 ^ 47 := by decide

theorem ustack_frames_toNat :
    (USER_STACK_OFFSET + USER_STACK_SIZE - PAGE_SIZE * 4).toNat = 2 ^ 47 - 4 * 4096 := by decide

namespace ElfFile

variable {elf : ElfFile} {file : List (BitVec 8)} {m m' : Machine} {vm vm' : MemorySet}

theorem inv_make_memory_set {bias : Usize} (hinv : vm.Inv)
    (h : elf.make_memory_set file m vm = some (m', vm', bias)) : vm'.Inv := by
  simp only [make_memory_set, Option.bind_eq_bind, Option.bind_eq_some_iff, Option.some.injEq,
    Prod.mk.injEq] at h
  obtain ⟨⟨m₁, vm₁, farthest⟩, hfold, -, rfl, -⟩ := h
  refine Fold.foldlM_inv _ (fun _ (t : Machine × MemorySet × Usize) => t.2.1.Inv) ?_ hinv hfold
  intro done ph rest t t' _ ht hstep
  obtain ⟨m₀, vm₀, farthest₀⟩ := t
  dsimp only at ht hstep
  split at hstep
  · -- a segment that is not loaded
    cases hstep
    exact ht
  · simp only [Option.bind_eq_some_iff, Option.some.injEq] at hstep
    obtain ⟨⟨m₁, vm₁⟩, hpush, rfl⟩ := hstep
    exact MemorySet.inv_push ht hpush

theorem inv_append_as_interpreter {bias : Usize} (hinv : vm.Inv)
    (h : elf.append_as_interpreter file m vm bias = some (m', vm')) : vm'.Inv := by
  refine Fold.foldlM_inv _ (fun _ (t : Machine × MemorySet) => t.2.Inv) ?_ hinv h
  intro done ph rest t t' _ ht hstep
  obtain ⟨m₀, vm₀⟩ := t
  dsimp only at ht hstep
  split at hstep
  · cases hstep
    exact ht
  · exact MemorySet.inv_push ht hstep

end ElfFile

/-- A run of `new_user_vm` that sets a program up ends with `push_user_stack`, on a memory set
that keeps the invariant when the one it started from did. -/
theorem new_user_vm_ok {elf : ElfFile} {file : List (BitVec 8)}
    {interp : Option (Except String (ElfFile × List (BitVec 8)))} {args envs : List (List (BitVec 8))}
    {m m' : Machine} {vm vm' : MemorySet} {r : Usize × Usize} (hinv : vm.Inv)
    (h : new_user_vm elf file interp args envs m vm = some (m', vm', .ok r)) :
    ∃ m₁ vm₁ info entry_addr, vm₁.Inv ∧ push_user_stack m₁ vm₁ info entry_addr = some (m', vm', .ok r) := by
  unfold new_user_vm at h
  split_ifs at h
  · -- not an executable or shared object: an error
    cases h
  · -- another architecture: an error
    cases h
  simp only [Option.bind_eq_bind, Option.bind_eq_some_iff] at h
  obtain ⟨⟨m₁, vm₁⟩, hclear, ⟨m₂, vm₂, bias⟩, hmake, h⟩ := h
  have hinv₂ := ElfFile.inv_make_memory_set (MemorySet.inv_clear hinv hclear) hmake
  -- the interpreter: none, one that failed to load, or one appended above the program
  split at h
  · exact ⟨_, _, _, _, hinv₂, h⟩
  · cases h
  · simp only [Option.bind_eq_some_iff] at h
    obtain ⟨⟨m₃, vm₃⟩, happend, h⟩ := h
    exact ⟨_, _, _, _, ElfFile.inv_append_as_interpreter hinv₂ happend, h⟩

/-- Without an interpreter, an AArch64 executable is set up by `push_user_stack` on what
`clear` and `make_memory_set` leave, with the auxiliary vector `new_user_vm` builds. -/
theorem new_user_vm_no_interp {elf : ElfFile} {file : List (BitVec 8)}
    {args envs : List (List (BitVec 8))} {m m₁ m₂ : Machine} {vm vm₁ vm₂ : MemorySet}
    {bias : Usize} (htype : elf.type_ ≠ .Other) (hmachine : elf.machine = .AArch64)
    (hclear : vm.clear m = some (m₁, vm₁))
    (hmake : elf.make_memory_set file m₁ vm₁ = some (m₂, vm₂, bias)) :
    new_user_vm elf file none args envs m vm =
      push_user_stack m₂ vm₂ ⟨args, envs,
        auxv_insert (auxv_insert (auxv_insert (match elf.get_phdr_vaddr with
          | some phdr_vaddr => auxv_insert [] AT_PHDR phdr_vaddr
          | none => []) AT_PHENT elf.ph_entry_size) AT_PHNUM
            (BitVec.ofNat 64 elf.program_headers.length)) AT_PAGESZ PAGE_SIZE⟩
        elf.entry_point := by
  unfold new_user_vm
  rw [if_neg htype, if_neg (not_not.mpr hmachine)]
  simp only [Option.bind_eq_bind, hclear, Option.bind_some, hmake]

/-- What `push_user_stack` leaves: the invariant, and the lazily mapped part of the stack
among the areas with every page of it absent. -/
theorem push_user_stack_spec {m m' : Machine} {vm vm' : MemorySet} {info : ProcInitInfo}
    {entry_addr : Usize} {res : Except String (Usize × Usize)} (hinv : vm.Inv)
    (h : push_user_stack m vm info entry_addr = some (m', vm', res)) :
    vm'.Inv ∧
      (⟨USER_STACK_OFFSET, USER_STACK_OFFSET + USER_STACK_SIZE - PAGE_SIZE * 4, stack_attr, .delay⟩ :
        MemoryArea) ∈ vm'.areas ∧
      ∀ n, (⟨USER_STACK_OFFSET, USER_STACK_OFFSET + USER_STACK_SIZE - PAGE_SIZE * 4, stack_attr,
          .delay⟩ : MemoryArea).HasPage n →
        ∃ e, vm'.page_table.lookup n = some e ∧ e.present = false := by
  simp only [push_user_stack, Option.bind_eq_bind, Option.bind_eq_some_iff, Option.some.injEq,
    Prod.mk.injEq] at h
  obtain ⟨⟨m₁, vm₁⟩, h₁, ⟨m₂, vm₂⟩, h₂, ⟨sp, mem⟩, -, -, rfl, -⟩ := h
  have hoff := USER_STACK_OFFSET_toNat
  have hmid := ustack_frames_toNat
  have htop := ustack_top_toNat
  have hdelay : (⟨USER_STACK_OFFSET, USER_STACK_OFFSET + USER_STACK_SIZE - PAGE_SIZE * 4, stack_attr,
      .delay⟩ : MemoryArea).WF := ⟨by dsimp only; omega, by dsimp only; omega, by dsimp only; omega⟩
  have hframes : (⟨USER_STACK_OFFSET + USER_STACK_SIZE - PAGE_SIZE * 4, USER_STACK_OFFSET + USER_STACK_SIZE,
      stack_attr, .byFrame⟩ : MemoryArea).WF := ⟨by dsimp only; omega, by dsimp only; omega, by dsimp only; omega⟩
  obtain ⟨hmem₁, hmap₁⟩ := MemorySet.push_aligned_spec hdelay.start_aligned hdelay.end_aligned hdelay.lt h₁
  obtain ⟨hmem₂, hmap₂⟩ := MemorySet.push_aligned_spec hframes.start_aligned hframes.end_aligned hframes.lt h₂
  refine ⟨MemorySet.inv_push (MemorySet.inv_push hinv h₁) h₂, (hmem₂ _).mpr (Or.inr ((hmem₁ _).mpr (Or.inl rfl))),
    fun n hn => ?_⟩
  -- the `ByFrame` pages lie above the page, so their `map` left it as `Delay::map` did
  have hnot : ¬ (⟨USER_STACK_OFFSET + USER_STACK_SIZE - PAGE_SIZE * 4, USER_STACK_OFFSET + USER_STACK_SIZE,
      stack_attr, .byFrame⟩ : MemoryArea).HasPage n := by
    unfold MemoryArea.HasPage at hn ⊢
    dsimp only at hn ⊢
    omega
  rw [(MemoryArea.map_spec _ hframes hmap₂).2.2 n hnot]
  exact MemoryArea.map_absent _ hdelay (Or.inl rfl) hmap₁ n hn

/-- `push_user_stack` goes through on a memory set keeping the invariant with no area in the
user stack, with four free frames, a program name, and initial information that fits the four
eagerly mapped pages. -/
theorem push_user_stack_exists (m : Machine) (vm : MemorySet) (info : ProcInitInfo)
    (entry_addr : Usize) (hinv : vm.Inv)
    (hfree : ∀ a ∈ vm.areas, a.end_addr.toNat ≤ USER_STACK_OFFSET.toNat ∨
      (USER_STACK_OFFSET + USER_STACK_SIZE).toNat ≤ a.start_addr.toNat)
    (hframes : 4 ≤ m.frames.free.length) (hargs : info.args ≠ [])
    (hsize : info.stack_bytes ≤ 4 * 4096) :
    ∃ m' vm' sp, push_user_stack m vm info entry_addr = some (m', vm', .ok (entry_addr, sp)) := by
  have hoff := USER_STACK_OFFSET_toNat
  have hmid := ustack_frames_toNat
  have htop := ustack_top_toNat
  -- the `Delay` part: no area meets it
  obtain ⟨m₁, vm₁, h₁, hm₁, -⟩ : ∃ m₁ vm₁, vm.push m USER_STACK_OFFSET
      (USER_STACK_OFFSET + USER_STACK_SIZE - PAGE_SIZE * 4) stack_attr .delay = some (m₁, vm₁) ∧
      (MemoryHandler.delay ≠ .byFrame → m₁ = m) ∧ _ :=
    MemorySet.push_exists hinv (by omega) (by omega) (by omega)
      (MemorySet.test_free_area_of_apart hinv.wf (by omega) (by omega) fun a ha => by
        have := hfree a ha
        omega)
      (fun h => nomatch h)
  have hinv₁ := MemorySet.inv_push hinv h₁
  have hmem₁ := (MemorySet.push_aligned_spec (by omega) (by omega) (by omega) h₁).1
  -- the `ByFrame` part: the `Delay` part ends where it begins, and the frames are all there
  obtain ⟨m₂, vm₂, h₂, -, -⟩ : ∃ m₂ vm₂, vm₁.push m₁ (USER_STACK_OFFSET + USER_STACK_SIZE - PAGE_SIZE * 4)
      (USER_STACK_OFFSET + USER_STACK_SIZE) stack_attr .byFrame = some (m₂, vm₂) ∧ _ ∧ _ :=
    MemorySet.push_exists hinv₁ (by omega) (by omega) (by omega)
      (MemorySet.test_free_area_of_apart hinv₁.wf (by omega) (by omega) fun a ha => by
        rcases (hmem₁ a).mp ha with rfl | ha
        · exact Or.inl (by dsimp only; omega)
        · have := hfree a ha
          omega)
      (fun _ => by rw [hm₁ (fun h => nomatch h), htop, hmid]; omega)
  have hinv₂ := MemorySet.inv_push hinv₁ h₂
  have hmem₂ := (MemorySet.push_aligned_spec (by omega) (by omega) (by omega) h₂).1
  -- the initial information fits the `ByFrame` pages, which the kernel can write
  have hw : vm₂.page_table.Writable (USER_STACK_OFFSET + USER_STACK_SIZE - PAGE_SIZE * 4).toNat
      (USER_STACK_OFFSET + USER_STACK_SIZE).toNat :=
    hinv₂.writable_of_byFrame ((hmem₂ _).mpr (Or.inl rfl)) rfl rfl
  obtain ⟨sp, mem', hpush, -, -⟩ := info.push_at_exists hw (by omega) m₂.mem
    (USER_STACK_OFFSET + USER_STACK_SIZE) hargs (by omega) le_rfl
  refine ⟨{ m₂ with mem := mem' }, vm₂, sp, ?_⟩
  simp only [push_user_stack, h₁, h₂, hpush, Option.bind_eq_bind, Option.bind_some]

end Queen.Process
