/-
Physical frames, `kernel/src/memory/mod.rs` and `kernel/src/arch/aarch64/memory.rs`.

The buddy allocator `allocators::frame::buddy_system::LockedFrameAlloc` is a git submodule,
absent from the tree. It is modelled by what it promises the kernel: it holds a set of free
frame ids, `alloc(1)` hands out one of them and `dealloc(id, count)` takes back the ids
`id .. id + count`. The free ids are a list and `alloc` takes the first, so which id comes
out is decided by the order of the list, over which every result here is general.
`init_frame_allocator` fills it with page numbers counted from the start of RAM.

`GlobalFrameAlloc` turns a buddy id into a physical address, `id * PAGE_SIZE +
MEMORY_OFFSET`, and back, `target / PAGE_SIZE`: the way back forgets `MEMORY_OFFSET`, so
every frame the kernel releases reaches the buddy allocator `MEMORY_OFFSET / PAGE_SIZE =
0x40000` ids too high (`dealloc_hands_shifted_id`). On a board with at most 1 GiB of RAM
that id is one the allocator was never given (`dealloc_id_out_of_range`).
-/
import Queen.Lib.Bytes

set_option autoImplicit false

namespace Queen.Memory

/-! ## Constants -/

/-- `PAGE_SIZE = 1 << 12`. -/
def PAGE_SIZE : Usize := 1#64 <<< 12

/-- `MEMORY_OFFSET` (aarch64): where RAM starts in the physical address space. -/
def MEMORY_OFFSET : Usize := 0x4000_0000#64

/-- `KERNEL_OFFSET` (aarch64). -/
def KERNEL_OFFSET : Usize := 0xffff_0000_0000_0000#64

@[simp] theorem PAGE_SIZE_toNat : PAGE_SIZE.toNat = 4096 := by decide

@[simp] theorem MEMORY_OFFSET_toNat : MEMORY_OFFSET.toNat = 0x4000_0000 := by decide

/-- `as_lower_range(addr)`: `addr & !KERNEL_OFFSET`. -/
def as_lower_range (addr : Usize) : Usize := addr &&& ~~~KERNEL_OFFSET

/-- `as_upper_range(addr)`: `addr | KERNEL_OFFSET`. -/
def as_upper_range (addr : Usize) : Usize := addr ||| KERNEL_OFFSET

/-! ## The buddy allocator -/

/-- The free frame ids of the buddy allocator. -/
structure FrameAlloc where
  free : List Usize
deriving DecidableEq, Repr

namespace FrameAlloc

/-- `alloc(1)`: one free id, `None` when none is left. -/
def alloc (a : FrameAlloc) : Option (Usize × FrameAlloc) :=
  match a.free with
  | [] => none
  | id :: rest => some (id, ⟨rest⟩)

/-- `dealloc(id, count)`: the ids `id .. id + count` are free again. -/
def dealloc (a : FrameAlloc) (id count : Usize) : FrameAlloc :=
  ⟨(List.range count.toNat).map (fun k => id + BitVec.ofNat 64 k) ++ a.free⟩

/-- `insert(start..end)`: the ids of the range become free. -/
def insert (a : FrameAlloc) (start «end» : Usize) : FrameAlloc :=
  a.dealloc start («end» - start)

end FrameAlloc

/-- `init_frame_allocator`: the page numbers from the kernel image's end `_end` to the end
of RAM `phys_mem_range`, both counted from the start of RAM. -/
def init_frame_allocator (end_sym phys_start phys_len : Usize) : FrameAlloc :=
  let page_start := (as_lower_range end_sym - phys_start) / PAGE_SIZE
  let page_end := (phys_len - 1) / PAGE_SIZE + 1
  FrameAlloc.insert ⟨[]⟩ page_start page_end

/-! ## `GlobalFrameAlloc` -/

namespace GlobalFrameAlloc

/-- `GlobalFrameAlloc::alloc(1)`: the buddy id as a physical address. -/
def alloc (a : FrameAlloc) : Option (Usize × FrameAlloc) :=
  a.alloc.map fun (id, a) => (id * PAGE_SIZE + MEMORY_OFFSET, a)

/-- `GlobalFrameAlloc::dealloc(target, count)`: `FRAME_ALLOCATOR.dealloc(target / PAGE_SIZE,
count)`. -/
def dealloc (a : FrameAlloc) (target count : Usize) : FrameAlloc :=
  a.dealloc (target / PAGE_SIZE) count

end GlobalFrameAlloc

/-- The id `dealloc` computes for the address of frame `i`: the address divided by the page
size, which is `i` plus the pages below RAM. -/
theorem dealloc_id_of_address (i : Usize) (hi : i.toNat < 2 ^ 52 - 2 ^ 18) :
    (i * PAGE_SIZE + MEMORY_OFFSET) / PAGE_SIZE = i + 0x40000#64 := by
  apply BitVec.eq_of_toNat_eq
  rw [BitVec.toNat_udiv, BitVec.toNat_add, BitVec.toNat_mul, PAGE_SIZE_toNat, MEMORY_OFFSET_toNat,
    BitVec.toNat_add, BitVec.toNat_ofNat]
  omega

/-- Releasing the frame that `alloc` built from id `i` hands the buddy allocator the id
`i + 0x40000`, not `i`, whatever the count. -/
theorem dealloc_hands_shifted_id (a : FrameAlloc) (i c : Usize) (hi : i.toNat < 2 ^ 52 - 2 ^ 18) :
    GlobalFrameAlloc.dealloc a (i * PAGE_SIZE + MEMORY_OFFSET) c = a.dealloc (i + 0x40000#64) c := by
  rw [GlobalFrameAlloc.dealloc, dealloc_id_of_address i hi]

/-- Frame `0` of RAM, at `0x4000_0000`, goes back to the buddy allocator as id `0x40000`. -/
theorem dealloc_hands_shifted_id_zero :
    (0#64).toNat < 2 ^ 52 - 2 ^ 18 ∧
      GlobalFrameAlloc.dealloc ⟨[]⟩ (0#64 * PAGE_SIZE + MEMORY_OFFSET) 1#64 =
        FrameAlloc.dealloc ⟨[]⟩ 0x40000#64 1#64 :=
  ⟨by decide, by simpa using dealloc_hands_shifted_id ⟨[]⟩ 0#64 1#64 (by decide)⟩

/-- The ids `insert(start..end)` adds to an empty allocator are below `end`. -/
theorem lt_of_mem_insert {start «end» id : Usize} (h : start ≤ «end»)
    (hid : id ∈ (FrameAlloc.insert ⟨[]⟩ start «end»).free) : id < «end» := by
  simp only [FrameAlloc.insert, FrameAlloc.dealloc, List.append_nil, List.mem_map,
    List.mem_range] at hid
  obtain ⟨k, hk, rfl⟩ := hid
  have hsub : («end» - start).toNat = «end».toNat - start.toNat := Usize.toNat_sub_of_le h
  bv_omega

/-- With at most 1 GiB of RAM, and the kernel image ending inside it, every id
`init_frame_allocator` inserts is below `0x40000`; so the id that the release of any of its
frames hands back is one the allocator never held. -/
theorem dealloc_id_out_of_range (end_sym phys_start phys_len i : Usize)
    (hlen : 0 < phys_len.toNat) (hram : phys_len.toNat ≤ 0x4000_0000)
    (hkernel : (as_lower_range end_sym - phys_start) / PAGE_SIZE ≤ (phys_len - 1) / PAGE_SIZE + 1)
    (hi : i ∈ (init_frame_allocator end_sym phys_start phys_len).free) :
    (i * PAGE_SIZE + MEMORY_OFFSET) / PAGE_SIZE ∉
      (init_frame_allocator end_sym phys_start phys_len).free := by
  -- every inserted id is below the number of pages of RAM, at most `0x40000`
  have hbound : ∀ j ∈ (init_frame_allocator end_sym phys_start phys_len).free,
      j.toNat < 0x40000 := by
    intro j hj
    have hlt := lt_of_mem_insert hkernel hj
    rw [BitVec.lt_def, BitVec.toNat_add, BitVec.toNat_udiv, Usize.toNat_sub_of_le (by bv_omega),
      PAGE_SIZE_toNat, Usize.toNat_one] at hlt
    omega
  have hi' := hbound i hi
  rw [dealloc_id_of_address i (by omega)]
  intro hmem
  have hshift := hbound _ hmem
  rw [BitVec.toNat_add, BitVec.toNat_ofNat] at hshift
  omega

end Queen.Memory
