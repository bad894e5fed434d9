/-
The memory handlers, `kernel/src/memory/handler/`: how an area maps, unmaps, copies for a
fork and fills on a page fault each of its pages.

`Box<dyn MemoryHandler>` is a closed set of four kinds in the kernel, so it is an
inductive type here: `Linear` maps a page to a fixed offset of it, `ByFrame` gives every
page a fresh frame at once, `Delay` maps pages absent and gives them a zeroed frame on the
first fault, and `File` does the same with the bytes of a file. Every allocator the kernel
passes is `GlobalFrameAlloc`.

An operation acts on the page table of its memory set and on the `Machine`, the frame
allocator and the physical memory that all memory sets share. `None` is a panic: an
`expect` or an `unwrap` of the page table that fails.

The file behind a `File` handler is its bytes; `INodeForMap::read_at` returns those from
the offset on, as many as fit the buffer.
-/
import Queen.Memory.Paging

set_option autoImplicit false

namespace Queen.Memory

/-- What every memory set shares: the frame allocator and physical memory. -/
structure Machine where
  frames : FrameAlloc
  mem : PhysMem

/-- `Box<dyn MemoryHandler>`. -/
inductive MemoryHandler
  /-- `Linear { offset }`, the `isize` offset kept as its bits. -/
  | linear (offset : Usize)
  /-- `ByFrame { allocator }`. -/
  | byFrame
  /-- `Delay { allocator }`. -/
  | delay
  /-- `File { file, mem_start, file_start, file_end, allocator }`. -/
  | file (file : List (BitVec 8)) (mem_start file_start file_end : Usize)
deriving DecidableEq, Repr

namespace Machine

/-- `self.allocator.alloc(1).expect(..)`. -/
def alloc_frame (m : Machine) : Option (PhysAddr × Machine) :=
  (GlobalFrameAlloc.alloc m.frames).map fun (target, frames) => (target, { m with frames })

/-- `self.allocator.dealloc(target, 1)`. -/
def dealloc_frame (m : Machine) (target : PhysAddr) : Machine :=
  { m with frames := GlobalFrameAlloc.dealloc m.frames target 1 }

end Machine

namespace MemoryHandler

/-- The bytes `File::fill_data` reads for the page at `addr`: from `file_offset = addr +
file_start - mem_start`, at most a page and at most up to `file_end`, the bound computed
in `isize`. -/
def read_size (file_start file_end mem_start addr : Usize) : Nat :=
  let file_offset := addr + file_start - mem_start
  ((file_end - file_offset).toInt ⊓ PAGE_SIZE.toInt ⊔ 0).toNat

/-- `File::fill_data`: read the file into the page's frame, zero the rest. -/
def fill_data (file : List (BitVec 8)) (mem_start file_start file_end : Usize) (m : Machine)
    (pt : PageTable) (addr : VirtAddr) : Option Machine := do
  let frame ← pt.page_frame addr
  let file_offset := addr + file_start - mem_start
  let data := (file.drop file_offset.toNat).take (read_size file_start file_end mem_start addr)
  some { m with mem := m.mem.fill_page frame data }

/-- `MemoryHandler::map(pt, addr, attr)`. -/
def map : MemoryHandler → Machine → PageTable → VirtAddr → MemoryAttr →
    Option (Machine × PageTable)
  | linear offset, m, pt, addr, attr => do
    let pt ← pt.map addr (addr + offset)
    some (m, pt.update addr attr.apply)
  | byFrame, m, pt, addr, attr => do
    let (target, m) ← m.alloc_frame
    let pt ← pt.map addr target
    some (m, pt.update addr attr.apply)
  | delay, m, pt, addr, attr | file .., m, pt, addr, attr => do
    -- the page is mapped absent, its target unused until the first fault
    let pt ← pt.map addr 0
    some (m, pt.update addr fun e => attr.apply { e with present := false })

/-- `MemoryHandler::unmap(pt, addr)`: the frame of a present page goes back to the
allocator, except under `Linear`, which never allocated it. -/
def unmap : MemoryHandler → Machine → PageTable → VirtAddr → Option (Machine × PageTable)
  | linear _, m, pt, addr => (pt.unmap addr).map fun pt => (m, pt)
  | byFrame, m, pt, addr => do
    let e ← pt.get_entry addr
    let m := m.dealloc_frame e.target
    let pt ← pt.unmap addr
    some (m, pt)
  | delay, m, pt, addr | file .., m, pt, addr => do
    let e ← pt.get_entry addr
    let m := if e.present then m.dealloc_frame e.target else m
    -- `PageTable::unmap` requires the page to be present
    let pt ← (pt.update addr fun e => { e with present := true }).unmap addr
    some (m, pt)

/-- The eager half of `Delay::clone_map` and `File::clone_map`: a fresh frame with a copy of
the parent's page. -/
def copy_map (m : Machine) (pt src_pt : PageTable) (addr : VirtAddr) (attr : MemoryAttr) :
    Option (Machine × PageTable) := do
  let data ← src_pt.page_frame addr
  let (target, m) ← m.alloc_frame
  let pt ← pt.map addr target
  let pt := pt.update addr attr.apply
  let frame ← pt.page_frame addr
  some ({ m with mem := m.mem.copy_page frame data }, pt)

/-- `MemoryHandler::clone_map(pt, src_pt, addr, attr)`: map `addr` in the child's table
`pt` after the parent's `src_pt`. -/
def clone_map (h : MemoryHandler) (m : Machine) (pt src_pt : PageTable) (addr : VirtAddr)
    (attr : MemoryAttr) : Option (Machine × PageTable) :=
  match h with
  | linear _ => h.map m pt addr attr
  | byFrame => do
    let (m, pt) ← h.map m pt addr attr
    let data ← src_pt.page_frame addr
    let frame ← pt.page_frame addr
    some ({ m with mem := m.mem.copy_page frame data }, pt)
  | delay => do
    let e ← src_pt.get_entry addr
    if e.present then copy_map m pt src_pt addr attr else h.map m pt addr attr
  | file .. => do
    let e ← src_pt.get_entry addr
    -- a read-only page is read again from the file on the child's first fault
    if e.present && !attr.readonly then copy_map m pt src_pt addr attr
    else h.map m pt addr attr

/-- `MemoryHandler::handle_page_fault(pt, addr)`: whether the fault was handled. -/
def handle_page_fault : MemoryHandler → Machine → PageTable → VirtAddr →
    Option (Bool × Machine × PageTable)
  | linear _, m, pt, _ | byFrame, m, pt, _ => some (false, m, pt)
  | delay, m, pt, addr => do
    let e ← pt.get_entry addr
    if e.present then some (false, m, pt)
    else
      let (frame, m) ← m.alloc_frame
      let pt := pt.update addr fun e => { e with target := frame, present := true }
      let page ← pt.page_frame addr
      -- init with zero for delay mmap mode
      some (true, { m with mem := m.mem.fill_page page [] }, pt)
  | file bytes mem_start file_start file_end, m, pt, addr => do
    let addr := addr &&& ~~~(PAGE_SIZE - 1)
    let e ← pt.get_entry addr
    if e.present then some (false, m, pt)
    else
      let (frame, m) ← m.alloc_frame
      let pt := pt.update addr fun e => { e with target := frame, present := true }
      let m ← fill_data bytes mem_start file_start file_end m pt addr
      some (true, m, pt)

end MemoryHandler

end Queen.Memory
