/-
Pages, page-table entries and page tables, `kernel/src/memory/paging.rs`,
`kernel/src/memory/memory_set.rs` (`MemoryAttr`) and `kernel/src/arch/aarch64/paging.rs`.

`PageTableImpl` wraps the `aarch64` crate's `OffsetPageTable`, which is not in the tree. The
memory model reads it as a finite map from virtual page numbers to entries, with the crate's
failures where the kernel `unwrap`s them, except that it does not count the frames `map_to`
takes for the tables of its walk (`Arch/Paging.lean` does, and relates the two): `map` panics on a page that already has an entry
(`map_to` returns `PageAlreadyMapped`), `unmap` panics on a page without a present entry
(`unmap` returns `PageNotMapped`, which is why the handlers set `present` before calling
it), and `get_page_slice_mut` panics on a page without an entry. An entry keeps the fields
the kernel reads or writes: the target frame and the `VALID`, write, `AP_EL0`, execute and
memory-type bits.

Physical memory is a function from physical addresses to bytes. Reads and writes of user
memory go through an entry's target, so two page tables whose entries name the same frame
see the same bytes.
-/
import Queen.Memory.Frame

set_option autoImplicit false

namespace Queen.Memory

/-- `type VirtAddr = usize`. -/
abbrev VirtAddr := Usize

/-- `type PhysAddr = usize`. -/
abbrev PhysAddr := Usize

/-! ## Pages -/

/-- `struct Page { number }`. -/
structure Page where
  number : Usize
deriving DecidableEq, Repr

namespace Page

/-- `Page::start_address`. -/
def start_address (p : Page) : VirtAddr := p.number * PAGE_SIZE

/-- `Page::of_addr`: the page that contains the address. -/
def of_addr (addr : VirtAddr) : Page := ⟨addr / PAGE_SIZE⟩

/-- The pages `Page::range_of(begin, end)` iterates over: from `of_addr(begin)` up to and
including `of_addr(end - 1)`, none when the first is past the last. The last page number is
at most `2 ^ 52 - 1`, so `start += 1` never wraps. -/
def range_of (begin «end» : VirtAddr) : List Page :=
  let start := (of_addr begin).number
  let last := (of_addr («end» - 1)).number
  (List.range (last.toNat + 1 - start.toNat)).map fun k => ⟨start + BitVec.ofNat 64 k⟩

end Page

/-- `struct PageRange`: the next page to yield and the last one. The source's comment calls
the upper bound exclusive; `next` yields it. -/
structure PageRange where
  start : Page
  «end» : Page
deriving DecidableEq, Repr

namespace PageRange

/-- `Iterator for PageRange :: next`: yield `start` and move it one page on, while
`start <= end` (pages compare by number). -/
def next (r : PageRange) : Option (Page × PageRange) :=
  if r.start.number ≤ r.«end».number then
    some (r.start, { r with start := ⟨r.start.number + 1⟩ })
  else none

/-- What a `for` loop over the range gets: the pages `next` yields, in order, from at most
`fuel` calls. -/
def collect : Nat → PageRange → List Page
  | 0, _ => []
  | fuel + 1, r =>
    match r.next with
    | none => []
    | some (p, r') => p :: collect fuel r'

end PageRange

/-! ## Entries and attributes -/

/-- A page-table entry: `target()` and the flags the kernel reads or sets. -/
structure Entry where
  target : PhysAddr
  present : Bool
  writable : Bool
  user : Bool
  execute : Bool
  mmio : BitVec 8
deriving DecidableEq, Repr

/-- `struct MemoryAttr`; `Default` is all `false` and `mmio = 0`. -/
structure MemoryAttr where
  user : Bool
  readonly : Bool
  execute : Bool
  mmio : BitVec 8
deriving DecidableEq, Repr

instance : Inhabited MemoryAttr := ⟨⟨false, false, false, 0⟩⟩

namespace MemoryAttr

/-- `MemoryAttr::user`. -/
def set_user (a : MemoryAttr) : MemoryAttr := { a with user := true }

/-- `MemoryAttr::readonly`. -/
def set_readonly (a : MemoryAttr) : MemoryAttr := { a with readonly := true }

/-- `MemoryAttr::writable`. -/
def set_writable (a : MemoryAttr) : MemoryAttr := { a with readonly := false }

/-- `MemoryAttr::execute`. -/
def set_execute (a : MemoryAttr) : MemoryAttr := { a with execute := true }

/-- `MemoryAttr::mmio(value)`. -/
def set_mmio (a : MemoryAttr) (value : BitVec 8) : MemoryAttr := { a with mmio := value }

/-- `MemoryAttr::apply`: user, writable, execute and memory type, in that order. The
entry's `set_mmio` ignores a value above `2`. -/
def apply (a : MemoryAttr) (e : Entry) : Entry :=
  { e with user := a.user, writable := !a.readonly, execute := a.execute,
           mmio := if a.mmio ≤ 2 then a.mmio else e.mmio }

@[simp] theorem apply_present (a : MemoryAttr) (e : Entry) : (a.apply e).present = e.present := rfl

@[simp] theorem apply_target (a : MemoryAttr) (e : Entry) : (a.apply e).target = e.target := rfl

end MemoryAttr

/-! ## Page tables -/

/-- `PageTableImpl`: the entry of each mapped virtual page, keyed by page number. -/
structure PageTable where
  entries : AList (fun _ : Usize => Entry)

/-- Physical memory: the byte at each physical address. -/
abbrev PhysMem := PhysAddr → BitVec 8

namespace PageTable

/-- `PageTableExt::new()` on aarch64: a fresh root table, and `map_kernel` adds nothing. -/
def new : PageTable := ⟨∅⟩

/-- `get_entry(addr)`: the entry of the page of `addr`, if it has one. -/
def get_entry (pt : PageTable) (addr : VirtAddr) : Option Entry :=
  pt.entries.lookup (Page.of_addr addr).number

/-- `map(addr, target)`: a new present entry for the page of `addr`; `map_to(..).unwrap()`
panics when the page has one. The other flags are those of `EF::default_page()`, which
every caller overwrites with `MemoryAttr::apply` at once. -/
def map (pt : PageTable) (addr : VirtAddr) (target : PhysAddr) : Option PageTable :=
  if (Page.of_addr addr).number ∈ pt.entries then none
  else some ⟨pt.entries.insert (Page.of_addr addr).number ⟨target, true, false, false, false, 0⟩⟩

/-- Write through the `&mut dyn Entry` of the page of `addr`. -/
def update (pt : PageTable) (addr : VirtAddr) (f : Entry → Entry) : PageTable :=
  match pt.get_entry addr with
  | some e => ⟨pt.entries.insert (Page.of_addr addr).number (f e)⟩
  | none => pt

/-- `unmap(addr)`: `unmap(..).unwrap()` panics unless the page has a present entry. -/
def unmap (pt : PageTable) (addr : VirtAddr) : Option PageTable :=
  match pt.get_entry addr with
  | some e => if e.present then some ⟨pt.entries.erase (Page.of_addr addr).number⟩ else none
  | none => none

/-- `get_page_slice_mut(addr)`: the frame behind the page of `addr`; `translate_page(..)
.unwrap()` panics when the page has no entry. -/
def page_frame (pt : PageTable) (addr : VirtAddr) : Option PhysAddr :=
  (pt.get_entry addr).map Entry.target

end PageTable

/-! ## Physical memory -/

namespace PhysMem

/-- `dst.copy_from_slice(src)` over one page: the frame at `dst` takes the bytes of `src`. -/
def copy_page (mem : PhysMem) (dst src : PhysAddr) : PhysMem := fun a =>
  if dst ≤ a ∧ a - dst < PAGE_SIZE then mem (src + (a - dst)) else mem a

/-- The frame at `dst` holds `data` from its start, zeros after it. -/
def fill_page (mem : PhysMem) (dst : PhysAddr) (data : List (BitVec 8)) : PhysMem := fun a =>
  if dst ≤ a ∧ a - dst < PAGE_SIZE then data.getD (a - dst).toNat 0 else mem a

end PhysMem

end Queen.Memory
