/-
`MemoryArea` and `MemorySet`, `kernel/src/memory/memory_set.rs`.

A memory set is a list of areas kept in order of start address, and the page table its
areas' handlers write. The operations are those of the source: `push` rounds the bounds to
pages, checks them against the other areas a page at a time and inserts the area where its
start address belongs; `pop` removes one area; `pop_with_split` removes a range, cutting
areas that stick out of it; `clear`, `handle_page_fault` and `clone` follow.

`pop_with_split` is a `while` loop over an index that the subset case moves back by one
(`i.wrapping_sub(1)`, undone by the `i.wrapping_add(1)` at the end of the body) and the
superset case moves past the second half it inserts. Every round lowers `areas.len() - i`
by exactly one, so the loop runs `areas.len()` rounds; `pop_with_split.loop` is given that
many rounds of fuel and `pop_with_split_loop_fuel` shows the bound is the loop's own.

`check_read_array` and `check_write_array` are given the size of the element type in
bytes, `size_of::<S>()`.
-/
import Queen.Memory.Handler

set_option autoImplicit false

namespace Queen.Memory

/-- `struct MemoryArea`; the `name` is only printed, and left out. -/
structure MemoryArea where
  start_addr : VirtAddr
  end_addr : VirtAddr
  attr : MemoryAttr
  handler : MemoryHandler
deriving DecidableEq, Repr

namespace MemoryArea

/-- `MemoryArea::contains`. -/
def contains (a : MemoryArea) (addr : VirtAddr) : Bool :=
  addr ≥ a.start_addr && addr < a.end_addr

/-- `MemoryArea::check_read_array`: how many bytes of `[ptr, ptr + count * size)` the area
covers, its bounds widened to whole pages. -/
def check_read_array (a : MemoryArea) (size ptr count : Usize) : Usize :=
  let lo := (Page.of_addr a.start_addr).start_address
  let hi := (Page.of_addr (a.end_addr + PAGE_SIZE - 1)).start_address
  -- `usize::max` and `usize::min`
  let min_bound := if ptr ≤ lo then lo else ptr
  let max_bound := if ptr + count * size ≤ hi then ptr + count * size else hi
  if max_bound ≥ min_bound then max_bound - min_bound else 0

/-- `MemoryArea::check_write_array`: nothing of a read-only area. -/
def check_write_array (a : MemoryArea) (size ptr count : Usize) : Usize :=
  if a.attr.readonly then 0 else a.check_read_array size ptr count

/-- `MemoryArea::is_overlap_with(start_addr, end_addr)`, page by page. -/
def is_overlap_with (a : MemoryArea) (start_addr end_addr : VirtAddr) : Bool :=
  let p0 := (Page.of_addr a.start_addr).number
  let p1 := (Page.of_addr (a.end_addr - 1)).number + 1
  let p2 := (Page.of_addr start_addr).number
  let p3 := (Page.of_addr (end_addr - 1)).number + 1
  !(p1 ≤ p2 || p0 ≥ p3)

/-- Run a page operation of the handler over every page of the area. -/
def for_pages (a : MemoryArea) (op : Machine → PageTable → VirtAddr → Option (Machine × PageTable))
    (m : Machine) (pt : PageTable) : Option (Machine × PageTable) :=
  (Page.range_of a.start_addr a.end_addr).foldlM (fun (m, pt) page => op m pt page.start_address)
    (m, pt)

/-- `MemoryArea::map`: map every page of the area. -/
def map (a : MemoryArea) (m : Machine) (pt : PageTable) : Option (Machine × PageTable) :=
  a.for_pages (fun m pt addr => a.handler.map m pt addr a.attr) m pt

/-- `MemoryArea::unmap`: unmap every page of the area. -/
def unmap (a : MemoryArea) (m : Machine) (pt : PageTable) : Option (Machine × PageTable) :=
  a.for_pages (fun m pt addr => a.handler.unmap m pt addr) m pt

end MemoryArea

/-- `struct MemorySet`. -/
structure MemorySet where
  areas : List MemoryArea
  page_table : PageTable

namespace MemorySet

/-- `MemorySet::new()` and `MemorySet::new_bare()`: no areas, an empty table. -/
def new : MemorySet := ⟨[], PageTable.new⟩

/-- The loop of `MemorySet::check_read_array`: add up the bytes each area covers, in
order, and succeed as soon as the sum is the whole buffer. -/
def check_loop (covered : MemoryArea → Usize) (total : Usize) : List MemoryArea → Usize → Bool
  | [], _ => false
  | a :: as, valid_size =>
    let valid_size := valid_size + covered a
    if valid_size = total then true else check_loop covered total as valid_size

/-- `MemorySet::check_read_array(ptr, count)`: `Ok` or `Err(VmError::InvalidPtr)`. -/
def check_read_array (ms : MemorySet) (size ptr count : Usize) : Bool :=
  check_loop (fun a => a.check_read_array size ptr count) (size * count) ms.areas 0

/-- `MemorySet::check_write_array(ptr, count)`. -/
def check_write_array (ms : MemorySet) (size ptr count : Usize) : Bool :=
  check_loop (fun a => a.check_write_array size ptr count) (size * count) ms.areas 0

/-- `MemorySet::test_free_area`: no area overlaps `[start_addr, end_addr)`. -/
def test_free_area (ms : MemorySet) (start_addr end_addr : VirtAddr) : Bool :=
  (ms.areas.find? fun a => a.is_overlap_with start_addr end_addr).isNone

/-- The addresses `find_free_area` tries, in order: the hint, then the end of each area,
each rounded up to a page. -/
def free_area_candidates (ms : MemorySet) (addr_hint : VirtAddr) : List VirtAddr :=
  (addr_hint :: ms.areas.map (·.end_addr)).map fun addr => (addr + PAGE_SIZE - 1) &&& ~~~(PAGE_SIZE - 1)

/-- `MemorySet::find_free_area(addr_hint, len)`: the first candidate `addr` with
`[addr, addr + len)` free; `none` is the `expect` that fails. -/
def find_free_area (ms : MemorySet) (addr_hint len : Usize) : Option VirtAddr :=
  (ms.free_area_candidates addr_hint).find? fun addr => ms.test_free_area addr (addr + len)

/-- `MemorySet::push`. An empty range is ignored; after rounding to pages, an empty range or
an overlap is an `assert!` that fails. -/
def push (ms : MemorySet) (m : Machine) (start_addr end_addr : VirtAddr) (attr : MemoryAttr)
    (handler : MemoryHandler) : Option (Machine × MemorySet) :=
  if start_addr ≥ end_addr then some (m, ms)
  else
    let start_addr := start_addr &&& ~~~(PAGE_SIZE - 1)
    let end_addr := (end_addr + PAGE_SIZE - 1) &&& ~~~(PAGE_SIZE - 1)
    if start_addr < end_addr ∧ ms.test_free_area start_addr end_addr then do
      let area : MemoryArea := ⟨start_addr, end_addr, attr, handler⟩
      let (m, pt) ← area.map m ms.page_table
      -- keep order by start address
      let idx := ms.areas.findIdx fun other => start_addr < other.start_addr
      some (m, ⟨ms.areas.insertIdx idx area, pt⟩)
    else none

/-- `MemorySet::pop`: remove the area `[start_addr, end_addr)` exactly; `panic!` when there
is none. -/
def pop (ms : MemorySet) (m : Machine) (start_addr end_addr : VirtAddr) :
    Option (Machine × MemorySet) :=
  if start_addr ≤ end_addr then
    match ms.areas.findIdx? (fun a => a.start_addr = start_addr && a.end_addr = end_addr) with
    | some i => do
      let area ← ms.areas[i]?
      let (m, pt) ← area.unmap m ms.page_table
      some (m, ⟨ms.areas.eraseIdx i, pt⟩)
    | none => none
  else none

/-- One round of the loop of `pop_with_split` at index `i`: the new areas, table and
machine, and the index the next round starts from. -/
def pop_with_split.round (start_addr end_addr : VirtAddr) (m : Machine) (pt : PageTable)
    (areas : List MemoryArea) (i : Nat) (area : MemoryArea) :
    Option (Machine × PageTable × List MemoryArea × Nat) :=
  if area.is_overlap_with start_addr end_addr then
    if area.start_addr ≥ start_addr ∧ area.end_addr ≤ end_addr then do
      -- subset: the next area moves into place `i`
      let (m, pt) ← area.unmap m pt
      some (m, pt, areas.eraseIdx i, i)
    else if area.start_addr ≥ start_addr ∧ area.start_addr < end_addr then do
      -- prefix
      let (m, pt) ← { area with end_addr }.unmap m pt
      some (m, pt, areas.set i { area with start_addr := end_addr }, i + 1)
    else if area.end_addr ≤ end_addr ∧ area.end_addr > start_addr then do
      -- postfix
      let (m, pt) ← { area with start_addr }.unmap m pt
      some (m, pt, areas.set i { area with end_addr := start_addr }, i + 1)
    else do
      -- superset: the right half goes after the left one, and is skipped
      let (m, pt) ← { area with start_addr, end_addr }.unmap m pt
      some (m, pt, (areas.set i { area with end_addr := start_addr }).insertIdx (i + 1)
        { area with start_addr := end_addr }, i + 2)
  else some (m, pt, areas, i + 1)

/-- The `while i < self.areas.len()` loop of `pop_with_split`, with `fuel` rounds. -/
def pop_with_split.loop (start_addr end_addr : VirtAddr) :
    Nat → Machine → PageTable → List MemoryArea → Nat → Option (Machine × PageTable × List MemoryArea)
  | 0, m, pt, areas, _ => some (m, pt, areas)
  | fuel + 1, m, pt, areas, i =>
    match areas[i]? with
    | none => some (m, pt, areas)
    | some area => do
      let (m, pt, areas, i) ← pop_with_split.round start_addr end_addr m pt areas i area
      pop_with_split.loop start_addr end_addr fuel m pt areas i

/-- `MemorySet::pop_with_split(start_addr, end_addr)`. -/
def pop_with_split (ms : MemorySet) (m : Machine) (start_addr end_addr : VirtAddr) :
    Option (Machine × MemorySet) :=
  if start_addr ≤ end_addr then do
    let (m, pt, areas) ← pop_with_split.loop start_addr end_addr ms.areas.length m ms.page_table
      ms.areas 0
    some (m, ⟨areas, pt⟩)
  else none

/-- `MemorySet::clear`: unmap every area, in order, and drop them all. -/
def clear (ms : MemorySet) (m : Machine) : Option (Machine × MemorySet) := do
  let (m, pt) ← ms.areas.foldlM (fun (m, pt) area => area.unmap m pt) (m, ms.page_table)
  some (m, ⟨[], pt⟩)

/-- `MemorySet::handle_page_fault(addr)`: the handler of the first area that contains
`addr`, or `false`. -/
def handle_page_fault (ms : MemorySet) (m : Machine) (addr : VirtAddr) :
    Option (Bool × Machine × MemorySet) :=
  match ms.areas.find? (fun a => a.contains addr) with
  | some area => do
    let (ok, m, pt) ← area.handler.handle_page_fault m ms.page_table addr
    some (ok, m, { ms with page_table := pt })
  | none => some (false, m, ms)

/-- `MemorySet::clone`: a new table, filled page by page by each area's `clone_map` from
this set's table; the areas are copied. -/
def clone (ms : MemorySet) (m : Machine) : Option (Machine × MemorySet) := do
  let (m, pt) ← ms.areas.foldlM
    (fun (m, pt) area => area.for_pages
      (fun m pt addr => area.handler.clone_map m pt ms.page_table addr area.attr) m pt)
    (m, PageTable.new)
  some (m, ⟨ms.areas, pt⟩)

end MemorySet

end Queen.Memory
