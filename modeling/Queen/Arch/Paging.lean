/-
The aarch64 page-table entry, `kernel/src/arch/aarch64/paging.rs`: `PageEntry` with its
`impl Entry`, and `map`, `unmap` and `get_entry` of `PageTableImpl`.

The memory model works with `Entry` (`Memory/Paging.lean`), the record of what the kernel
reads of an entry, and writes it as a record: `{ e with present := false }`,
`{ e with target, present := true }`, `MemoryAttr.apply`. On aarch64 an entry is a descriptor
of the `aarch64` crate: an output address, `PageTableFlags` bits and a memory attribute.
Execute permission is two bits, `PXN` for EL1 and `UXN` for EL0; `execute()` reads the one
of the level `AP_EL0` selects, and `set_execute` writes that one and sets the other. The
attribute is one of three `MairType`s, and `set_mmio` leaves it alone on other values.

Reading a descriptor as an `Entry` commutes with every write the kernel makes through
`&mut dyn Entry` (`entry_set_present`, `entry_set_target`, `entry_apply`). For
`MemoryAttr::apply` that rests on its order: it sets `user` before `execute`, and a change
of `user` after `set_execute` leaves the page not executable
(`execute_set_user_set_execute`).

The crate is not in the tree. A descriptor is modelled by what `PageEntry` reads and writes
of it: the address as written, the flags by name, the attribute as the `MairType` it is.
`EF::default_page()` is the crate's; `map` needs of it that the page is valid, not writable
and not for EL0 (`DefaultPage`). The crate's table is a parameter, `Mapper`: its
`get_entry_mut`, `map_to` and `unmap`, with what the kernel takes them to do as named
hypotheses. `map_to` takes a frame from `FrameAllocatorForAarch64` for each table its walk
lacks, so `map` panics when the allocator runs out (`map_eq_none_of_frames`). `Walk` is a
table that meets the hypotheses, on which the model runs.

Over whole tables, every run of the kernel's operations that returns on the aarch64 table
returns on the `PageTable` of the memory model, and the two read alike
(`PageTableImpl.refines`); with three frames for each `map`, they panic together
(`PageTableImpl.run_rel`).
-/
import Queen.Memory.Entries
import Queen.Lib.Transition

set_option autoImplicit false

namespace Queen.Arch

open Queen.Memory Queen.Transition

/-- The bits of `PageTableFlags` (`EF`) that `PageEntry` reads or writes. -/
inductive EF
  | VALID
  | WRITE
  | AP_RO
  | AP_EL0
  | nG
  | PXN
  | UXN
deriving DecidableEq, Repr

/-- The memory attribute of a descriptor: one of the three `MairType`s the kernel sets, or
another value. -/
inductive MairAttr
  | Normal
  | Device
  | NormalNonCacheable
  | Other (value : BitVec 64)
deriving DecidableEq, Repr

/-- `struct PageEntry(&mut PageTableEntry, Page)`: the crate's descriptor it writes through,
with its output address, flags and memory attribute. The page serves `update()` only. -/
structure PageEntry where
  addr : PhysAddr
  flags : Finset EF
  attr : MairAttr
deriving DecidableEq

/-- `EF::default_page()`: what `map` needs of the crate's flags for a new page. -/
structure DefaultPage where
  flags : Finset EF
  valid : EF.VALID ∈ flags
  not_write : EF.WRITE ∉ flags
  not_el0 : EF.AP_EL0 ∉ flags

/-! ## `PageEntry` -/

namespace PageEntry

variable (e : PageEntry)

/-- `flags().contains(f)`. -/
def contains (f : EF) : Bool := decide (f ∈ e.flags)

/-- `as_flags().set(f, value)`. -/
def set (f : EF) (value : Bool) : PageEntry :=
  { e with flags := if value then insert f e.flags else e.flags.erase f }

def present : Bool := e.contains .VALID

def writable : Bool := e.contains .WRITE

def user : Bool := e.contains .AP_EL0

/-- `execute()`: not `UXN` for a user page, not `PXN` for a kernel page. -/
def execute : Bool := if e.user then !e.contains .UXN else !e.contains .PXN

/-- `target()`: `addr()`. -/
def target : PhysAddr := e.addr

/-- `mmio()`: `MMIOType` of the attribute, `Unsupported = 3` for any other. -/
def mmio : BitVec 8 :=
  match e.attr with
  | .Normal => 0
  | .Device => 1
  | .NormalNonCacheable => 2
  | .Other _ => 3

def set_writable (value : Bool) : PageEntry := (e.set .AP_RO !value).set .WRITE value

def set_present (value : Bool) : PageEntry := e.set .VALID value

/-- `set_target(target)`: `set_addr` with the flags and attribute as they are. -/
def set_target (target : PhysAddr) : PageEntry := { e with addr := target }

/-- `set_user(value)`: `AP_EL0`, and `nG` so that the page uses the ASID. -/
def set_user (value : Bool) : PageEntry := (e.set .AP_EL0 value).set .nG value

/-- `set_execute(value)`: the bit of the entry's level, and the other level's set. -/
def set_execute (value : Bool) : PageEntry :=
  if e.user then (e.set .UXN !value).set .PXN true else (e.set .PXN !value).set .UXN true

/-- `set_mmio(value)`: `0`, `1`, `2` select a `MairType`; any other value returns. -/
def set_mmio (value : BitVec 8) : PageEntry :=
  if value = 0 then { e with attr := .Normal }
  else if value = 1 then { e with attr := .Device }
  else if value = 2 then { e with attr := .NormalNonCacheable }
  else e

/-- `MemoryAttr::apply(entry)` on an aarch64 entry: `set_user`, `set_writable`,
`set_execute`, `set_mmio`, in that order. `update()` flushes the TLB entry only. -/
def apply (a : MemoryAttr) : PageEntry :=
  (((e.set_user a.user).set_writable !a.readonly).set_execute a.execute).set_mmio a.mmio

/-- The entry as the kernel reads it through `&dyn Entry`. -/
def entry : Entry := ⟨e.target, e.present, e.writable, e.user, e.execute, e.mmio⟩

/-! ### What each setter changes -/

@[simp] theorem contains_set (f g : EF) (value : Bool) :
    (e.set f value).contains g = if g = f then value else e.contains g := by
  by_cases hg : g = f
  · subst hg
    cases value <;> simp [set, contains]
  · cases value <;> simp [set, contains, hg]

@[simp] theorem target_set (f : EF) (value : Bool) : (e.set f value).target = e.target := rfl

@[simp] theorem mmio_set (f : EF) (value : Bool) : (e.set f value).mmio = e.mmio := rfl

@[simp] theorem present_set (f : EF) (value : Bool) :
    (e.set f value).present = if EF.VALID = f then value else e.present :=
  e.contains_set f .VALID value

@[simp] theorem writable_set (f : EF) (value : Bool) :
    (e.set f value).writable = if EF.WRITE = f then value else e.writable :=
  e.contains_set f .WRITE value

@[simp] theorem user_set (f : EF) (value : Bool) :
    (e.set f value).user = if EF.AP_EL0 = f then value else e.user :=
  e.contains_set f .AP_EL0 value

@[simp] theorem target_set_user (value : Bool) : (e.set_user value).target = e.target := rfl

@[simp] theorem mmio_set_user (value : Bool) : (e.set_user value).mmio = e.mmio := rfl

@[simp] theorem target_set_writable (value : Bool) : (e.set_writable value).target = e.target := rfl

@[simp] theorem mmio_set_writable (value : Bool) : (e.set_writable value).mmio = e.mmio := rfl

@[simp] theorem present_set_user (value : Bool) : (e.set_user value).present = e.present := by
  simp [present, set_user]

@[simp] theorem writable_set_user (value : Bool) : (e.set_user value).writable = e.writable := by
  simp [writable, set_user]

@[simp] theorem user_set_user (value : Bool) : (e.set_user value).user = value := by
  simp [user, set_user]

@[simp] theorem present_set_writable (value : Bool) :
    (e.set_writable value).present = e.present := by
  simp [present, set_writable]

@[simp] theorem writable_set_writable (value : Bool) : (e.set_writable value).writable = value := by
  simp [writable, set_writable]

@[simp] theorem user_set_writable (value : Bool) : (e.set_writable value).user = e.user := by
  simp [user, set_writable]

@[simp] theorem present_set_execute (value : Bool) :
    (e.set_execute value).present = e.present := by
  unfold set_execute
  split_ifs <;> simp [present]

@[simp] theorem writable_set_execute (value : Bool) :
    (e.set_execute value).writable = e.writable := by
  unfold set_execute
  split_ifs <;> simp [writable]

@[simp] theorem user_set_execute (value : Bool) : (e.set_execute value).user = e.user := by
  unfold set_execute
  split_ifs <;> simp [user]

@[simp] theorem target_set_execute (value : Bool) : (e.set_execute value).target = e.target := by
  unfold set_execute
  split_ifs <;> rfl

@[simp] theorem mmio_set_execute (value : Bool) : (e.set_execute value).mmio = e.mmio := by
  unfold set_execute
  split_ifs <;> rfl

/-- `set_execute` writes the bit `execute()` reads, since both follow the user bit. -/
@[simp] theorem execute_set_execute (value : Bool) : (e.set_execute value).execute = value := by
  unfold set_execute execute
  cases hu : e.user <;> simp [hu]

/-- Setting execute and then user leaves the page executable only when user is unchanged:
`set_execute` has set the other level's never-execute bit. -/
theorem execute_set_user_set_execute (value u : Bool) :
    ((e.set_execute value).set_user u).execute = (value && u == e.user) := by
  unfold execute set_execute
  rw [user_set_user]
  cases e.user <;> cases u <;> simp [set_user]

/-- `set_mmio` reads back as the abstract memory type: the value when it selects a
`MairType`, the old type otherwise. -/
@[simp] theorem mmio_set_mmio (value : BitVec 8) :
    (e.set_mmio value).mmio = if value ≤ 2 then value else e.mmio := by
  unfold set_mmio
  by_cases h0 : value = 0
  · simp [h0, mmio]
  by_cases h1 : value = 1
  · simp [h1, mmio]
  by_cases h2 : value = 2
  · simp [h2, mmio]
  have hgt : ¬ value ≤ 2 := by bv_omega
  rw [if_neg h0, if_neg h1, if_neg h2, if_neg hgt]

/-- `set_mmio` writes the attribute only; the other getters read flags and address. -/
theorem set_mmio_fields (value : BitVec 8) :
    (e.set_mmio value).target = e.target ∧ (e.set_mmio value).present = e.present ∧
      (e.set_mmio value).writable = e.writable ∧ (e.set_mmio value).user = e.user ∧
      (e.set_mmio value).execute = e.execute := by
  unfold set_mmio
  split_ifs <;> exact ⟨rfl, rfl, rfl, rfl, rfl⟩

/-! ### Reading back what was written -/

theorem entry_set_present (value : Bool) :
    (e.set_present value).entry = { e.entry with present := value } := by
  simp [entry, set_present, execute]

theorem entry_set_target (t : PhysAddr) :
    (e.set_target t).entry = { e.entry with target := t } := rfl

/-- **`MemoryAttr::apply` on aarch64 is the abstract one.** Whatever the descriptor, the
entry read after the four setters is the record `MemoryAttr.apply` gives: `set_execute`
reads the user bit that `set_user` has just written. -/
theorem entry_apply (a : MemoryAttr) : (e.apply a).entry = a.apply e.entry := by
  obtain ⟨ht, hp, hw, hu, hx⟩ :=
    set_mmio_fields (((e.set_user a.user).set_writable !a.readonly).set_execute a.execute) a.mmio
  simp [entry, apply, MemoryAttr.apply, ht, hp, hw, hu, hx]

/-! ### One execute level -/

/-- The entry is executable at no more than one level, its own: a user page never at EL1,
a kernel page never at EL0. -/
def OneLevel : Prop :=
  (e.user = true → e.contains .PXN = true) ∧ (e.user = false → e.contains .UXN = true)

@[simp] theorem contains_set_mmio (value : BitVec 8) (f : EF) :
    (e.set_mmio value).contains f = e.contains f := by
  unfold set_mmio
  split_ifs <;> rfl

/-- `MemoryAttr::apply` leaves one execute level, whatever the entry was: after `set_user`,
`set_execute` sets the never-execute bit of the other level. -/
theorem oneLevel_apply (a : MemoryAttr) : (e.apply a).OneLevel := by
  obtain ⟨-, -, -, hu, -⟩ :=
    set_mmio_fields (((e.set_user a.user).set_writable !a.readonly).set_execute a.execute) a.mmio
  unfold OneLevel apply
  rw [hu, contains_set_mmio, contains_set_mmio, user_set_execute, user_set_writable, user_set_user]
  unfold set_execute
  cases a.user <;> simp

theorem OneLevel.set_present {e : PageEntry} (h : e.OneLevel) (value : Bool) :
    (e.set_present value).OneLevel := by
  unfold OneLevel PageEntry.set_present
  simpa [OneLevel] using h

theorem OneLevel.set_target {e : PageEntry} (h : e.OneLevel) (t : PhysAddr) :
    (e.set_target t).OneLevel := h

end PageEntry

/-! ## The crate's table -/

/-- What `PageTableImpl` uses of the `aarch64` crate's `OffsetPageTable`, over the crate's
table `τ` and keyed by page number: `get_entry_mut`, the write through the
`&mut PageTableEntry` it gives, `map_to` and `unmap`, with what the kernel takes the crate to
do as named hypotheses. `map_to` walks four levels and asks `FrameAllocatorForAarch64` for a
frame for each of the `missing` tables below the root that the walk lacks; it fails with
`PageAlreadyMapped` on a descriptor in use and with `FrameAllocationFailed` when the
allocator runs out. `unmap` fails with `PageNotMapped` unless the descriptor is valid. -/
structure Mapper (τ : Type) where
  /-- The table of `new_bare`: a cleared root. -/
  empty : τ
  /-- `get_entry_mut(page)`: the page's descriptor, when it is in use. -/
  get_entry_mut : τ → Usize → Option PageEntry
  /-- A write through the `&mut PageTableEntry` of `get_entry_mut`. -/
  write : τ → Usize → PageEntry → τ
  /-- The number of tables below the root a walk to the page lacks. -/
  missing : τ → Usize → Nat
  /-- `map_to(page, frame, flags, attr, allocator)`; `Err` is `none`. -/
  map_to : τ → Usize → PageEntry → FrameAlloc → Option (τ × FrameAlloc)
  /-- `unmap(page)`; `Err` is `none`. -/
  unmap : τ → Usize → Option τ
  get_empty : ∀ k, get_entry_mut empty k = none
  get_write : ∀ t k d j, (get_entry_mut t k).isSome →
    get_entry_mut (write t k d) j = if j = k then some d else get_entry_mut t j
  missing_le : ∀ t k, missing t k ≤ 3
  map_to_eq_none : ∀ t k d a,
    map_to t k d a = none ↔ (get_entry_mut t k).isSome ∨ a.free.length < missing t k
  get_map_to : ∀ t k d a t' a', map_to t k d a = some (t', a') →
    ∀ j, get_entry_mut t' j = if j = k then some d else get_entry_mut t j
  free_map_to : ∀ t k d a t' a', map_to t k d a = some (t', a') →
    a'.free = a.free.drop (missing t k)
  unmap_eq_none : ∀ t k, unmap t k = none ↔ ∀ d, get_entry_mut t k = some d → d.present = false
  get_unmap : ∀ t k t', unmap t k = some t' →
    ∀ j, get_entry_mut t' j = if j = k then none else get_entry_mut t j

/-- A crate table that meets the hypotheses, to run the model on: the descriptors in use by
page number, and the tables below the root by level and the bits of the page number above
that level. -/
structure Walk where
  leaves : AList (fun _ : Usize => PageEntry)
  tables : List (Nat × Usize)

namespace Walk

/-- The tables a walk to page `k` goes through below the root. -/
def path (k : Usize) : List (Nat × Usize) := [(3, k >>> 27), (2, k >>> 18), (1, k >>> 9)]

def missing (t : Walk) (k : Usize) : Nat := ((path k).filter (· ∉ t.tables)).length

def map_to (t : Walk) (k : Usize) (d : PageEntry) (a : FrameAlloc) : Option (Walk × FrameAlloc) :=
  if k ∈ t.leaves ∨ a.free.length < t.missing k then none
  else some (⟨t.leaves.insert k d, t.tables ++ (path k).filter (· ∉ t.tables)⟩,
    ⟨a.free.drop (t.missing k)⟩)

def unmap (t : Walk) (k : Usize) : Option Walk :=
  match t.leaves.lookup k with
  | some d => if d.present then some ⟨t.leaves.erase k, t.tables⟩ else none
  | none => none

theorem lookup_insert_eq_ite (l : AList (fun _ : Usize => PageEntry)) (k j : Usize) (d : PageEntry) :
    (l.insert k d).lookup j = if j = k then some d else l.lookup j := by
  split
  · next h => rw [h, AList.lookup_insert]
  · next h => exact AList.lookup_insert_ne h

theorem lookup_erase_eq_ite (l : AList (fun _ : Usize => PageEntry)) (k j : Usize) :
    (l.erase k).lookup j = if j = k then none else l.lookup j := by
  split
  · next h => rw [h, AList.lookup_erase]
  · next h => exact AList.lookup_erase_ne h

/-- The walk table meets the hypotheses on the crate. -/
def mapper : Mapper Walk where
  empty := ⟨∅, []⟩
  get_entry_mut t k := t.leaves.lookup k
  write t k d := ⟨t.leaves.insert k d, t.tables⟩
  missing := missing
  map_to := map_to
  unmap := unmap
  get_empty _ := rfl
  get_write t k d j _ := lookup_insert_eq_ite t.leaves k j d
  missing_le t k := (List.length_filter_le _ _).trans (by rfl)
  map_to_eq_none t k d a := by
    unfold map_to
    rw [AList.lookup_isSome]
    split_ifs with h
    · exact ⟨fun _ => h, fun _ => rfl⟩
    · exact ⟨fun h' => (by cases h'), fun h' => absurd h' h⟩
  get_map_to t k d a t' a' h j := by
    unfold map_to at h
    split_ifs at h
    cases h
    exact lookup_insert_eq_ite t.leaves k j d
  free_map_to t k d a t' a' h := by
    unfold map_to at h
    split_ifs at h
    cases h
    rfl
  unmap_eq_none t k := by
    unfold unmap
    cases hd : t.leaves.lookup k with
    | none => simp
    | some d => cases hp : d.present <;> simp [hp]
  get_unmap t k t' h j := by
    unfold unmap at h
    split at h
    · split at h
      · cases h
        exact lookup_erase_eq_ite t.leaves k j
      · cases h
    · cases h

end Walk

/-! ## `PageTableImpl` -/

/-- `PageTableImpl`: the crate's table. `root_frame` and the cached `entry` serve `Drop` and
the lifetime of the `&mut dyn Entry` only. -/
structure PageTableImpl (τ : Type) where
  page_table : τ

namespace PageTableImpl

variable {τ : Type} (M : Mapper τ)

/-- `new_bare()`: an empty root table. -/
def new : PageTableImpl τ := ⟨M.empty⟩

/-- `get_entry(addr)`. -/
def get_entry (pt : PageTableImpl τ) (addr : VirtAddr) : Option PageEntry :=
  M.get_entry_mut pt.page_table (Page.of_addr addr).number

/-- `map(addr, target)`: `map_to` with `default_page() | PXN | UXN` and `MairNormal`, the
tables the walk lacks from `FrameAllocatorForAarch64`. The `unwrap` panics when `map_to`
fails; the `expect` of `get_entry` after it never does (`Mapper.get_map_to`). -/
def map (d : DefaultPage) (pt : PageTableImpl τ) (a : FrameAlloc) (addr : VirtAddr)
    (target : PhysAddr) : Option (PageTableImpl τ × FrameAlloc) :=
  (M.map_to pt.page_table (Page.of_addr addr).number
      ⟨target, insert EF.PXN (insert EF.UXN d.flags), .Normal⟩ a).map fun r => (⟨r.1⟩, r.2)

/-- Write through the `&mut dyn Entry` of the page of `addr`. -/
def update (pt : PageTableImpl τ) (addr : VirtAddr) (f : PageEntry → PageEntry) :
    PageTableImpl τ :=
  match pt.get_entry M addr with
  | some e => ⟨M.write pt.page_table (Page.of_addr addr).number (f e)⟩
  | none => pt

/-- `unmap(addr)`: the crate's `unmap(..).unwrap()`. -/
def unmap (pt : PageTableImpl τ) (addr : VirtAddr) : Option (PageTableImpl τ) :=
  (M.unmap pt.page_table (Page.of_addr addr).number).map fun t => ⟨t⟩

variable {M}

theorem get_update (pt : PageTableImpl τ) (addr : VirtAddr) (f : PageEntry → PageEntry)
    (k : Usize) :
    M.get_entry_mut (pt.update M addr f).page_table k =
      if k = (Page.of_addr addr).number then (M.get_entry_mut pt.page_table k).map f
      else M.get_entry_mut pt.page_table k := by
  unfold update get_entry
  split
  · next e he =>
    rw [M.get_write _ _ _ _ (by rw [he]; rfl)]
    split
    · next hk => rw [hk, he]; rfl
    · rfl
  · next he =>
    split
    · next hk => rw [hk, he]; rfl
    · rfl

/-- A `map` that returns wrote the page's new descriptor and changed no other. -/
theorem get_map {d : DefaultPage} {pt pt' : PageTableImpl τ} {a a' : FrameAlloc} {addr : VirtAddr}
    {target : PhysAddr} (h : pt.map M d a addr target = some (pt', a')) (k : Usize) :
    M.get_entry_mut pt'.page_table k =
      if k = (Page.of_addr addr).number then
        some ⟨target, insert EF.PXN (insert EF.UXN d.flags), .Normal⟩
      else M.get_entry_mut pt.page_table k := by
  obtain ⟨⟨t, a₁⟩, hmap, heq⟩ := Option.map_eq_some_iff.mp h
  cases heq
  exact M.get_map_to _ _ _ _ _ _ hmap k

/-- A `map` takes at most three frames, one for each table the walk lacks. -/
theorem free_length_map {d : DefaultPage} {pt pt' : PageTableImpl τ} {a a' : FrameAlloc}
    {addr : VirtAddr} {target : PhysAddr} (h : pt.map M d a addr target = some (pt', a')) :
    a.free.length ≤ a'.free.length + 3 := by
  obtain ⟨⟨t, a₁⟩, hmap, heq⟩ := Option.map_eq_some_iff.mp h
  cases heq
  rw [M.free_map_to _ _ _ _ _ _ hmap, List.length_drop]
  have := M.missing_le pt.page_table (Page.of_addr addr).number
  omega

/-- **`map` panics when the frames run out.** On a page with no descriptor, whose walk lacks
more tables than the allocator has frames, `map_to` fails and its `unwrap` panics. -/
theorem map_eq_none_of_frames (d : DefaultPage) (pt : PageTableImpl τ) (a : FrameAlloc)
    (addr : VirtAddr) (target : PhysAddr)
    (hframes : a.free.length < M.missing pt.page_table (Page.of_addr addr).number) :
    pt.map M d a addr target = none := by
  unfold map
  rw [(M.map_to_eq_none _ _ _ _).mpr (.inr hframes), Option.map_none]

theorem get_unmap {pt pt' : PageTableImpl τ} {addr : VirtAddr} (h : pt.unmap M addr = some pt')
    (k : Usize) :
    M.get_entry_mut pt'.page_table k =
      if k = (Page.of_addr addr).number then none else M.get_entry_mut pt.page_table k := by
  obtain ⟨t, hun, heq⟩ := Option.map_eq_some_iff.mp h
  cases heq
  exact M.get_unmap _ _ _ hun k

end PageTableImpl

/-! ## The aarch64 table refines the table of entries -/

/-- What the memory code does to a page table: `map`, `unmap`, and the writes it makes
through the `&mut dyn Entry` of `get_entry`. -/
inductive PtOp
  | map (addr : VirtAddr) (target : PhysAddr)
  | unmap (addr : VirtAddr)
  | set_present (addr : VirtAddr) (value : Bool)
  | set_target (addr : VirtAddr) (target : PhysAddr)
  | apply (addr : VirtAddr) (attr : MemoryAttr)

/-- The operations that ask the frame allocator for tables. -/
def PtOp.isMap : PtOp → Bool
  | .map _ _ => true
  | _ => false

/-- The operations on the table of entries, as the memory model writes them. -/
def PageTable.step (pt : PageTable) : PtOp → Option PageTable
  | .map addr target => pt.map addr target
  | .unmap addr => pt.unmap addr
  | .set_present addr value => some (pt.update addr fun e => { e with present := value })
  | .set_target addr target => some (pt.update addr fun e => { e with target })
  | .apply addr attr => some (pt.update addr attr.apply)

/-- The operations on the aarch64 table, with the frame allocator its `map` draws on. -/
def PageTableImpl.step {τ : Type} (M : Mapper τ) (d : DefaultPage) (s : PageTableImpl τ × FrameAlloc) :
    PtOp → Option (PageTableImpl τ × FrameAlloc)
  | .map addr target => s.1.map M d s.2 addr target
  | .unmap addr => (s.1.unmap M addr).map fun pt => (pt, s.2)
  | .set_present addr value => some (s.1.update M addr fun e => e.set_present value, s.2)
  | .set_target addr target => some (s.1.update M addr fun e => e.set_target target, s.2)
  | .apply addr attr => some (s.1.update M addr fun e => e.apply attr, s.2)

section Refinement

variable {τ : Type} {M : Mapper τ}

/-- The aarch64 table reads, page by page, as the table of entries. -/
def Refines (M : Mapper τ) (raw : PageTableImpl τ) (pt : PageTable) : Prop :=
  ∀ k, (M.get_entry_mut raw.page_table k).map PageEntry.entry = pt.entries.lookup k

namespace Refines

variable {raw raw' : PageTableImpl τ} {pt : PageTable}

theorem new : Refines M (PageTableImpl.new M) PageTable.new := by
  intro k
  rw [PageTableImpl.new, M.get_empty]
  rfl

theorem get_entry (h : Refines M raw pt) (addr : VirtAddr) :
    (raw.get_entry M addr).map PageEntry.entry = pt.get_entry addr :=
  h _

theorem mem_iff (h : Refines M raw pt) (k : Usize) :
    (M.get_entry_mut raw.page_table k).isSome ↔ k ∈ pt.entries := by
  rw [← AList.lookup_isSome, ← h k, Option.isSome_map]

/-- A write on descriptors that reads back as a write on entries keeps the relation. -/
theorem update (h : Refines M raw pt) (addr : VirtAddr) {f : PageEntry → PageEntry}
    {g : Entry → Entry} (hfg : ∀ d, (f d).entry = g d.entry) :
    Refines M (raw.update M addr f) (pt.update addr g) := by
  intro k
  rw [PageTableImpl.get_update, PageTable.update]
  have hget := h.get_entry addr
  unfold PageTableImpl.get_entry at hget
  cases hraw : M.get_entry_mut raw.page_table (Page.of_addr addr).number with
  | none =>
    rw [hraw, Option.map_none] at hget
    rw [← hget]
    dsimp only
    split
    · next hk =>
      subst hk
      have hn := h (Page.of_addr addr).number
      rw [hraw] at hn
      rw [hraw]
      exact hn
    · exact h k
  | some d =>
    rw [hraw, Option.map_some] at hget
    rw [← hget]
    dsimp only
    split
    · next hk =>
      rw [hk, hraw, Option.map_some, Option.map_some, hfg, AList.lookup_insert]
    · next hk => rw [AList.lookup_insert_ne hk]; exact h k

/-- The descriptor `map` writes reads as the fresh entry of the model. -/
theorem entry_default_page (dp : DefaultPage) (target : PhysAddr) :
    PageEntry.entry ⟨target, insert EF.PXN (insert EF.UXN dp.flags), .Normal⟩ =
      ⟨target, true, false, false, false, 0⟩ := by
  have hv := dp.valid
  have hw := dp.not_write
  have hu := dp.not_el0
  simp [PageEntry.entry, PageEntry.present, PageEntry.writable, PageEntry.user,
    PageEntry.execute, PageEntry.contains, PageEntry.target, PageEntry.mmio, hv, hw, hu]

/-- A `map` that returns on the aarch64 table returns on the table of entries. -/
theorem map (h : Refines M raw pt) {dp : DefaultPage} {a a' : FrameAlloc} {addr : VirtAddr}
    {target : PhysAddr} (hmap : raw.map M dp a addr target = some (raw', a')) :
    ∃ pt', pt.map addr target = some pt' ∧ Refines M raw' pt' := by
  have hfree : ¬ (M.get_entry_mut raw.page_table (Page.of_addr addr).number).isSome := by
    intro hin
    obtain ⟨⟨t, a₁⟩, hmt, -⟩ := Option.map_eq_some_iff.mp hmap
    rw [(M.map_to_eq_none _ _ _ _).mpr (.inl hin)] at hmt
    cases hmt
  refine ⟨_, if_neg fun hpt => hfree ((h.mem_iff _).mpr hpt), fun k => ?_⟩
  rw [PageTableImpl.get_map hmap k]
  split
  · next hk => rw [hk, AList.lookup_insert, Option.map_some, entry_default_page]
  · next hk => rw [AList.lookup_insert_ne hk]; exact h k

/-- An `unmap` that returns on the aarch64 table returns on the table of entries. -/
theorem unmap (h : Refines M raw pt) {addr : VirtAddr} (hun : raw.unmap M addr = some raw') :
    ∃ pt', pt.unmap addr = some pt' ∧ Refines M raw' pt' := by
  have hget := h.get_entry addr
  unfold PageTableImpl.get_entry at hget
  obtain ⟨t, hut, -⟩ := Option.map_eq_some_iff.mp hun
  -- the crate unmaps a valid descriptor only, whose entry is present
  obtain ⟨d, hd, hp⟩ : ∃ d, M.get_entry_mut raw.page_table (Page.of_addr addr).number = some d ∧
      d.present = true := by
    by_contra hno
    rw [(M.unmap_eq_none _ _).mpr fun d hd => ?_] at hut
    · cases hut
    · simpa using fun hp => hno ⟨d, hd, hp⟩
  rw [hd, Option.map_some] at hget
  refine ⟨⟨pt.entries.erase (Page.of_addr addr).number⟩, ?_, fun k => ?_⟩
  · rw [PageTable.unmap, ← hget]
    dsimp only
    rw [if_pos (show d.entry.present = true from hp)]
  · rw [PageTableImpl.get_unmap hun k]
    split
    · next hk => rw [hk, AList.lookup_erase]; rfl
    · next hk => rw [AList.lookup_erase_ne hk]; exact h k

end Refines

/-- **The aarch64 table refines the table of entries.** From tables that read alike, an
operation that returns on the aarch64 table returns on the table of entries, and the tables
read alike after it. -/
theorem PageTableImpl.refines (d : DefaultPage) :
    ForwardSim (fun s pt => Refines M s.1 pt) (PageTableImpl.step M d) PageTable.step := by
  rintro ⟨raw, a⟩ ⟨raw', a'⟩ pt op h hs
  cases op with
  | map addr target => exact h.map hs
  | unmap addr =>
    simp only [PageTableImpl.step] at hs
    obtain ⟨raw₁, hun, heq⟩ := Option.map_eq_some_iff.mp hs
    cases heq
    exact h.unmap hun
  | set_present addr value =>
    cases hs
    exact ⟨_, rfl, h.update addr fun e => e.entry_set_present value⟩
  | set_target addr target =>
    cases hs
    exact ⟨_, rfl, h.update addr fun e => e.entry_set_target target⟩
  | apply addr attr =>
    cases hs
    exact ⟨_, rfl, h.update addr fun e => e.entry_apply attr⟩

/-- With three frames at hand, an operation the table of entries takes the aarch64 table
takes too: the walk lacks at most three tables. -/
theorem PageTableImpl.step_isSome (d : DefaultPage) {s : PageTableImpl τ × FrameAlloc}
    {pt : PageTable} (h : Refines M s.1 pt) {op : PtOp} (hframes : op.isMap → 3 ≤ s.2.free.length)
    (hpt : (PageTable.step pt op).isSome) : (PageTableImpl.step M d s op).isSome := by
  cases op with
  | map addr target =>
    -- the page has no entry, and the allocator holds every table the walk lacks
    have hfree : (Page.of_addr addr).number ∉ pt.entries := by
      intro hin
      simp [PageTable.step, PageTable.map, hin] at hpt
    cases hmt : M.map_to s.1.page_table (Page.of_addr addr).number
        ⟨target, insert EF.PXN (insert EF.UXN d.flags), .Normal⟩ s.2 with
    | some r => simp [PageTableImpl.step, PageTableImpl.map, hmt]
    | none =>
      exfalso
      rcases (M.map_to_eq_none _ _ _ _).mp hmt with hin | hshort
      · exact hfree ((h.mem_iff _).mp hin)
      · have := M.missing_le s.1.page_table (Page.of_addr addr).number
        have := hframes rfl
        omega
  | unmap addr =>
    simp only [PageTable.step, PageTable.unmap] at hpt
    have hget := h.get_entry addr
    unfold PageTableImpl.get_entry at hget
    split at hpt
    · next e he =>
      split at hpt
      · next hp =>
        -- the entry is present, so the crate's descriptor is valid and `unmap` returns
        obtain ⟨dd, hdd, hde⟩ := Option.map_eq_some_iff.mp (hget.trans he)
        cases hmu : M.unmap s.1.page_table (Page.of_addr addr).number with
        | some t => simp [PageTableImpl.step, PageTableImpl.unmap, hmu]
        | none =>
          have hvalid : dd.present = true := by rw [← hde] at hp; exact hp
          rw [(M.unmap_eq_none _ _).mp hmu dd hdd] at hvalid
          cases hvalid
      · cases hpt
    · cases hpt
  | set_present | set_target | apply => rfl

/-- The allocator loses at most three frames a step, and only to a `map`. -/
theorem PageTableImpl.free_length_step (d : DefaultPage) {s s' : PageTableImpl τ × FrameAlloc}
    {op : PtOp} (hs : PageTableImpl.step M d s op = some s') :
    s.2.free.length ≤ s'.2.free.length + (if op.isMap then 3 else 0) := by
  cases op with
  | map addr target => exact PageTableImpl.free_length_map hs
  | unmap addr =>
    simp only [PageTableImpl.step] at hs
    obtain ⟨raw₁, -, heq⟩ := Option.map_eq_some_iff.mp hs
    cases heq
    simp [PtOp.isMap]
  | set_present | set_target | apply =>
    cases hs
    simp [PtOp.isMap]

/-- **With frames enough, the two tables panic together.** From tables that read alike,
with three frames for each `map` of a list, the list panics on the aarch64 table exactly
when it panics on the table of entries, and otherwise leaves tables that read alike. -/
theorem PageTableImpl.run_rel (d : DefaultPage) :
    ∀ (ops : List PtOp) {s : PageTableImpl τ × FrameAlloc} {pt : PageTable}, Refines M s.1 pt →
      3 * (ops.filter PtOp.isMap).length ≤ s.2.free.length →
      Option.Rel (fun s pt => Refines M s.1 pt) (run (PageTableImpl.step M d) s ops)
        (run PageTable.step pt ops)
  | [], s, pt, h, _ => .some h
  | op :: ops, s, pt, h, hframes => by
    rw [run_cons, run_cons]
    have hop : op.isMap → 3 ≤ s.2.free.length := fun hm => by
      simp only [List.filter_cons, hm, if_true, List.length_cons] at hframes
      omega
    cases hs : PageTableImpl.step M d s op with
    | none =>
      -- the aarch64 table panics: so does the table of entries
      cases hpt : PageTable.step pt op with
      | none => exact .none
      | some pt' =>
        have := PageTableImpl.step_isSome d h hop (by rw [hpt]; rfl)
        rw [hs] at this
        cases this
    | some s' =>
      obtain ⟨pt', hpt, h'⟩ := PageTableImpl.refines d h hs
      rw [hpt, Option.bind_some, Option.bind_some]
      refine PageTableImpl.run_rel d ops h' ?_
      have hlen := PageTableImpl.free_length_step d hs
      cases hm : op.isMap
      · simp only [List.filter_cons, hm, Bool.false_eq_true, if_false] at hframes
        simp only [hm, Bool.false_eq_true, if_false] at hlen
        omega
      · simp only [List.filter_cons, hm, if_true, List.length_cons] at hframes
        simp only [hm, if_true] at hlen
        omega

end Refinement

/-! ## One execute level over whole runs -/

namespace PageTableImpl

variable {τ : Type} {M : Mapper τ}

/-- The tables the kernel's operations reach from an empty one, with any frame allocator. -/
def Reachable (M : Mapper τ) (d : DefaultPage) : PageTableImpl τ × FrameAlloc → Prop :=
  Queen.Transition.Reachable (·.1 = new M) (Next (step M d))

/-- Every descriptor of the table is executable at one level at most. -/
def OneLevel (M : Mapper τ) (pt : PageTableImpl τ) : Prop :=
  ∀ k e, M.get_entry_mut pt.page_table k = some e → e.OneLevel

/-- A write through an entry that keeps one level keeps it for the table. -/
theorem OneLevel.update {pt : PageTableImpl τ} (h : pt.OneLevel M) (addr : VirtAddr)
    {f : PageEntry → PageEntry} (hf : ∀ e, e.OneLevel → (f e).OneLevel) :
    (pt.update M addr f).OneLevel M := by
  intro k e he
  rw [get_update] at he
  split at he
  · obtain ⟨e₀, he₀, rfl⟩ := Option.map_eq_some_iff.mp he
    exact hf e₀ (h k e₀ he₀)
  · exact h k e he

theorem OneLevel.step (d : DefaultPage) {s s' : PageTableImpl τ × FrameAlloc}
    (h : s.1.OneLevel M) {op : PtOp} (hs : step M d s op = some s') : s'.1.OneLevel M := by
  cases op with
  | map addr target =>
    intro k e he
    rw [get_map hs k] at he
    split at he
    · -- the new descriptor is executable at neither level
      cases he
      have hel0 := d.not_el0
      refine ⟨fun hu => ?_, fun _ => ?_⟩
      · simp [PageEntry.user, PageEntry.contains, hel0] at hu
      · simp [PageEntry.contains]
    · exact h k e he
  | unmap addr =>
    simp only [PageTableImpl.step] at hs
    obtain ⟨raw₁, hun, heq⟩ := Option.map_eq_some_iff.mp hs
    cases heq
    intro k e he
    rw [get_unmap hun k] at he
    split at he
    · cases he
    · exact h k e he
  | set_present addr value =>
    cases hs
    exact h.update addr fun e he => he.set_present value
  | set_target addr target =>
    cases hs
    exact h.update addr fun e he => he.set_target target
  | apply addr attr =>
    cases hs
    exact h.update addr fun e _ => e.oneLevel_apply attr

end PageTableImpl

/-- **No page is executable at both levels.** In every aarch64 table the kernel's
operations reach from an empty one, every user page has `PXN` set, so the kernel never
executes from a page user space maps, and every kernel page has `UXN` set. -/
theorem page_executable_at_one_level {τ : Type} (M : Mapper τ) (d : DefaultPage)
    {s : PageTableImpl τ × FrameAlloc} (hs : PageTableImpl.Reachable M d s) (k : Usize) (e : PageEntry)
    (he : M.get_entry_mut s.1.page_table k = some e) :
    (e.user = true → e.contains .PXN = true) ∧ (e.user = false → e.contains .UXN = true) := by
  have hinv : s.1.OneLevel M := by
    refine Queen.Transition.Reachable.inv (P := fun s => s.1.OneLevel M) ?_ ?_ hs
    · rintro s hs k e he
      rw [hs, PageTableImpl.new, M.get_empty] at he
      cases he
    · rintro s s' hinv ⟨op, hs⟩
      exact hinv.step d hs
  exact hinv k e he

/-- A user page mapped on the walk table and given its attributes: it has `PXN`. -/
theorem page_executable_at_one_level_user_page :
    let d : DefaultPage := ⟨{EF.VALID}, by simp, by simp, by simp⟩
    ∃ (s : PageTableImpl Walk × FrameAlloc) (e : PageEntry), PageTableImpl.Reachable Walk.mapper d s ∧
      Walk.mapper.get_entry_mut s.1.page_table 1 = some e ∧ e.user = true ∧
      ((e.user = true → e.contains .PXN = true) ∧ (e.user = false → e.contains .UXN = true)) := by
  intro d
  let attr : MemoryAttr := (MemoryAttr.set_user default).set_execute
  obtain ⟨s, hs, hp⟩ := exists_reachable_of_run (PageTableImpl.step Walk.mapper d)
    (PageTableImpl.new Walk.mapper, ⟨[0, 1, 2]⟩) [.map 0x1000 0x80000, .apply 0x1000 attr]
    (fun s => (Walk.mapper.get_entry_mut s.1.page_table 1).any PageEntry.user) (by decide +kernel)
  have hs' : PageTableImpl.Reachable Walk.mapper d s := hs.mono fun s hs => by rw [hs]
  obtain ⟨e, he, hu⟩ := (Option.any_eq_true _ _).mp hp
  exact ⟨s, e, hs', he, hu, page_executable_at_one_level Walk.mapper d hs' 1 e he⟩

/-- **The aarch64 page table refines the table of entries**, for any crate that behaves as
`Mapper` says. From tables that read alike, a list of `map`, `unmap` and writes through an
entry that returns on the aarch64 table returns on the table of entries, and the tables read
alike after it. With three frames for each `map` of the list, the list panics on the aarch64
table exactly when it panics on the table of entries. A `map` whose walk lacks more tables
than the allocator has frames panics on the aarch64 table wherever the table of entries
maps. -/
theorem aarch64_page_table_refines {τ : Type} (M : Mapper τ) (d : DefaultPage)
    (raw : PageTableImpl τ) (a : FrameAlloc) (pt : PageTable) (h : Refines M raw pt)
    (ops : List PtOp) :
    (∀ s', run (PageTableImpl.step M d) (raw, a) ops = some s' →
      ∃ pt', run PageTable.step pt ops = some pt' ∧ Refines M s'.1 pt') ∧
    (3 * (ops.filter PtOp.isMap).length ≤ a.free.length →
      Option.Rel (fun s pt => Refines M s.1 pt) (run (PageTableImpl.step M d) (raw, a) ops)
        (run PageTable.step pt ops)) ∧
    ∀ addr target, a.free.length < M.missing raw.page_table (Page.of_addr addr).number →
      PageTableImpl.step M d (raw, a) (.map addr target) = none :=
  ⟨fun _ hs => (PageTableImpl.refines d).run (s := (raw, a)) ops h hs,
    PageTableImpl.run_rel d ops (s := (raw, a)) h,
    fun addr target hframes => PageTableImpl.map_eq_none_of_frames d raw a addr target hframes⟩

/-- On the walk table with an empty allocator, mapping a page panics where the table of
entries maps it; with three frames the two tables map it and read alike. -/
theorem aarch64_page_table_refines_empty_allocator :
    let d : DefaultPage := ⟨{EF.VALID}, by simp, by simp, by simp⟩
    Refines Walk.mapper (PageTableImpl.new Walk.mapper) PageTable.new ∧
      Walk.mapper.missing Walk.mapper.empty (Page.of_addr 0x1000).number = 3 ∧
      (PageTable.step PageTable.new (.map 0x1000 0x80000)).isSome ∧
      PageTableImpl.step Walk.mapper d (PageTableImpl.new Walk.mapper, ⟨[]⟩) (.map 0x1000 0x80000) =
        none ∧
      Option.Rel (fun s pt => Refines Walk.mapper s.1 pt)
        (run (PageTableImpl.step Walk.mapper d) (PageTableImpl.new Walk.mapper, ⟨[0, 1, 2]⟩)
          [.map 0x1000 0x80000, .apply 0x1000 (MemoryAttr.set_user default)])
        (run PageTable.step PageTable.new
          [.map 0x1000 0x80000, .apply 0x1000 (MemoryAttr.set_user default)]) := by
  intro d
  have h := aarch64_page_table_refines Walk.mapper d (PageTableImpl.new Walk.mapper) ⟨[0, 1, 2]⟩
    PageTable.new Refines.new [.map 0x1000 0x80000, .apply 0x1000 (MemoryAttr.set_user default)]
  have h₀ := aarch64_page_table_refines Walk.mapper d (PageTableImpl.new Walk.mapper) ⟨[]⟩
    PageTable.new Refines.new []
  exact ⟨Refines.new, by decide, by decide, h₀.2.2 0x1000 0x80000 (by decide), h.2.1 (by decide)⟩

end Queen.Arch
