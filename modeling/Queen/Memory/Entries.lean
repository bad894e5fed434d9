/-
What every page operation does to a page table, read key by key.

`PageTable::map` sets a key that was absent, `unmap` erases one that was present, `update`
rewrites one in place. Each handler operation is one of these at the page of its address,
and `EntryOf` says which entries a handler installs: the area's attributes applied, a
`Linear` page present at its fixed offset, a `ByFrame` page present, a `Delay` or `File`
page present or not. `MemoryArea::map` and `MemoryArea::unmap` are folds of these over the
pages of the area, so `Fold.foldlM_insert` and `Fold.foldlM_erase` describe them
(`MemoryArea.map_spec`, `MemoryArea.unmap_spec`), and `Fold.foldlM_collect` the frames an
unmap gives back (`MemoryArea.unmap_frees`).
-/
import Queen.Lib.Fold
import Queen.Memory.Pages

set_option autoImplicit false

namespace Queen.Memory

/-- The entry the page table holds for page `n`. -/
abbrev PageTable.lookup (pt : PageTable) (n : Usize) : Option Entry := pt.entries.lookup n

/-! ## Page-table operations -/

namespace PageTable

variable (pt : PageTable) (addr : VirtAddr)

theorem get_entry_eq : pt.get_entry addr = pt.lookup (Page.of_addr addr).number := rfl

/-- `map` sets the page's key, which was absent. -/
theorem map_spec {target : PhysAddr} {pt' : PageTable} (h : pt.map addr target = some pt') :
    pt.lookup (Page.of_addr addr).number = none ∧
      ∀ k, pt'.lookup k = if k = (Page.of_addr addr).number
        then some ⟨target, true, false, false, false, 0⟩ else pt.lookup k := by
  unfold map at h
  split at h
  · cases h
  · next hnot =>
    cases h
    refine ⟨AList.lookup_eq_none.mpr hnot, fun k => ?_⟩
    split
    · next hk => rw [hk]; exact AList.lookup_insert _
    · next hk => exact AList.lookup_insert_ne hk

/-- `update` rewrites the page's entry, if it has one. -/
theorem lookup_update (f : Entry → Entry) (k : Usize) :
    (pt.update addr f).lookup k =
      if k = (Page.of_addr addr).number then (pt.lookup k).map f else pt.lookup k := by
  unfold update
  split
  · next e he =>
    rw [get_entry_eq] at he
    split
    · next hk => rw [hk, he]; exact AList.lookup_insert _
    · next hk => exact AList.lookup_insert_ne hk
  · next he =>
    rw [get_entry_eq] at he
    split
    · next hk => rw [hk, he]; rfl
    · rfl

/-- `unmap` erases the page's key, which held a present entry. -/
theorem unmap_spec {pt' : PageTable} (h : pt.unmap addr = some pt') :
    (∃ e, pt.lookup (Page.of_addr addr).number = some e ∧ e.present = true) ∧
      ∀ k, pt'.lookup k = if k = (Page.of_addr addr).number then none else pt.lookup k := by
  unfold unmap at h
  split at h
  · next e he =>
    split at h
    · next hp =>
      cases h
      refine ⟨⟨e, he, hp⟩, fun k => ?_⟩
      split
      · next hk => rw [hk]; exact AList.lookup_erase _ _
      · next hk => exact AList.lookup_erase_ne hk
    · cases h
  · cases h

theorem page_frame_eq : pt.page_frame addr = (pt.lookup (Page.of_addr addr).number).map Entry.target :=
  rfl

end PageTable

/-! ## The entries a handler installs -/

/-- What the handler's `map` or `clone_map` leaves at the page of `addr`: the attributes of
`MemoryAttr::apply` on a fresh entry, and for `Linear` and `ByFrame` a present page,
`Linear`'s at `addr + offset`. -/
def EntryOf (h : MemoryHandler) (attr : MemoryAttr) (addr : VirtAddr) (e : Entry) : Prop :=
  e.user = attr.user ∧ e.writable = !attr.readonly ∧ e.execute = attr.execute ∧
    e.mmio = (if attr.mmio ≤ 2 then attr.mmio else 0) ∧
    match h with
    | .linear offset => e.present = true ∧ e.target = addr + offset
    | .byFrame => e.present = true
    | .delay | .file .. => True

/-- `apply` on a fresh entry gives the attributes `EntryOf` asks for. -/
theorem EntryOf.apply_fresh (h : MemoryHandler) (attr : MemoryAttr) (addr : VirtAddr)
    (e : Entry) (he : e.mmio = 0)
    (hrest : match h with
      | .linear offset => e.present = true ∧ e.target = addr + offset
      | .byFrame => e.present = true
      | .delay | .file .. => True) :
    EntryOf h attr addr (attr.apply e) := by
  refine ⟨rfl, rfl, rfl, ?_, ?_⟩
  · simp only [MemoryAttr.apply, he]
  · -- `apply` keeps the frame and the presence
    cases h
    case linear offset => exact hrest
    case byFrame => exact hrest
    case delay | file => trivial

/-- A `Delay` or `File` entry keeps `EntryOf` whatever its frame and presence. -/
theorem EntryOf.of_attrs {h : MemoryHandler} (hh : h = .delay ∨ ∃ f ms fs fe, h = .file f ms fs fe)
    {attr : MemoryAttr} {addr : VirtAddr} {e : Entry} (he : EntryOf h attr addr e)
    (target : PhysAddr) (present : Bool) :
    EntryOf h attr addr { e with target, present } := by
  obtain ⟨h1, h2, h3, h4, -⟩ := he
  refine ⟨h1, h2, h3, h4, ?_⟩
  rcases hh with rfl | ⟨f, ms, fs, fe, rfl⟩ <;> trivial

/-- An absent entry is a `Delay` or a `File` area's. -/
theorem EntryOf.lazy_of_absent {h : MemoryHandler} {attr : MemoryAttr} {addr : VirtAddr} {e : Entry}
    (he : EntryOf h attr addr e) (hp : e.present = false) :
    h = .delay ∨ ∃ f ms fs fe, h = .file f ms fs fe := by
  obtain ⟨-, -, -, -, hrest⟩ := he
  cases h with
  | linear offset =>
    rw [hrest.1] at hp
    cases hp
  | byFrame =>
    rw [hrest] at hp
    cases hp
  | delay => exact .inl rfl
  | file f ms fs fe => exact .inr ⟨f, ms, fs, fe, rfl⟩

/-- `dealloc_frame` puts the frame's id in front of the free ids and leaves the memory. -/
theorem Machine.dealloc_frame_free (m : Machine) (target : PhysAddr) :
    (m.dealloc_frame target).frames.free = (target / PAGE_SIZE) :: m.frames.free ∧
      (m.dealloc_frame target).mem = m.mem := by
  simp [Machine.dealloc_frame, GlobalFrameAlloc.dealloc, FrameAlloc.dealloc]

namespace MemoryHandler

variable (h : MemoryHandler) (m : Machine) (pt : PageTable) (addr : VirtAddr) (attr : MemoryAttr)

/-- `map` sets the page of `addr`, which was absent, to an entry of the handler. -/
theorem map_spec {m' : Machine} {pt' : PageTable} (hmap : h.map m pt addr attr = some (m', pt')) :
    pt.lookup (Page.of_addr addr).number = none ∧ ∃ e, EntryOf h attr addr e ∧
      ∀ k, pt'.lookup k = if k = (Page.of_addr addr).number then some e else pt.lookup k := by
  -- every handler maps the page, then applies the attributes to the fresh entry
  have hfresh : ∀ (pt₁ : PageTable) (target : PhysAddr) (g : Entry → Entry),
      pt.map addr target = some pt₁ → EntryOf h attr addr (g ⟨target, true, false, false, false, 0⟩) →
      pt.lookup (Page.of_addr addr).number = none ∧ ∃ e, EntryOf h attr addr e ∧
        ∀ k, (pt₁.update addr g).lookup k =
          if k = (Page.of_addr addr).number then some e else pt.lookup k := by
    intro pt₁ target g hpt₁ hentry
    obtain ⟨hnone, hlook⟩ := PageTable.map_spec pt addr hpt₁
    refine ⟨hnone, _, hentry, fun k => ?_⟩
    rw [PageTable.lookup_update, hlook]
    split <;> simp_all
  cases h
  case linear offset =>
    simp only [map, Option.bind_eq_bind, Option.bind_eq_some_iff, Option.some.injEq,
      Prod.mk.injEq] at hmap
    obtain ⟨pt₁, hpt₁, -, rfl⟩ := hmap
    exact hfresh pt₁ _ _ hpt₁ (EntryOf.apply_fresh _ _ _ _ rfl ⟨rfl, rfl⟩)
  case byFrame =>
    simp only [map, Option.bind_eq_bind, Option.bind_eq_some_iff, Option.some.injEq,
      Prod.mk.injEq] at hmap
    obtain ⟨⟨target, m₁⟩, -, pt₁, hpt₁, -, rfl⟩ := hmap
    exact hfresh pt₁ _ _ hpt₁ (EntryOf.apply_fresh _ _ _ _ rfl rfl)
  case delay | file =>
    -- mapped absent, the frame left to the first fault
    simp only [map, Option.bind_eq_bind, Option.bind_eq_some_iff, Option.some.injEq,
      Prod.mk.injEq] at hmap
    obtain ⟨pt₁, hpt₁, -, rfl⟩ := hmap
    exact hfresh pt₁ _ _ hpt₁ (EntryOf.apply_fresh _ _ _ _ rfl trivial)

/-- `Delay` and `File` take no frame: `map` leaves the machine, and the page's entry is the
fresh one made absent, with the attributes applied. -/
theorem map_eq_of_lazy (hh : h = .delay ∨ ∃ f ms fs fe, h = .file f ms fs fe) {m' : Machine}
    {pt' : PageTable} (hmap : h.map m pt addr attr = some (m', pt')) :
    m' = m ∧ ∃ pt₁, pt.map addr 0 = some pt₁ ∧
      pt' = pt₁.update addr fun e => attr.apply { e with present := false } := by
  rcases hh with rfl | ⟨f, ms, fs, fe, rfl⟩ <;>
  · simp only [map, Option.bind_eq_bind, Option.bind_eq_some_iff, Option.some.injEq,
      Prod.mk.injEq] at hmap
    obtain ⟨pt₁, hpt₁, rfl, rfl⟩ := hmap
    exact ⟨rfl, pt₁, hpt₁, rfl⟩

/-- `Delay` and `File` map the page of `addr` absent: its frame waits for the first fault. -/
theorem map_absent (hh : h = .delay ∨ ∃ f ms fs fe, h = .file f ms fs fe) {m' : Machine}
    {pt' : PageTable} (hmap : h.map m pt addr attr = some (m', pt')) :
    pt.lookup (Page.of_addr addr).number = none ∧ ∃ e : Entry, e.present = false ∧
      ∀ k, pt'.lookup k = if k = (Page.of_addr addr).number then some e else pt.lookup k := by
  obtain ⟨-, pt₁, hpt₁, rfl⟩ := map_eq_of_lazy h m pt addr attr hh hmap
  obtain ⟨hnone, hlook⟩ := PageTable.map_spec pt addr hpt₁
  refine ⟨hnone, attr.apply { (⟨0, true, false, false, false, 0⟩ : Entry) with present := false },
    rfl, fun k => ?_⟩
  rw [PageTable.lookup_update, hlook]
  split <;> simp_all

/-- `unmap` erases the page of `addr`, which had an entry. -/
theorem unmap_spec {m' : Machine} {pt' : PageTable} (hunmap : h.unmap m pt addr = some (m', pt')) :
    (pt.lookup (Page.of_addr addr).number).isSome ∧
      ∀ k, pt'.lookup k = if k = (Page.of_addr addr).number then none else pt.lookup k := by
  cases h
  case linear offset =>
    simp only [unmap, Option.map_eq_some_iff, Prod.mk.injEq] at hunmap
    obtain ⟨pt₁, hpt₁, -, rfl⟩ := hunmap
    obtain ⟨⟨e, he, -⟩, hlook⟩ := PageTable.unmap_spec pt addr hpt₁
    exact ⟨by rw [he]; rfl, hlook⟩
  case byFrame =>
    simp only [unmap, Option.bind_eq_bind, Option.bind_eq_some_iff, Option.some.injEq,
      Prod.mk.injEq] at hunmap
    obtain ⟨e, -, pt₁, hpt₁, -, rfl⟩ := hunmap
    obtain ⟨⟨e, he, -⟩, hlook⟩ := PageTable.unmap_spec pt addr hpt₁
    exact ⟨by rw [he]; rfl, hlook⟩
  case delay | file =>
    -- the entry is made present first, as `PageTable::unmap` requires
    simp only [unmap, Option.bind_eq_bind, Option.bind_eq_some_iff, Option.some.injEq,
      Prod.mk.injEq] at hunmap
    obtain ⟨e, he, pt₁, hpt₁, -, rfl⟩ := hunmap
    obtain ⟨-, hlook⟩ := PageTable.unmap_spec _ addr hpt₁
    refine ⟨by rw [← PageTable.get_entry_eq, he]; rfl, fun k => ?_⟩
    rw [hlook, PageTable.lookup_update]
    split <;> rfl

/-- The frame ids `MemoryHandler::unmap` gives back to the allocator for a page holding `e`:
`ByFrame` its frame, `Delay` and `File` the frame of a present page, `Linear` none, the id
being the one `GlobalFrameAlloc::dealloc` computes from the target. -/
def frees : MemoryHandler → Entry → List Usize
  | linear _, _ => []
  | byFrame, e => [e.target / PAGE_SIZE]
  | delay, e | file .., e => if e.present then [e.target / PAGE_SIZE] else []

/-- What a handler's `unmap` gives back: the frames `frees` names for the entry it found, in
front of the free ids, with the memory untouched. -/
theorem unmap_frees {m' : Machine} {pt' : PageTable} (hunmap : h.unmap m pt addr = some (m', pt')) :
    m'.frames.free = (pt.lookup (Page.of_addr addr).number).elim [] h.frees ++ m.frames.free ∧
      m'.mem = m.mem := by
  cases h
  case linear offset =>
    simp only [unmap, Option.map_eq_some_iff, Prod.mk.injEq] at hunmap
    obtain ⟨pt₁, hpt₁, rfl, -⟩ := hunmap
    obtain ⟨⟨e, he, -⟩, -⟩ := PageTable.unmap_spec pt addr hpt₁
    simp [he, frees]
  case byFrame =>
    simp only [unmap, Option.bind_eq_bind, Option.bind_eq_some_iff, Option.some.injEq,
      Prod.mk.injEq] at hunmap
    obtain ⟨e, he, -, -, rfl, -⟩ := hunmap
    rw [PageTable.get_entry_eq] at he
    simp [he, frees, m.dealloc_frame_free]
  case delay | file =>
    simp only [unmap, Option.bind_eq_bind, Option.bind_eq_some_iff, Option.some.injEq,
      Prod.mk.injEq] at hunmap
    obtain ⟨e, he, -, -, rfl, -⟩ := hunmap
    rw [PageTable.get_entry_eq] at he
    -- the frame goes back only when the page was present
    cases hp : e.present <;> simp [he, frees, hp, m.dealloc_frame_free]

/-- The eager copy of `clone_map` sets the page of `addr`, which was absent, to a present
entry with the attributes applied. -/
theorem copy_map_spec {src : PageTable} {m' : Machine} {pt' : PageTable}
    (hcopy : copy_map m pt src addr attr = some (m', pt')) :
    pt.lookup (Page.of_addr addr).number = none ∧ ∃ target,
      ∀ k, pt'.lookup k = if k = (Page.of_addr addr).number
        then some (attr.apply ⟨target, true, false, false, false, 0⟩) else pt.lookup k := by
  simp only [copy_map, Option.bind_eq_bind, Option.bind_eq_some_iff, Option.some.injEq,
    Prod.mk.injEq] at hcopy
  obtain ⟨-, -, ⟨target, m₁⟩, -, pt₁, hpt₁, -, -, -, rfl⟩ := hcopy
  obtain ⟨hnone, hlook⟩ := PageTable.map_spec pt addr hpt₁
  refine ⟨hnone, target, fun k => ?_⟩
  rw [PageTable.lookup_update, hlook]
  split <;> simp_all

/-- `clone_map` sets the page of `addr` in the child's table, where it was absent, to an
entry of the handler: a copy for a present `Delay` or writable `File` page, else what `map`
installs. -/
theorem clone_map_spec {src : PageTable} {m' : Machine} {pt' : PageTable}
    (hclone : h.clone_map m pt src addr attr = some (m', pt')) :
    pt.lookup (Page.of_addr addr).number = none ∧ ∃ e, EntryOf h attr addr e ∧
      ∀ k, pt'.lookup k = if k = (Page.of_addr addr).number then some e else pt.lookup k := by
  -- the copy installs a present entry, which `Delay` and `File` allow
  have hcopy : (h = .delay ∨ ∃ f ms fs fe, h = .file f ms fs fe) →
      copy_map m pt src addr attr = some (m', pt') →
      pt.lookup (Page.of_addr addr).number = none ∧ ∃ e, EntryOf h attr addr e ∧
        ∀ k, pt'.lookup k = if k = (Page.of_addr addr).number then some e else pt.lookup k := by
    intro hh hc
    obtain ⟨hnone, target, hlook⟩ := copy_map_spec m pt addr attr hc
    refine ⟨hnone, _, ?_, hlook⟩
    refine EntryOf.apply_fresh _ _ _ _ rfl ?_
    rcases hh with rfl | ⟨f, ms, fs, fe, rfl⟩ <;> trivial
  cases h
  case linear offset => exact map_spec _ m pt addr attr hclone
  case byFrame =>
    simp only [clone_map, Option.bind_eq_bind, Option.bind_eq_some_iff, Option.some.injEq,
      Prod.mk.injEq] at hclone
    obtain ⟨⟨m₁, pt₁⟩, hmap, -, -, -, -, -, rfl⟩ := hclone
    exact map_spec _ m pt addr attr hmap
  case delay =>
    simp only [clone_map, Option.bind_eq_bind, Option.bind_eq_some_iff] at hclone
    obtain ⟨e, -, hc⟩ := hclone
    split at hc
    · exact hcopy (.inl rfl) hc
    · exact map_spec _ m pt addr attr hc
  case file f ms fs fe =>
    simp only [clone_map, Option.bind_eq_bind, Option.bind_eq_some_iff] at hclone
    obtain ⟨e, -, hc⟩ := hclone
    split at hc
    · exact hcopy (.inr ⟨f, ms, fs, fe, rfl⟩) hc
    · exact map_spec _ m pt addr attr hc

end MemoryHandler

/-- The page of an address rounded down to its page is the page of the address. -/
theorem of_addr_align_down (addr : VirtAddr) :
    Page.of_addr (addr &&& ~~~(PAGE_SIZE - 1)) = Page.of_addr addr := by
  have hnum : (Page.of_addr (addr &&& ~~~(PAGE_SIZE - 1))).number = (Page.of_addr addr).number := by
    apply BitVec.eq_of_toNat_eq
    rw [of_addr_number_toNat, of_addr_number_toNat, align_down_toNat]
    omega
  show (⟨(Page.of_addr (addr &&& ~~~(PAGE_SIZE - 1))).number⟩ : Page) = ⟨(Page.of_addr addr).number⟩
  rw [hnum]

namespace MemoryHandler

variable (h : MemoryHandler) (m : Machine) (pt : PageTable) (addr : VirtAddr)

/-- `handle_page_fault` changes at most the entry of the page of `addr`: a `Delay` or `File`
page that was absent gets a frame and becomes present. -/
theorem handle_page_fault_spec {ok : Bool} {m' : Machine} {pt' : PageTable}
    (hf : h.handle_page_fault m pt addr = some (ok, m', pt')) :
    (∀ k, k ≠ (Page.of_addr addr).number → pt'.lookup k = pt.lookup k) ∧
      (pt'.lookup (Page.of_addr addr).number = pt.lookup (Page.of_addr addr).number ∨
        (h = .delay ∨ ∃ f ms fs fe, h = .file f ms fs fe) ∧ ∃ e target,
          pt.lookup (Page.of_addr addr).number = some e ∧
          pt'.lookup (Page.of_addr addr).number = some { e with target, present := true }) := by
  -- a fault that maps a frame rewrites the faulting page's entry and nothing else
  have hfill : ∀ (a : VirtAddr) (e : Entry) (frame : PhysAddr),
      Page.of_addr a = Page.of_addr addr → pt.lookup (Page.of_addr addr).number = some e →
      (∀ k, k ≠ (Page.of_addr addr).number →
        (pt.update a fun e => { e with target := frame, present := true }).lookup k = pt.lookup k) ∧
      (pt.update a fun e => { e with target := frame, present := true }).lookup
        (Page.of_addr addr).number = some { e with target := frame, present := true } := by
    intro a e frame ha he
    refine ⟨fun k hk => by rw [PageTable.lookup_update, ha, if_neg hk], ?_⟩
    rw [PageTable.lookup_update, ha, if_pos rfl, he]
    rfl
  cases h
  case linear offset =>
    simp only [handle_page_fault, Option.some.injEq, Prod.mk.injEq] at hf
    obtain ⟨-, -, rfl⟩ := hf
    exact ⟨fun _ _ => rfl, .inl rfl⟩
  case byFrame =>
    simp only [handle_page_fault, Option.some.injEq, Prod.mk.injEq] at hf
    obtain ⟨-, -, rfl⟩ := hf
    exact ⟨fun _ _ => rfl, .inl rfl⟩
  case delay =>
    simp only [handle_page_fault, Option.bind_eq_bind, Option.bind_eq_some_iff] at hf
    obtain ⟨e, he, hf⟩ := hf
    rw [PageTable.get_entry_eq] at he
    split at hf
    · simp only [Option.some.injEq, Prod.mk.injEq] at hf
      obtain ⟨-, -, rfl⟩ := hf
      exact ⟨fun _ _ => rfl, .inl rfl⟩
    · simp only [Option.bind_eq_some_iff, Option.some.injEq, Prod.mk.injEq] at hf
      obtain ⟨⟨frame, m₁⟩, -, -, -, -, -, rfl⟩ := hf
      obtain ⟨hother, hpage⟩ := hfill addr e frame rfl he
      exact ⟨hother, .inr ⟨.inl rfl, e, frame, he, hpage⟩⟩
  case file f ms fs fe =>
    simp only [handle_page_fault, Option.bind_eq_bind, Option.bind_eq_some_iff] at hf
    obtain ⟨e, he, hf⟩ := hf
    rw [PageTable.get_entry_eq, of_addr_align_down] at he
    split at hf
    · simp only [Option.some.injEq, Prod.mk.injEq] at hf
      obtain ⟨-, -, rfl⟩ := hf
      exact ⟨fun _ _ => rfl, .inl rfl⟩
    · simp only [Option.bind_eq_some_iff, Option.some.injEq, Prod.mk.injEq] at hf
      -- the file's bytes go to the frame; the table changes at the rounded-down address
      obtain ⟨⟨frame, m₁⟩, -, m₂, -, -, -, rfl⟩ := hf
      obtain ⟨hother, hpage⟩ := hfill _ e frame (of_addr_align_down addr) he
      exact ⟨hother, .inr ⟨.inr ⟨f, ms, fs, fe, rfl⟩, e, frame, he, hpage⟩⟩

end MemoryHandler

/-! ## Areas -/

theorem Page.key_of_mem {b e : VirtAddr} {p : Page} (hp : p ∈ Page.range_of b e) :
    p.key = p.number := by
  rw [Page.key, of_addr_start_address p (number_lt_of_mem_range_of hp)]

/-- Two pages of ranges with one key are the same page. -/
theorem Page.eq_of_key_eq {b e b' e' : VirtAddr} {p q : Page} (hp : p ∈ Page.range_of b e)
    (hq : q ∈ Page.range_of b' e') (h : p.key = q.key) : p = q := by
  rw [Page.key_of_mem hp, Page.key_of_mem hq] at h
  obtain ⟨pn⟩ := p
  obtain ⟨qn⟩ := q
  cases h
  rfl

namespace MemoryArea

variable (a : MemoryArea) {m m' : Machine} {pt pt' : PageTable}

theorem WF.mem_range_of {a : MemoryArea} (hwf : a.WF) {n : Usize} :
    (⟨n⟩ : Page) ∈ Page.range_of a.start_addr a.end_addr ↔ a.HasPage n := by
  rw [Memory.mem_range_of, hwf.last_page, HasPage]
  dsimp only
  have := hwf.end_pos
  omega

/-- `for_pages` of an operation that sets the page of its address, which was absent: the
pages of a well-formed area were absent and are set, the other keys are as before. -/
theorem for_pages_insert (hwf : a.WF) (op : Machine → PageTable → VirtAddr → Option (Machine × PageTable))
    (P : VirtAddr → Entry → Prop)
    (hop : ∀ m pt addr m' pt', op m pt addr = some (m', pt') →
      pt.lookup (Page.of_addr addr).number = none ∧ ∃ e, P addr e ∧
        ∀ k, pt'.lookup k = if k = (Page.of_addr addr).number then some e else pt.lookup k)
    (h : a.for_pages op m pt = some (m', pt')) :
    (∀ n, a.HasPage n → pt.lookup n = none) ∧
      (∀ n, a.HasPage n → ∃ e, pt'.lookup n = some e ∧ P (⟨n⟩ : Page).start_address e) ∧
      ∀ n, ¬ a.HasPage n → pt'.lookup n = pt.lookup n := by
  obtain ⟨hfresh, hset, hrest⟩ := Fold.foldlM_insert (fun s : Machine × PageTable => s.2.entries)
    Page.key (fun n e => P (⟨n⟩ : Page).start_address e)
    (fun ⟨m, pt⟩ x ⟨m', pt'⟩ hx hs => by
      obtain ⟨hnone, v, hv, hlook⟩ := hop m pt x.start_address m' pt' hs
      refine ⟨hnone, v, ?_, hlook⟩
      show P (⟨x.key⟩ : Page).start_address v
      rw [Page.key_of_mem hx]
      exact hv) h
  refine ⟨fun n hn => ?_, fun n hn => ?_, fun n hn => ?_⟩
  · have hp := (hwf.mem_range_of).mpr hn
    have hnone := hfresh _ hp
    rw [Page.key_of_mem hp] at hnone
    exact hnone
  · have hp := (hwf.mem_range_of).mpr hn
    have hsome := hset _ hp
    rw [Page.key_of_mem hp] at hsome
    exact hsome
  · exact hrest n (fun hmem => hn (hwf.mem_keys.mp hmem))

/-- `for_pages` of an operation that erases the page of its address, which had an entry:
every page of the range had one, and has none after; the other keys are as before. -/
theorem for_pages_erase (op : Machine → PageTable → VirtAddr → Option (Machine × PageTable))
    (hop : ∀ m pt addr m' pt', op m pt addr = some (m', pt') →
      (pt.lookup (Page.of_addr addr).number).isSome ∧
        ∀ k, pt'.lookup k = if k = (Page.of_addr addr).number then none else pt.lookup k)
    (h : a.for_pages op m pt = some (m', pt')) :
    (∀ n ∈ (Page.range_of a.start_addr a.end_addr).map Page.key, (pt.lookup n).isSome) ∧
      ∀ n, pt'.lookup n =
        if n ∈ (Page.range_of a.start_addr a.end_addr).map Page.key then none else pt.lookup n := by
  obtain ⟨hpresent, hlook⟩ := Fold.foldlM_erase (fun s : Machine × PageTable => s.2.entries)
    Page.key (fun ⟨m, pt⟩ x ⟨m', pt'⟩ _ hs => hop m pt x.start_address m' pt' hs) h
  refine ⟨fun n hn => ?_, hlook⟩
  obtain ⟨p, hp, rfl⟩ := List.mem_map.mp hn
  exact hpresent p hp

/-- `MemoryArea::map`: the pages of a well-formed area were absent, and hold entries of its
handler after. -/
theorem map_spec (hwf : a.WF) (h : a.map m pt = some (m', pt')) :
    (∀ n, a.HasPage n → pt.lookup n = none) ∧
      (∀ n, a.HasPage n → ∃ e, pt'.lookup n = some e ∧
        EntryOf a.handler a.attr (⟨n⟩ : Page).start_address e) ∧
      ∀ n, ¬ a.HasPage n → pt'.lookup n = pt.lookup n :=
  a.for_pages_insert hwf _ (EntryOf a.handler a.attr)
    (fun m pt addr _ _ hs => a.handler.map_spec m pt addr a.attr hs) h

/-- `MemoryArea::map` of a `Delay` or `File` area leaves its pages absent. -/
theorem map_absent (hwf : a.WF) (hh : a.handler = .delay ∨ ∃ f ms fs fe, a.handler = .file f ms fs fe)
    (h : a.map m pt = some (m', pt')) :
    ∀ n, a.HasPage n → ∃ e, pt'.lookup n = some e ∧ e.present = false :=
  (a.for_pages_insert hwf _ (fun _ e => e.present = false)
    (fun m pt addr _ _ hs => a.handler.map_absent m pt addr a.attr hh hs) h).2.1

/-- `MemoryArea::unmap`: every page of the range had an entry, and has none after. -/
theorem unmap_spec (h : a.unmap m pt = some (m', pt')) :
    (∀ n ∈ (Page.range_of a.start_addr a.end_addr).map Page.key, (pt.lookup n).isSome) ∧
      ∀ n, pt'.lookup n =
        if n ∈ (Page.range_of a.start_addr a.end_addr).map Page.key then none else pt.lookup n :=
  a.for_pages_erase _ (fun m pt addr _ _ hs => a.handler.unmap_spec m pt addr hs) h

/-- What `MemoryArea::unmap` gives back: page by page, the frames the handler's `unmap` frees
for the entries the pages held, the last page's in front; the memory is untouched. -/
theorem unmap_frees (h : a.unmap m pt = some (m', pt')) :
    m'.frames.free = ((Page.range_of a.start_addr a.end_addr).reverse.flatMap fun p =>
      (pt.lookup p.key).elim [] a.handler.frees) ++ m.frames.free ∧ m'.mem = m.mem := by
  have hkeys : ((Page.range_of a.start_addr a.end_addr).map Page.key).Nodup :=
    (nodup_range_of _ _).map_on fun p hp q hq hpq => Page.eq_of_key_eq hp hq hpq
  refine ⟨Fold.foldlM_collect (fun t : Machine × PageTable => t.2.entries) Page.key
    (fun t => t.1.frames.free) a.handler.frees hkeys (fun t x t' _ hs => ?_) h,
    Fold.foldlM_inv _ (fun _ t => t.1.mem = m.mem) (fun _ x _ t t' _ hmem hs => ?_) rfl h⟩
  · obtain ⟨hfree, -⟩ := a.handler.unmap_frees t.1 t.2 x.start_address hs
    obtain ⟨-, hlook⟩ := a.handler.unmap_spec t.1 t.2 x.start_address hs
    exact ⟨hfree, fun k hk => (hlook k).trans (if_neg hk)⟩
  · exact (a.handler.unmap_frees t.1 t.2 x.start_address hs).2.trans hmem

end MemoryArea

end Queen.Memory
