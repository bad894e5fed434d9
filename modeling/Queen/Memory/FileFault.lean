/-
Demand paging of ELF segments, `kernel/src/memory/handler/file.rs`: what a fault on an absent
page of a `File` area puts in the page.

`File::fill_data` reads from `file_offset = addr + file_start - mem_start`, as many bytes as
`file_end - file_offset` clamped to `[0, PAGE_SIZE]` in `isize`, and zeroes the rest of the
page. `make_memory_set` and `append_as_interpreter` push each segment from the address they
give as `mem_start`, which `push` rounds down to a page (`FileAreasAligned`). With
`file_start ≡ mem_start` modulo a page, as the ELF format asks, the offset of a page of the
area is then its distance from `mem_start` past `file_start` (`file_offset_toNat`).

The clamp measures the distance in `isize`, which is right while it fits: for a file of fewer
than `2 ^ 63` bytes (`read_size_eq`). For a file of `2 ^ 63` bytes the distance from its first
byte to its end reads as `isize::MIN`, and the first page of the segment is filled with zeros
(`file_fault_zeros_at_isize_min`).
-/
import Queen.Memory.Fork
import Queen.Process.UserVm

set_option autoImplicit false

namespace Queen.Memory

namespace MemoryHandler

/-! ## The bytes `fill_data` reads -/

/-- The `isize` clamp of `fill_data`, for an offset and an end that fit in an `isize`. -/
theorem read_size_eq {file_start file_end mem_start addr : Usize} (hfe : file_end.toNat < 2 ^ 63)
    (hfo : (addr + file_start - mem_start).toNat < 2 ^ 63) :
    read_size file_start file_end mem_start addr =
      min (file_end.toNat - (addr + file_start - mem_start).toNat) 4096 := by
  unfold read_size
  generalize addr + file_start - mem_start = fo at hfo ⊢
  have hpage : PAGE_SIZE.toInt = 4096 := by decide
  dsimp only
  rw [hpage, BitVec.toInt_eq_toNat_cond, BitVec.toNat_sub]
  split_ifs <;> omega

/-- Byte `i` of the page `fill_data` writes, for a file of fewer than `2 ^ 63` bytes that
holds `file_end`: the file's byte at offset `T + i` while it is below `file_end`, else `0`. -/
theorem file_data_getD {f : List (BitVec 8)} {mem_start file_start file_end addr : Usize} {T : Nat}
    (hT : (addr + file_start - mem_start).toNat = T) (hend : file_end.toNat ≤ f.length)
    (hsmall : f.length < 2 ^ 63) {i : Nat} (hi : i < 4096) :
    (file_data f mem_start file_start file_end addr).getD i 0 =
      if T + i < file_end.toNat then f.getD (T + i) 0 else 0 := by
  rw [file_data]
  by_cases hlt : T < f.length
  · rw [read_size_eq (by omega) (by omega), hT]
    simp only [List.getD_eq_getElem?_getD, List.getElem?_take, List.getElem?_drop]
    by_cases hin : T + i < file_end.toNat
    · rw [if_pos (by omega), if_pos hin]
    · rw [if_neg (by omega), if_neg hin]
      rfl
  · -- past the end of the file `read_at` reads nothing
    rw [hT, List.drop_eq_nil_of_le (by omega), List.take_nil, List.getD_nil, if_neg (by omega)]

/-- The offset of a page of the area, with `file_start ≡ mem_start` modulo a page and no
wrap-around: the page's distance from `mem_start`, past `file_start`. -/
theorem file_offset_toNat {mem_start file_start page : Usize} (hpage : page.toNat % 4096 = 0)
    (hge : mem_start.toNat / 4096 * 4096 ≤ page.toNat)
    (hcong : file_start.toNat % 4096 = mem_start.toNat % 4096)
    (hwrap : page.toNat + file_start.toNat < 2 ^ 64 + mem_start.toNat) :
    (page + file_start - mem_start).toNat = page.toNat + file_start.toNat - mem_start.toNat := by
  bv_omega

/-! ## A fault on an absent page -/

variable {m m' : Machine} {pt pt' : PageTable} {addr : VirtAddr}

/-- With a frame free, a fault on an absent page of a `File` area goes through. -/
theorem handle_page_fault_file_exists {f : List (BitVec 8)} {mem_start file_start file_end : Usize}
    {e : Entry} (he : pt.lookup (Page.of_addr addr).number = some e) (hp : e.present = false)
    (hfree : m.frames.free ≠ []) :
    ∃ m' pt', (file f mem_start file_start file_end).handle_page_fault m pt addr = some (true, m', pt') := by
  rcases handle_page_fault_absent _ (.inr ⟨f, mem_start, file_start, file_end, rfl⟩) he hp with
    ⟨hnil, -⟩ | ⟨m', pt', -, hfault, -⟩
  · exact absurd hnil hfree
  · exact ⟨m', pt', hfault⟩

end MemoryHandler

/-! ## The areas `make_memory_set` and `append_as_interpreter` build -/

namespace MemorySet

/-- Every `File` area starts at the page of its `mem_start`. -/
def FileAreasAligned (ms : MemorySet) : Prop :=
  ∀ a ∈ ms.areas, ∀ f mem_start file_start file_end,
    a.handler = .file f mem_start file_start file_end → a.start_addr = mem_start &&& ~~~(PAGE_SIZE - 1)

variable {ms ms' : MemorySet} {m m' : Machine}

/-- A `push` whose `File` handler, if any, starts at the pushed start keeps them aligned. -/
theorem FileAreasAligned.push (hal : ms.FileAreasAligned) {s e : VirtAddr} {attr : MemoryAttr}
    {handler : MemoryHandler}
    (hh : ∀ f mem_start file_start file_end, handler = .file f mem_start file_start file_end → mem_start = s)
    (h : ms.push m s e attr handler = some (m', ms')) : ms'.FileAreasAligned := by
  rcases push_cases h with ⟨-, rfl⟩ | ⟨area, rfl, -, -, hmem, -⟩
  · exact hal
  · intro a ha f mem_start file_start file_end hfile
    rcases (hmem a).mp ha with rfl | ha
    · -- the new area: rounded down from the handler's own `mem_start`
      rw [hh f mem_start file_start file_end hfile]
    · exact hal a ha f mem_start file_start file_end hfile

/-! ## A fault in a memory set -/

/-- With a frame free, a fault on an absent page of a `File` area of a memory set keeping its
invariant goes through. -/
theorem handle_page_fault_file_exists {addr : VirtAddr} {a : MemoryArea} {f : List (BitVec 8)}
    {mem_start file_start file_end : Usize} {e : Entry} (hinv : ms.Inv) (ha : a ∈ ms.areas)
    (hc : a.contains addr = true) (hfile : a.handler = .file f mem_start file_start file_end)
    (he : ms.page_table.lookup (Page.of_addr addr).number = some e) (hp : e.present = false)
    (hfree : m.frames.free ≠ []) : ∃ m' ms', ms.handle_page_fault m addr = some (true, m', ms') := by
  obtain ⟨m', pt', hfault⟩ : ∃ m' pt', (MemoryHandler.file f mem_start file_start file_end).handle_page_fault
      m ms.page_table addr = some (true, m', pt') :=
    MemoryHandler.handle_page_fault_file_exists he hp hfree
  refine ⟨m', { ms with page_table := pt' }, ?_⟩
  simp only [handle_page_fault, hinv.find?_contains ha hc, hfile, hfault, Option.bind_eq_bind,
    Option.bind_some]

/-- A fault on an absent page of a `File` area of a memory set keeping its invariant runs in
that area: the first free frame, aligned, is filled with the file's bytes for the page and
mapped there. -/
theorem handle_page_fault_file_area {addr : VirtAddr} {a : MemoryArea} {f : List (BitVec 8)}
    {mem_start file_start file_end : Usize} {e : Entry} {ok : Bool} (hinv : ms.Inv)
    (ha : a ∈ ms.areas) (hc : a.contains addr = true)
    (hfile : a.handler = .file f mem_start file_start file_end)
    (he : ms.page_table.lookup (Page.of_addr addr).number = some e) (hp : e.present = false)
    (hf : ms.handle_page_fault m addr = some (ok, m', ms')) :
    ∃ g : PhysAddr, g.toNat % 4096 = 0 ∧
      m'.mem = m.mem.fill_page g
        (MemoryHandler.file_data f mem_start file_start file_end (addr &&& ~~~(PAGE_SIZE - 1))) ∧
      ms'.page_table.lookup (Page.of_addr addr).number = some { e with target := g, present := true } := by
  simp only [handle_page_fault, hinv.find?_contains ha hc, hfile, Option.bind_eq_bind,
    Option.bind_eq_some_iff, Option.some.injEq, Prod.mk.injEq] at hf
  obtain ⟨⟨ok₁, m₁, pt₁⟩, hfault, -, rfl, rfl⟩ := hf
  obtain ⟨g, hframes, -, hmem, hlook⟩ := MemoryHandler.handle_page_fault_file_absent he hp hfault
  -- the frame came off the allocator's list, so it is page-aligned
  have hg : g.toNat % 4096 = 0 := FrameAlloc.aligned_of_mem_frames (hframes ▸ List.mem_cons_self)
  exact ⟨g, hg, hmem, by rw [hlook, if_pos rfl]⟩

/-- **What a fault on an absent page of a `File` area puts there.** In a memory set keeping
its invariant whose `File` areas start at the page of their `mem_start`, take a `File` area
with `file_start ≡ mem_start` modulo a page, `file_end` within a file of fewer than `2 ^ 63`
bytes, and file offsets that do not wrap. A fault in it that returns `true` makes the page
present, and byte `i` of the page is the file's byte at the page's offset plus `i` while that
is below `file_end`, and `0` from there on. -/
theorem file_fault_fills_page {addr : VirtAddr} {a : MemoryArea} {f : List (BitVec 8)}
    {mem_start file_start file_end : Usize} {e : Entry}
    (hinv : ms.Inv) (hal : ms.FileAreasAligned) (ha : a ∈ ms.areas) (hc : a.contains addr = true)
    (hfile : a.handler = .file f mem_start file_start file_end)
    (hcong : file_start.toNat % 4096 = mem_start.toNat % 4096)
    (hend : file_end.toNat ≤ f.length) (hsmall : f.length < 2 ^ 63)
    (hwrap : a.end_addr.toNat + file_start.toNat ≤ 2 ^ 64 + mem_start.toNat)
    (he : ms.page_table.lookup (Page.of_addr addr).number = some e) (hp : e.present = false)
    (hf : ms.handle_page_fault m addr = some (true, m', ms')) :
    ∃ g, ms'.page_table.lookup (Page.of_addr addr).number = some { e with target := g, present := true } ∧
      ∀ i < 4096, m'.mem (g + BitVec.ofNat 64 i) =
        if addr.toNat / 4096 * 4096 + file_start.toNat - mem_start.toNat + i < file_end.toNat
        then f.getD (addr.toNat / 4096 * 4096 + file_start.toNat - mem_start.toNat + i) 0 else 0 := by
  obtain ⟨g, hg, hmem, hlook⟩ := handle_page_fault_file_area hinv ha hc hfile he hp hf
  -- the page lies in the area, which starts at the page of `mem_start`
  have hpage := align_down_toNat addr
  have hstart := congrArg BitVec.toNat (hal a ha f mem_start file_start file_end hfile)
  rw [align_down_toNat] at hstart
  have := (hinv.wf a ha).end_aligned
  simp only [MemoryArea.contains, Bool.and_eq_true, decide_eq_true_eq, ge_iff_le, BitVec.le_def,
    BitVec.lt_def] at hc
  have hT : ((addr &&& ~~~(PAGE_SIZE - 1)) + file_start - mem_start).toNat =
      addr.toNat / 4096 * 4096 + file_start.toNat - mem_start.toNat := by
    rw [MemoryHandler.file_offset_toNat (by omega) (by omega) hcong (by omega), hpage]
  refine ⟨g, hlook, fun i hi => ?_⟩
  rw [hmem, PhysMem.fill_page_add _ _ hg (by rw [BitVec.toNat_ofNat]; omega), BitVec.toNat_ofNat,
    Nat.mod_eq_of_lt (by omega)]
  exact MemoryHandler.file_data_getD hT hend hsmall hi

/-- A new memory set with one `File` area `[0x1000, 0x2000)` whose `mem_start` is `0x1000`,
and a machine with one free frame: the page is absent, and a fault on it goes through. -/
theorem exists_file_area_fault (f : List (BitVec 8)) (file_start file_end : Usize) :
    ∃ (ms ms' : MemorySet) (m m' : Machine) (e : Entry), ms.Inv ∧ ms.FileAreasAligned ∧
      ms.areas = [⟨0x1000#64, 0x2000#64, default, .file f 0x1000#64 file_start file_end⟩] ∧
      ms.page_table.lookup (Page.of_addr 0x1000#64).number = some e ∧ e.present = false ∧
      ms.handle_page_fault m 0x1000#64 = some (true, m', ms') := by
  let m : Machine := ⟨⟨[5]⟩, fun _ => 0⟩
  let area : MemoryArea := ⟨0x1000#64, 0x2000#64, default, .file f 0x1000#64 file_start file_end⟩
  obtain ⟨m₁, ms, hpush, -, hareas⟩ := @push_exists MemorySet.new m 0x1000#64 0x2000#64 default
    (.file f 0x1000#64 file_start file_end) inv_new (by decide) (by decide) (by decide) rfl
    (fun h => nomatch h)
  have hinv := inv_push inv_new hpush
  have hal : ms.FileAreasAligned := FileAreasAligned.push (fun _ ha => by simp [MemorySet.new] at ha)
    (fun _ _ _ _ h => by cases h; rfl) hpush
  have hareas' : ms.areas = [area] := by rw [hareas]; rfl
  -- `push` maps the area's one page absent
  have hmap : area.map m MemorySet.new.page_table = some (m₁, ms.page_table) := by
    rcases push_cases hpush with ⟨-, h⟩ | ⟨area', rfl, -, -, -, hmap⟩
    · rw [h] at hareas'
      exact absurd hareas' (by simp [MemorySet.new])
    · exact hmap
  have hwf : area.WF := ⟨by simp [area], by simp [area], by simp [area]⟩
  have hpage : area.HasPage (Page.of_addr 0x1000#64).number := by
    simp [area, MemoryArea.HasPage, of_addr_number_toNat]
  have hc : area.contains 0x1000#64 = true := by simp [area, MemoryArea.contains]
  obtain ⟨e, he, hp⟩ := area.map_absent hwf (.inr ⟨_, _, _, _, rfl⟩) hmap _ hpage
  obtain ⟨m', ms', hf⟩ := handle_page_fault_file_exists (m := m) hinv
    (hareas' ▸ List.mem_singleton_self area) hc rfl he hp (by simp [m])
  exact ⟨ms, ms', m, m', e, hinv, hal, hareas', he, hp, hf⟩

/-- A file of three bytes loaded at `0x1000` from its start: the page holds them, then zeros. -/
theorem file_fault_fills_page_three_bytes :
    ∃ (ms ms' : MemorySet) (m m' : Machine) (e : Entry),
      ms.areas = [⟨0x1000#64, 0x2000#64, default, .file [7, 8, 9] 0x1000#64 0 3⟩] ∧
      ms.handle_page_fault m 0x1000#64 = some (true, m', ms') ∧
      ∃ g, ms'.page_table.lookup (Page.of_addr 0x1000#64).number =
          some { e with target := g, present := true } ∧
        ∀ i < 4096, m'.mem (g + BitVec.ofNat 64 i) =
          if (0x1000#64).toNat / 4096 * 4096 + (0 : Usize).toNat - (0x1000#64).toNat + i < (3 : Usize).toNat
          then [7, 8, 9].getD ((0x1000#64).toNat / 4096 * 4096 + (0 : Usize).toNat - (0x1000#64).toNat + i) 0
          else 0 := by
  obtain ⟨ms, ms', m, m', e, hinv, hal, hareas, he, hp, hf⟩ := exists_file_area_fault [7, 8, 9] 0 3
  refine ⟨ms, ms', m, m', e, hareas, hf, file_fault_fills_page hinv hal
    (hareas ▸ List.mem_singleton_self _) (by decide) rfl (by decide) (by decide) (by decide)
    (by decide) he hp hf⟩

/-- A file of `2 ^ 63` bytes of `1`, loaded at `0x1000` from its start, `file_end` its length.
For the first page `file_end - file_offset` is `2 ^ 63`, which reads as `isize::MIN`: the clamp
gives `0` bytes to read, and the page is all zeros where the file has `1`. -/
theorem file_fault_zeros_at_isize_min :
    ∃ (ms ms' : MemorySet) (m m' : Machine) (e : Entry) (g : PhysAddr), ms.Inv ∧ ms.FileAreasAligned ∧
      ms.areas = [⟨0x1000#64, 0x2000#64, default,
        .file (List.replicate (2 ^ 63) 1) 0x1000#64 0 (BitVec.ofNat 64 (2 ^ 63))⟩] ∧
      ms.page_table.lookup (Page.of_addr 0x1000#64).number = some e ∧ e.present = false ∧
      ms.handle_page_fault m 0x1000#64 = some (true, m', ms') ∧
      ms'.page_table.lookup (Page.of_addr 0x1000#64).number = some { e with target := g, present := true } ∧
      m'.mem g = 0 ∧ (List.replicate (2 ^ 63) (1 : BitVec 8)).getD 0 0 = 1 := by
  obtain ⟨ms, ms', m, m', e, hinv, hal, hareas, he, hp, hf⟩ :=
    exists_file_area_fault (List.replicate (2 ^ 63) 1) 0 (BitVec.ofNat 64 (2 ^ 63))
  have hc : MemoryArea.contains ⟨0x1000#64, 0x2000#64, default,
      .file (List.replicate (2 ^ 63) 1) 0x1000#64 0 (BitVec.ofNat 64 (2 ^ 63))⟩ 0x1000#64 = true := by
    simp [MemoryArea.contains]
  obtain ⟨g, hg, hmem, hlook⟩ :=
    handle_page_fault_file_area hinv (hareas ▸ List.mem_singleton_self _) hc rfl he hp hf
  -- the clamp reads `2 ^ 63` as negative
  have hread : MemoryHandler.read_size 0 (BitVec.ofNat 64 (2 ^ 63)) 0x1000#64
      (0x1000#64 &&& ~~~(PAGE_SIZE - 1)) = 0 := by decide
  have hzero : m'.mem g = 0 := by
    have hbyte := PhysMem.fill_page_add m.mem (MemoryHandler.file_data (List.replicate (2 ^ 63) 1)
      0x1000#64 0 (BitVec.ofNat 64 (2 ^ 63)) (0x1000#64 &&& ~~~(PAGE_SIZE - 1))) hg
      (k := 0) (by decide)
    rw [show g + (0 : PhysAddr) = g by simp, Usize.toNat_zero] at hbyte
    rw [hmem, hbyte, MemoryHandler.file_data, hread, List.take_zero, List.getD_nil]
  have hfirst : (List.replicate (2 ^ 63) (1 : BitVec 8)).getD 0 0 = 1 := by
    rw [List.getD_eq_getElem?_getD, List.getElem?_replicate, if_pos (by norm_num)]
    rfl
  exact ⟨ms, ms', m, m', e, g, hinv, hal, hareas, he, hp, hf, hlook, hzero, hfirst⟩

end MemorySet

end Queen.Memory

namespace Queen.Process

open Queen.Memory

namespace ElfFile

variable {elf : ElfFile} {file : List (BitVec 8)} {m m' : Machine} {vm vm' : MemorySet}

theorem fileAreasAligned_make_memory_set {bias : Usize} (hal : vm.FileAreasAligned)
    (h : elf.make_memory_set file m vm = some (m', vm', bias)) : vm'.FileAreasAligned := by
  simp only [make_memory_set, Option.bind_eq_bind, Option.bind_eq_some_iff, Option.some.injEq,
    Prod.mk.injEq] at h
  obtain ⟨⟨m₁, vm₁, farthest⟩, hfold, -, rfl, -⟩ := h
  refine Fold.foldlM_inv _ (fun _ (t : Machine × MemorySet × Usize) => t.2.1.FileAreasAligned) ?_
    hal hfold
  intro done ph rest t t' _ ht hstep
  obtain ⟨m₀, vm₀, farthest₀⟩ := t
  dsimp only at ht hstep
  split at hstep
  · cases hstep
    exact ht
  · simp only [Option.bind_eq_some_iff, Option.some.injEq] at hstep
    obtain ⟨⟨m₁, vm₁⟩, hpush, rfl⟩ := hstep
    -- the segment is pushed from its `virtual_addr`, its `mem_start`
    exact ht.push (fun _ _ _ _ h => by cases h; rfl) hpush

theorem fileAreasAligned_append_as_interpreter {bias : Usize} (hal : vm.FileAreasAligned)
    (h : elf.append_as_interpreter file m vm bias = some (m', vm')) : vm'.FileAreasAligned := by
  refine Fold.foldlM_inv _ (fun _ (t : Machine × MemorySet) => t.2.FileAreasAligned) ?_ hal h
  intro done ph rest t t' _ ht hstep
  obtain ⟨m₀, vm₀⟩ := t
  dsimp only at ht hstep
  split at hstep
  · cases hstep
    exact ht
  · exact ht.push (fun _ _ _ _ h => by cases h; rfl) hstep

end ElfFile

end Queen.Process
