/-
What a fork's child sees: `MemorySet::clone` against the parent's memory set, byte by byte.

A process reads a byte through its page table, after the page fault that maps the page in
when it is absent (`MemorySet.observe_byte`). `clone` gives the child the same areas, and
each page its handler's `clone_map`: `Linear` the same frame, `ByFrame` and a present
`Delay` or writable `File` page a fresh frame with a copy of the parent's bytes, the others
an absent page that the child's first fault fills as the parent's would, with zeros or with
the file's bytes.

The copies go to frames the allocator hands out during the clone, so the child sees the
parent's bytes when those frames are none the parent's pages read: the allocator's frames are
distinct, none is in use, and no `Linear` area maps one of them. A process that only pushes
areas and takes faults keeps the first two (`Fresh`), since every frame it uses was taken from
the allocator once; the third holds of the memory sets the kernel builds for user programs,
which have no `Linear` area, and is the guard on pushing one (`UserOp.Apart`). Without it a
`ByFrame` copy lands in memory a `Linear` page of the parent shows, and the child reads the
copy there (`fork_linear_alias_changes_byte`).
-/
import Queen.Lib.Transition
import Queen.Memory.UserAccess
import Queen.Memory.Progress

set_option autoImplicit false

namespace Queen.Memory

/-! ## Frames in physical memory -/

namespace FrameAlloc

/-- The physical addresses of the free frames, in the order `GlobalFrameAlloc::alloc` hands
them out. -/
def frames (a : FrameAlloc) : List PhysAddr := a.free.map fun id => id * PAGE_SIZE + MEMORY_OFFSET

/-- Every frame starts on a page: `MEMORY_OFFSET` does, and `2 ^ 64` is a multiple of the
page size. -/
theorem aligned_of_mem_frames {a : FrameAlloc} {f : PhysAddr} (hf : f ∈ a.frames) :
    f.toNat % 4096 = 0 := by
  obtain ⟨id, -, rfl⟩ := List.mem_map.mp hf
  rw [BitVec.toNat_add, BitVec.toNat_mul, PAGE_SIZE_toNat, MEMORY_OFFSET_toNat]
  omega

theorem IsSuffix.frames {a b : FrameAlloc} (h : a.free <:+ b.free) : a.frames <:+ b.frames :=
  h.map _

end FrameAlloc

namespace Machine

/-- `alloc_frame` hands out the first free frame and touches nothing else. -/
theorem alloc_frame_spec {m m' : Machine} {f : PhysAddr} (h : m.alloc_frame = some (f, m')) :
    m.frames.frames = f :: m'.frames.frames ∧ m'.frames.free <:+ m.frames.free ∧ m'.mem = m.mem := by
  obtain ⟨⟨free⟩, mem⟩ := m
  cases free with
  | nil => cases h
  | cons id rest =>
    simp only [alloc_frame, GlobalFrameAlloc.alloc, FrameAlloc.alloc, Option.map_some,
      Option.some.injEq, Prod.mk.injEq] at h
    obtain ⟨rfl, rfl⟩ := h
    exact ⟨rfl, List.suffix_cons _ _, rfl⟩

end Machine

namespace PhysMem

/-- `x` lies in the frame at `f`: the bytes `copy_page` and `fill_page` write. -/
def InFrame (f x : PhysAddr) : Prop := f ≤ x ∧ x - f < PAGE_SIZE

variable (mem : PhysMem) {f x : PhysAddr} {k : Usize}

/-- An aligned frame does not wrap: its `k`-th byte is at `f + k`. -/
theorem toNat_add_of_aligned (hf : f.toNat % 4096 = 0) (hk : k.toNat < 4096) :
    (f + k).toNat = f.toNat + k.toNat := by
  have := f.isLt
  rw [BitVec.toNat_add]
  omega

theorem inFrame_add (hf : f.toNat % 4096 = 0) (hk : k.toNat < 4096) :
    InFrame f (f + k) ∧ f + k - f = k := by
  have hadd := toNat_add_of_aligned hf hk
  have hsub : f + k - f = k := by
    apply BitVec.eq_of_toNat_eq
    rw [Usize.toNat_sub_of_le (BitVec.le_def.mpr (by omega)), hadd]
    omega
  refine ⟨⟨BitVec.le_def.mpr (by omega), ?_⟩, hsub⟩
  rw [hsub, BitVec.lt_def, PAGE_SIZE_toNat]
  exact hk

/-- Two different aligned frames share no byte. -/
theorem not_inFrame_of_ne {g : PhysAddr} (hf : f.toNat % 4096 = 0) (hg : g.toNat % 4096 = 0)
    (hne : f ≠ g) (hk : k.toNat < 4096) : ¬ InFrame f (g + k) := by
  rintro ⟨hle, hlt⟩
  have hadd := toNat_add_of_aligned hg hk
  rw [BitVec.le_def, hadd] at hle
  rw [BitVec.lt_def, Usize.toNat_sub_of_le (BitVec.le_def.mpr (by omega)), hadd,
    PAGE_SIZE_toNat] at hlt
  exact hne (BitVec.eq_of_toNat_eq (by omega))

theorem copy_page_of_not_inFrame (dst src : PhysAddr) (h : ¬ InFrame dst x) :
    mem.copy_page dst src x = mem x :=
  if_neg h

theorem copy_page_add {dst : PhysAddr} (src : PhysAddr) (hdst : dst.toNat % 4096 = 0)
    (hk : k.toNat < 4096) : mem.copy_page dst src (dst + k) = mem (src + k) := by
  obtain ⟨hin, hsub⟩ := inFrame_add hdst hk
  unfold InFrame at hin
  rw [copy_page, if_pos hin, hsub]

theorem fill_page_of_not_inFrame (dst : PhysAddr) (data : List (BitVec 8)) (h : ¬ InFrame dst x) :
    mem.fill_page dst data x = mem x :=
  if_neg h

theorem fill_page_add {dst : PhysAddr} (data : List (BitVec 8)) (hdst : dst.toNat % 4096 = 0)
    (hk : k.toNat < 4096) : mem.fill_page dst data (dst + k) = data.getD k.toNat 0 := by
  obtain ⟨hin, hsub⟩ := inFrame_add hdst hk
  unfold InFrame at hin
  rw [fill_page, if_pos hin, hsub]

end PhysMem

/-- The start of the page of `addr` is `addr` rounded down. -/
theorem start_address_of_addr (addr : VirtAddr) :
    (Page.of_addr addr).start_address = addr &&& ~~~(PAGE_SIZE - 1) := by
  apply BitVec.eq_of_toNat_eq
  rw [start_address_toNat _ (by rw [of_addr_number_toNat]; have := addr.isLt; omega),
    of_addr_number_toNat, align_down_toNat]

/-! ## What a process reads -/

namespace MemoryHandler

/-- The bytes `File::fill_data` puts at the start of the frame of the page at `addr`. -/
def file_data (file : List (BitVec 8)) (mem_start file_start file_end : Usize) (addr : VirtAddr) :
    List (BitVec 8) :=
  (file.drop (addr + file_start - mem_start).toNat).take (read_size file_start file_end mem_start addr)

theorem fill_data_eq (file : List (BitVec 8)) (mem_start file_start file_end : Usize) (m : Machine)
    (pt : PageTable) (addr : VirtAddr) :
    fill_data file mem_start file_start file_end m pt addr = (pt.page_frame addr).map fun frame =>
      { m with mem := m.mem.fill_page frame (file_data file mem_start file_start file_end addr) } := by
  unfold fill_data
  cases pt.page_frame addr <;> rfl

end MemoryHandler

/-! ## What the handlers do to the machine -/

/-- A page mapped and then given its attributes: its entry, and every other page as before. -/
theorem PageTable.lookup_map_update {pt pt₁ : PageTable} {addr : VirtAddr} {target : PhysAddr}
    (hpt₁ : pt.map addr target = some pt₁) (g : Entry → Entry) :
    (pt₁.update addr g).lookup (Page.of_addr addr).number =
        some (g ⟨target, true, false, false, false, 0⟩) ∧
      ∀ k, k ≠ (Page.of_addr addr).number → (pt₁.update addr g).lookup k = pt.lookup k := by
  have hlook := (PageTable.map_spec pt addr hpt₁).2
  refine ⟨?_, fun k hk => ?_⟩
  · rw [PageTable.lookup_update, if_pos rfl, hlook, if_pos rfl]
    rfl
  · rw [PageTable.lookup_update, if_neg hk, hlook, if_neg hk]

namespace MemoryHandler

variable (h : MemoryHandler) {m m' : Machine} {pt pt' : PageTable} {addr : VirtAddr}
  {attr : MemoryAttr}

/-- `map` leaves the memory as it is; `ByFrame` takes the first free frame, as the page's
target, and the others no frame. -/
theorem map_frames (hmap : h.map m pt addr attr = some (m', pt')) :
    m'.mem = m.mem ∧ m'.frames.free <:+ m.frames.free ∧
      (h = .byFrame → ∃ e, pt'.lookup (Page.of_addr addr).number = some e ∧
        m.frames.frames = e.target :: m'.frames.frames) := by
  cases h
  case byFrame =>
    simp only [map, Option.bind_eq_bind, Option.bind_eq_some_iff, Option.some.injEq,
      Prod.mk.injEq] at hmap
    obtain ⟨⟨target, m₁⟩, halloc, pt₁, hpt₁, rfl, rfl⟩ := hmap
    obtain ⟨hframes, hsuffix, hmem⟩ := Machine.alloc_frame_spec halloc
    refine ⟨hmem, hsuffix, fun _ => ⟨attr.apply ⟨target, true, false, false, false, 0⟩, ?_, hframes⟩⟩
    rw [PageTable.lookup_update, if_pos rfl, (PageTable.map_spec pt addr hpt₁).2, if_pos rfl]
    rfl
  all_goals
    simp only [map, Option.bind_eq_bind, Option.bind_eq_some_iff, Option.some.injEq,
      Prod.mk.injEq] at hmap
    obtain ⟨pt₁, -, rfl, rfl⟩ := hmap
    exact ⟨rfl, List.suffix_refl _, fun h => by cases h⟩

/-- The eager copy takes the first free frame and copies the parent's frame into it. -/
theorem copy_map_frames {src : PageTable} {e : Entry}
    (hsrc : src.lookup (Page.of_addr addr).number = some e)
    (hcopy : copy_map m pt src addr attr = some (m', pt')) :
    ∃ e', pt'.lookup (Page.of_addr addr).number = some e' ∧
      (∀ k, k ≠ (Page.of_addr addr).number → pt'.lookup k = pt.lookup k) ∧ e'.present = true ∧
      m.frames.frames = e'.target :: m'.frames.frames ∧ m'.frames.free <:+ m.frames.free ∧
      m'.mem = m.mem.copy_page e'.target e.target := by
  simp only [copy_map, PageTable.page_frame_eq, hsrc, Option.map_some, Option.bind_eq_bind,
    Option.bind_some, Option.bind_eq_some_iff, Option.some.injEq, Prod.mk.injEq] at hcopy
  obtain ⟨⟨target, m₁⟩, halloc, pt₁, hpt₁, frame, hframe, rfl, rfl⟩ := hcopy
  obtain ⟨hframes, hsuffix, hmem⟩ := Machine.alloc_frame_spec halloc
  obtain ⟨hpage, hother⟩ := PageTable.lookup_map_update hpt₁ attr.apply
  -- the frame `get_page_slice_mut` finds is the one just mapped
  rw [hpage, Option.map_some, Option.some.injEq] at hframe
  subst hframe
  exact ⟨_, hpage, hother, rfl, hframes, hsuffix, by rw [hmem]⟩

/-- **What `clone_map` does.** The child's page gets `Linear`'s same frame, or an absent
entry with the machine untouched, or the first free frame holding a copy of the parent's
frame: `ByFrame` always, `Delay` and `File` for a present page. -/
theorem clone_map_cases {src : PageTable} {e : Entry}
    (hsrc : src.lookup (Page.of_addr addr).number = some e)
    (hclone : h.clone_map m pt src addr attr = some (m', pt')) :
    ∃ e', pt'.lookup (Page.of_addr addr).number = some e' ∧
      (∀ k, k ≠ (Page.of_addr addr).number → pt'.lookup k = pt.lookup k) ∧
      ((m' = m ∧ e'.present = true ∧ ∃ o, h = .linear o ∧ e'.target = addr + o) ∨
        (m' = m ∧ e'.present = false ∧ (h = .delay ∧ e.present = false ∨
          ∃ f ms fs fe, h = .file f ms fs fe ∧ (e.present = false ∨ attr.readonly = true))) ∨
        (e'.present = true ∧ m.frames.frames = e'.target :: m'.frames.frames ∧
          m'.frames.free <:+ m.frames.free ∧ m'.mem = m.mem.copy_page e'.target e.target ∧
          (h = .byFrame ∨ e.present = true) ∧ ∀ o, h ≠ .linear o)) := by
  -- `Delay` and `File` map an absent page and leave the machine
  have habsent : h = .delay ∨ (∃ f ms fs fe, h = .file f ms fs fe) →
      h.map m pt addr attr = some (m', pt') →
      m' = m ∧ ∃ e', pt'.lookup (Page.of_addr addr).number = some e' ∧
        (∀ k, k ≠ (Page.of_addr addr).number → pt'.lookup k = pt.lookup k) ∧ e'.present = false := by
    intro hh hmap
    obtain ⟨rfl, pt₁, hpt₁, rfl⟩ := map_eq_of_lazy _ m pt addr attr hh hmap
    obtain ⟨hpage, hother⟩ := PageTable.lookup_map_update hpt₁
      (fun e => attr.apply { e with present := false })
    exact ⟨rfl, _, hpage, hother, rfl⟩
  have hentry : src.get_entry addr = some e := hsrc
  cases h
  case linear o =>
    simp only [clone_map, map, Option.bind_eq_bind, Option.bind_eq_some_iff, Option.some.injEq,
      Prod.mk.injEq] at hclone
    obtain ⟨pt₁, hpt₁, rfl, rfl⟩ := hclone
    obtain ⟨hpage, hother⟩ := PageTable.lookup_map_update hpt₁ attr.apply
    exact ⟨_, hpage, hother, .inl ⟨rfl, rfl, o, rfl, rfl⟩⟩
  case byFrame =>
    simp only [clone_map, PageTable.page_frame_eq, hsrc, Option.map_some, Option.bind_eq_bind,
      Option.bind_some, Option.bind_eq_some_iff, Option.some.injEq, Prod.mk.injEq] at hclone
    obtain ⟨⟨m₁, pt₁⟩, hmap, frame, hframe, rfl, rfl⟩ := hclone
    obtain ⟨hmem, hsuffix, hnew⟩ := map_frames _ hmap
    obtain ⟨e', hpage, hframes⟩ := hnew rfl
    obtain ⟨-, e'', hof, hlook⟩ := map_spec _ m pt addr attr hmap
    rw [hpage, Option.map_some, Option.some.injEq] at hframe
    subst hframe
    -- `map`'s entry is a `ByFrame` entry, so present
    have he'' : e' = e'' := by
      rw [hlook, if_pos rfl] at hpage
      exact (Option.some.inj hpage).symm
    obtain ⟨-, -, -, -, hpresent⟩ := hof
    refine ⟨e', hpage, fun k hk => by rw [hlook, if_neg hk], .inr (.inr ⟨he'' ▸ hpresent, hframes,
      hsuffix, by rw [hmem], .inl rfl, fun o h => by cases h⟩)⟩
  case delay =>
    simp only [clone_map, hentry, Option.bind_eq_bind, Option.bind_some] at hclone
    split at hclone
    · next hp =>
      obtain ⟨e', hpage, hother, hpresent, hframes, hsuffix, hmem⟩ := copy_map_frames hsrc hclone
      exact ⟨e', hpage, hother, .inr (.inr ⟨hpresent, hframes, hsuffix, hmem, .inr hp,
        fun o h => by cases h⟩)⟩
    · next hp =>
      obtain ⟨rfl, e', hpage, hother, hpresent⟩ := habsent (.inl rfl) hclone
      exact ⟨e', hpage, hother, .inr (.inl ⟨rfl, hpresent, .inl ⟨rfl, by simpa using hp⟩⟩)⟩
  case file f ms fs fe =>
    simp only [clone_map, hentry, Option.bind_eq_bind, Option.bind_some] at hclone
    split at hclone
    · next hp =>
      obtain ⟨e', hpage, hother, hpresent, hframes, hsuffix, hmem⟩ := copy_map_frames hsrc hclone
      have hp' : e.present = true := by simp_all
      exact ⟨e', hpage, hother, .inr (.inr ⟨hpresent, hframes, hsuffix, hmem, .inr hp',
        fun o h => by cases h⟩)⟩
    · next hp =>
      obtain ⟨rfl, e', hpage, hother, hpresent⟩ := habsent (.inr ⟨f, ms, fs, fe, rfl⟩) hclone
      refine ⟨e', hpage, hother, .inr (.inl ⟨rfl, hpresent, .inr ⟨f, ms, fs, fe, rfl, ?_⟩⟩)⟩
      cases hpe : e.present <;> cases hro : attr.readonly <;> simp_all

/-- The fault's new entry: the old one with the frame as target, present. -/
theorem lookup_update_fault {pt : PageTable} {a : VirtAddr} {e : Entry} (frame : PhysAddr)
    (ha : Page.of_addr a = Page.of_addr addr) (he : pt.lookup (Page.of_addr addr).number = some e)
    (k : Usize) :
    (pt.update a fun e => { e with target := frame, present := true }).lookup k =
      if k = (Page.of_addr addr).number then some { e with target := frame, present := true }
      else pt.lookup k := by
  rw [PageTable.lookup_update, ha]
  split
  · next hk => rw [hk, he]; rfl
  · rfl

/-- A fault on an absent page of a `File` area maps the first free frame there, filled with
the file's bytes for the page. -/
theorem handle_page_fault_file_absent {f : List (BitVec 8)} {mem_start file_start file_end : Usize}
    {e : Entry} {ok : Bool} (he : pt.lookup (Page.of_addr addr).number = some e)
    (hp : e.present = false)
    (hf : (file f mem_start file_start file_end).handle_page_fault m pt addr = some (ok, m', pt')) :
    ∃ g, m.frames.frames = g :: m'.frames.frames ∧ m'.frames.free <:+ m.frames.free ∧
      m'.mem = m.mem.fill_page g (file_data f mem_start file_start file_end (addr &&& ~~~(PAGE_SIZE - 1))) ∧
      ∀ k, pt'.lookup k = if k = (Page.of_addr addr).number
        then some { e with target := g, present := true } else pt.lookup k := by
  simp only [handle_page_fault, Option.bind_eq_bind, Option.bind_eq_some_iff] at hf
  obtain ⟨e', he', hf⟩ := hf
  rw [PageTable.get_entry_eq, of_addr_align_down, he, Option.some.injEq] at he'
  subst he'
  rw [hp, if_neg Bool.false_ne_true] at hf
  simp only [Option.bind_eq_some_iff, Option.some.injEq, Prod.mk.injEq] at hf
  obtain ⟨⟨frame, m₁⟩, halloc, m₂, hfill, -, rfl, rfl⟩ := hf
  obtain ⟨hframes, hsuffix, hmem⟩ := Machine.alloc_frame_spec halloc
  have hlook := lookup_update_fault frame (of_addr_align_down addr) he
  -- `fill_data` writes the frame the rounded-down address now maps
  rw [fill_data_eq, PageTable.page_frame_eq, of_addr_align_down, hlook, if_pos rfl,
    Option.map_some, Option.map_some, Option.some.injEq] at hfill
  subst hfill
  exact ⟨frame, hframes, hsuffix, by rw [hmem], hlook⟩

/-- **What a fault does.** Nothing; or, for an absent `Delay` or `File` page, the first free
frame becomes its present target, filled with zeros or with the file's bytes. -/
theorem handle_page_fault_cases {ok : Bool}
    (hf : h.handle_page_fault m pt addr = some (ok, m', pt')) :
    (m' = m ∧ pt' = pt) ∨
      ∃ e g data, pt.lookup (Page.of_addr addr).number = some e ∧ e.present = false ∧
        m.frames.frames = g :: m'.frames.frames ∧ m'.frames.free <:+ m.frames.free ∧
        m'.mem = m.mem.fill_page g data ∧
        (∀ k, pt'.lookup k = if k = (Page.of_addr addr).number
          then some { e with target := g, present := true } else pt.lookup k) ∧
        (h = .delay → data = []) ∧
        ∀ f ms fs fe, h = .file f ms fs fe →
          data = file_data f ms fs fe (addr &&& ~~~(PAGE_SIZE - 1)) := by
  cases h
  case linear o =>
    simp only [handle_page_fault, Option.some.injEq, Prod.mk.injEq] at hf
    exact .inl ⟨hf.2.1.symm, hf.2.2.symm⟩
  case byFrame =>
    simp only [handle_page_fault, Option.some.injEq, Prod.mk.injEq] at hf
    exact .inl ⟨hf.2.1.symm, hf.2.2.symm⟩
  case delay =>
    simp only [handle_page_fault, Option.bind_eq_bind, Option.bind_eq_some_iff] at hf
    obtain ⟨e, he, hf⟩ := hf
    rw [PageTable.get_entry_eq] at he
    split at hf
    · -- a present page: not a delay case
      simp only [Option.some.injEq, Prod.mk.injEq] at hf
      exact .inl ⟨hf.2.1.symm, hf.2.2.symm⟩
    · next hp =>
      simp only [Option.bind_eq_some_iff, Option.some.injEq, Prod.mk.injEq] at hf
      obtain ⟨⟨frame, m₁⟩, halloc, page, hpage, -, rfl, rfl⟩ := hf
      obtain ⟨hframes, hsuffix, hmem⟩ := Machine.alloc_frame_spec halloc
      have hlook := lookup_update_fault frame rfl he
      -- the page's frame is the one just given
      rw [PageTable.page_frame_eq, hlook, if_pos rfl, Option.map_some, Option.some.injEq] at hpage
      subst hpage
      exact .inr ⟨e, _, [], he, by simpa using hp, hframes, hsuffix, by rw [hmem], hlook,
        fun _ => rfl, fun _ _ _ _ h => by cases h⟩
  case file f ms fs fe =>
    have hf' := hf
    simp only [handle_page_fault, Option.bind_eq_bind, Option.bind_eq_some_iff] at hf'
    obtain ⟨e, he, hf'⟩ := hf'
    rw [PageTable.get_entry_eq, of_addr_align_down] at he
    cases hp : e.present
    · obtain ⟨g, hframes, hsuffix, hmem, hlook⟩ := handle_page_fault_file_absent he hp hf
      refine .inr ⟨e, g, _, he, hp, hframes, hsuffix, hmem, hlook, (fun h => by cases h),
        fun f' ms' fs' fe' h => ?_⟩
      cases h
      rfl
    · -- a present page: nothing changes
      rw [hp, if_pos rfl] at hf'
      simp only [Option.some.injEq, Prod.mk.injEq] at hf'
      exact .inl ⟨hf'.2.1.symm, hf'.2.2.symm⟩

/-- A fault on an absent `Delay` or `File` page asks the allocator for a frame: it panics when
none is free, and otherwise makes the page present. -/
theorem handle_page_fault_absent {e : Entry} (hh : h = .delay ∨ ∃ f ms fs fe, h = .file f ms fs fe)
    (he : pt.lookup (Page.of_addr addr).number = some e) (hp : e.present = false) :
    (m.frames.free = [] ∧ h.handle_page_fault m pt addr = none) ∨
      ∃ m' pt' g, h.handle_page_fault m pt addr = some (true, m', pt') ∧
        pt'.lookup (Page.of_addr addr).number = some { e with target := g, present := true } := by
  cases hfree : m.frames.free with
  | nil =>
    refine .inl ⟨rfl, ?_⟩
    rcases hh with rfl | ⟨f, ms, fs, fe, rfl⟩
    · simp [handle_page_fault, PageTable.get_entry_eq, he, hp, Machine.alloc_frame,
        GlobalFrameAlloc.alloc, FrameAlloc.alloc, hfree]
    · simp only [handle_page_fault, PageTable.get_entry_eq, of_addr_align_down, he, hp,
        Bool.false_eq_true, if_false, Machine.alloc_frame, GlobalFrameAlloc.alloc, FrameAlloc.alloc,
        hfree, Option.map_none, Option.bind_eq_bind, Option.bind_some, Option.bind_none]
  | cons id rest =>
    refine .inr ?_
    rcases hh with rfl | ⟨f, ms, fs, fe, rfl⟩
    · have hlook := lookup_update_fault (id * PAGE_SIZE + MEMORY_OFFSET) rfl he
      simp only [handle_page_fault, PageTable.get_entry_eq, he, hp,
        Bool.false_eq_true, if_false, Machine.alloc_frame, GlobalFrameAlloc.alloc, FrameAlloc.alloc,
        hfree, Option.map_some, Option.bind_eq_bind, Option.bind_some,
        PageTable.page_frame_eq, hlook, if_true]
      exact ⟨_, _, _, rfl, by rw [hlook, if_pos rfl]⟩
    · have hlook := lookup_update_fault (id * PAGE_SIZE + MEMORY_OFFSET) (of_addr_align_down addr) he
      simp only [handle_page_fault, PageTable.get_entry_eq, of_addr_align_down, he, hp,
        Bool.false_eq_true, if_false, Machine.alloc_frame, GlobalFrameAlloc.alloc, FrameAlloc.alloc,
        hfree, Option.map_some, Option.bind_eq_bind, Option.bind_some, fill_data_eq,
        PageTable.page_frame_eq, hlook, if_true]
      exact ⟨_, _, _, rfl, by rw [hlook, if_pos rfl]⟩
end MemoryHandler

namespace MemorySet

/-- The byte the owner of `ms` reads at `addr`: through its page table, after the fault that
maps the page in when it is absent; `none` when that fault panics or leaves it absent. -/
def observe_byte (ms : MemorySet) (m : Machine) (addr : VirtAddr) : Option (BitVec 8) :=
  match ms.page_table.translate false addr with
  | some pa => some (m.mem pa)
  | none => do
    let (_, m, ms) ← ms.handle_page_fault m addr
    let pa ← ms.page_table.translate false addr
    some (m.mem pa)

/-- The offset of an address in its page. -/
theorem page_offset_lt (addr : VirtAddr) : (addr &&& (PAGE_SIZE - 1)).toNat < 4096 := by
  have hmask : (PAGE_SIZE - 1).toNat = 4095 := by decide
  rw [BitVec.toNat_and, hmask]
  exact Nat.lt_of_le_of_lt Nat.and_le_right (by norm_num)

variable {ms : MemorySet} {m : Machine} {addr : VirtAddr}

/-- Under the invariant, the area `handle_page_fault` finds for an address is the one that
contains it. -/
theorem Inv.find?_contains (hinv : ms.Inv) {a : MemoryArea} (ha : a ∈ ms.areas)
    (hc : a.contains addr = true) : ms.areas.find? (fun b => b.contains addr) = some a := by
  obtain ⟨b, hb⟩ := Option.isSome_iff_exists.mp
    ((List.find?_isSome (p := fun b => b.contains addr)).mpr ⟨a, ha, hc⟩)
  have hbmem := List.mem_of_find?_eq_some hb
  have hbc := List.find?_some hb
  rw [hb, hinv.eq_of_hasPage hbmem ha ((hinv.wf b hbmem).hasPage_of_contains hbc)
    ((hinv.wf a ha).hasPage_of_contains hc)]

/-- A present page is read through its entry. -/
theorem observe_byte_of_present {e : Entry}
    (he : ms.page_table.lookup (Page.of_addr addr).number = some e) (hp : e.present = true) :
    ms.observe_byte m addr = some (m.mem (e.target + (addr &&& (PAGE_SIZE - 1)))) := by
  have htrans : ms.page_table.translate false addr = some (e.target + (addr &&& (PAGE_SIZE - 1))) := by
    unfold PageTable.translate
    rw [PageTable.get_entry_eq, he]
    simp [hp]
  rw [observe_byte, htrans]

/-- An absent page reads, after its fault, as a zero under `Delay` and as the file's byte
under `File`. -/
theorem Inv.observe_byte_of_absent (hinv : ms.Inv) {a : MemoryArea} (ha : a ∈ ms.areas)
    (hc : a.contains addr = true) {e : Entry}
    (he : ms.page_table.lookup (Page.of_addr addr).number = some e) (hp : e.present = false)
    {b : BitVec 8} (hb : ms.observe_byte m addr = some b) :
    (a.handler = .delay → b = 0) ∧
      ∀ f mem_start file_start file_end, a.handler = .file f mem_start file_start file_end →
        b = (MemoryHandler.file_data f mem_start file_start file_end
          (addr &&& ~~~(PAGE_SIZE - 1))).getD (addr &&& (PAGE_SIZE - 1)).toNat 0 := by
  have hnone := PageTable.translate_eq_none_of_absent he hp false
  simp only [observe_byte, hnone, handle_page_fault, hinv.find?_contains ha hc,
    Option.bind_eq_bind, Option.bind_eq_some_iff] at hb
  obtain ⟨⟨ok, m₁, ms₁⟩, ⟨⟨ok', m₂, pt₂⟩, hfault, hms⟩, pa, htrans, hb⟩ := hb
  simp only [Option.some.injEq, Prod.mk.injEq] at hms hb
  obtain ⟨-, rfl, rfl⟩ := hms
  subst hb
  rcases a.handler.handle_page_fault_cases hfault with ⟨-, rfl⟩ | ⟨e₀, g, data, he₀, -, hframes, -,
    hmem, hlook, hdelay, hfile⟩
  · -- a fault that maps nothing leaves the page absent
    rw [hnone] at htrans
    cases htrans
  · rw [he] at he₀
    cases he₀
    -- the page now reads from the start of the new frame, filled with `data`
    have hg : g.toNat % 4096 = 0 := FrameAlloc.aligned_of_mem_frames (by rw [hframes]; simp)
    have htrans' : pa = g + (addr &&& (PAGE_SIZE - 1)) := by
      unfold PageTable.translate at htrans
      rw [PageTable.get_entry_eq, hlook, if_pos rfl] at htrans
      simpa using htrans.symm
    have hbyte : m₂.mem pa = data.getD (addr &&& (PAGE_SIZE - 1)).toNat 0 := by
      rw [htrans', hmem, PhysMem.fill_page_add _ _ hg (page_offset_lt addr)]
    refine ⟨fun hd => by rw [hbyte, hdelay hd]; simp, fun f ms fs fe hf => ?_⟩
    rw [hbyte, hfile f ms fs fe hf]

/-- Under the invariant every address of an area reads, an absent page after the fault that
maps it in, unless that fault finds no free frame and panics. -/
theorem Inv.observe_byte_cases (hinv : ms.Inv) {a : MemoryArea} (ha : a ∈ ms.areas)
    (hc : a.contains addr = true) :
    (∃ b, ms.observe_byte m addr = some b) ∨ (m.frames.free = [] ∧ ms.observe_byte m addr = none) := by
  have hn := (hinv.wf a ha).hasPage_of_contains hc
  obtain ⟨e, he⟩ := Option.isSome_iff_exists.mp (hinv.covers.mapped a ha _ hn)
  cases hp : e.present
  · -- an absent page is a `Delay` or `File` page, read after its fault
    have hh := (hinv.entry_of_owner he ha hn).lazy_of_absent hp
    have hnone := PageTable.translate_eq_none_of_absent he hp false
    rcases MemoryHandler.handle_page_fault_absent _ (m := m) hh he hp with ⟨hfree, hfault⟩ |
      ⟨m', pt', g, hfault, hlook⟩
    · refine .inr ⟨hfree, ?_⟩
      simp only [observe_byte, hnone, handle_page_fault, hinv.find?_contains ha hc, hfault,
        Option.bind_eq_bind, Option.bind_none]
    · have htrans : pt'.translate false addr = some (g + (addr &&& (PAGE_SIZE - 1))) := by
        unfold PageTable.translate
        rw [PageTable.get_entry_eq, hlook]
        simp
      refine .inl ⟨m'.mem (g + (addr &&& (PAGE_SIZE - 1))), ?_⟩
      simp only [observe_byte, hnone, handle_page_fault, hinv.find?_contains ha hc, hfault,
        Option.bind_eq_bind, Option.bind_some, htrans]
  · exact .inl ⟨_, observe_byte_of_present he hp⟩

/-- **What `push` does.** Nothing for an empty range; else it adds the area of the range
rounded out to pages, well formed and overlapping no other, and maps it. -/
theorem push_cases {s e : VirtAddr} {attr : MemoryAttr} {handler : MemoryHandler} {m' : Machine}
    {ms' : MemorySet} (h : ms.push m s e attr handler = some (m', ms')) :
    (m' = m ∧ ms' = ms) ∨
      ∃ area : MemoryArea, area = ⟨s &&& ~~~(PAGE_SIZE - 1), (e + PAGE_SIZE - 1) &&& ~~~(PAGE_SIZE - 1),
          attr, handler⟩ ∧ area.WF ∧ ms.test_free_area area.start_addr area.end_addr = true ∧
        (∀ b, b ∈ ms'.areas ↔ b = area ∨ b ∈ ms.areas) ∧ area.map m ms.page_table = some (m', ms'.page_table) := by
  unfold push at h
  split at h
  · cases h
    exact .inl ⟨rfl, rfl⟩
  dsimp only at h
  split at h
  · next hok =>
    obtain ⟨hlt, hfree⟩ := hok
    simp only [Option.bind_eq_bind, Option.bind_eq_some_iff, Option.some.injEq] at h
    obtain ⟨⟨m₁, pt₁⟩, hmap, h⟩ := h
    cases h
    -- the rounded bounds are aligned
    have hs := align_down_toNat s
    have he := align_down_toNat (e + PAGE_SIZE - 1)
    rw [BitVec.lt_def] at hlt
    exact .inr ⟨_, rfl, ⟨by dsimp only; rw [hs]; omega, by dsimp only; rw [he]; omega, hlt⟩, hfree,
      fun b => List.mem_insertIdx List.findIdx_le_length, hmap⟩
  · cases h

/-- **What a fault does**, for a memory set: nothing, or the fault of `handle_page_fault_cases`
in the area that contains the address. -/
theorem handle_page_fault_cases {ok : Bool} {m' : Machine} {ms' : MemorySet}
    (h : ms.handle_page_fault m addr = some (ok, m', ms')) :
    (m' = m ∧ ms' = ms) ∨
      ∃ a ∈ ms.areas, a.contains addr = true ∧ ms'.areas = ms.areas ∧
        ∃ e g data, ms.page_table.lookup (Page.of_addr addr).number = some e ∧ e.present = false ∧
          m.frames.frames = g :: m'.frames.frames ∧ m'.frames.free <:+ m.frames.free ∧
          m'.mem = m.mem.fill_page g data ∧
          (∀ k, ms'.page_table.lookup k = if k = (Page.of_addr addr).number
            then some { e with target := g, present := true } else ms.page_table.lookup k) ∧
          (a.handler = .delay → data = []) ∧
          ∀ f mem_start file_start file_end, a.handler = .file f mem_start file_start file_end →
            data = MemoryHandler.file_data f mem_start file_start file_end (addr &&& ~~~(PAGE_SIZE - 1)) := by
  unfold handle_page_fault at h
  split at h
  · next a hfind =>
    simp only [Option.bind_eq_bind, Option.bind_eq_some_iff, Option.some.injEq, Prod.mk.injEq] at h
    obtain ⟨⟨ok₁, m₁, pt₁⟩, hfault, -, rfl, rfl⟩ := h
    rcases a.handler.handle_page_fault_cases hfault with ⟨rfl, rfl⟩ | hcase
    · exact .inl ⟨rfl, rfl⟩
    · have hcontains := List.find?_some hfind
      exact .inr ⟨a, List.mem_of_find?_eq_some hfind, hcontains, rfl, hcase⟩
  · simp only [Option.some.injEq, Prod.mk.injEq] at h
    exact .inl ⟨h.2.1.symm, h.2.2.symm⟩

end MemorySet

/-! ## A process before it forks -/

/-- A `Linear` area with these bounds and offset shows no byte of the frames `frames`. -/
def LinearApart (frames : List PhysAddr) (start_addr end_addr offset : Usize) : Prop :=
  ∀ addr : VirtAddr, start_addr.toNat ≤ addr.toNat → addr.toNat < end_addr.toNat →
    ∀ f ∈ frames, ¬ PhysMem.InFrame f (addr + offset)

/-- What a process does to its memory set before it forks. -/
inductive UserOp
  | push (start_addr end_addr : VirtAddr) (attr : MemoryAttr) (handler : MemoryHandler)
  | handle_page_fault (addr : VirtAddr)

namespace UserOp

/-- The operation on a machine and a memory set. -/
def step (s : Machine × MemorySet) : UserOp → Option (Machine × MemorySet)
  | push start_addr end_addr attr handler => s.2.push s.1 start_addr end_addr attr handler
  | handle_page_fault addr => (s.2.handle_page_fault s.1 addr).map fun (_, m, ms) => (m, ms)

/-- The amendment's guard: a `Linear` area is pushed only onto memory outside the frames
`frames`, its bounds rounded out to pages as `push` rounds them. -/
def Apart (frames : List PhysAddr) : UserOp → Prop
  | push start_addr end_addr _ (.linear offset) =>
    LinearApart frames (start_addr &&& ~~~(PAGE_SIZE - 1))
      ((end_addr + PAGE_SIZE - 1) &&& ~~~(PAGE_SIZE - 1)) offset
  | _ => True

/-- The machines and memory sets a new memory set reaches from the machine `m₀` by pushes
and page faults. -/
def Reachable (m₀ : Machine) : Machine × MemorySet → Prop :=
  Transition.Reachable (· = (m₀, MemorySet.new)) (Transition.Next step)

/-- The same, a `Linear` area never showing one of `m₀`'s free frames. -/
def ReachableApart (m₀ : Machine) : Machine × MemorySet → Prop :=
  Transition.Reachable (· = (m₀, MemorySet.new))
    fun s s' => ∃ op : UserOp, op.Apart m₀.frames.frames ∧ op.step s = some s'

end UserOp

/-- What a process that has only pushed areas and taken faults keeps, from the machine `m₀`
on: the free frames are the last of `m₀`'s, every frame a page uses is one of `m₀`'s no
longer free, no `Linear` area shows one of `m₀`'s frames, and every present `File` page still
holds what its fault read. -/
structure Fresh (m₀ m : Machine) (ms : MemorySet) : Prop where
  inv : ms.Inv
  suffix : m.frames.free <:+ m₀.frames.free
  used : ∀ a ∈ ms.areas, (∀ o, a.handler ≠ .linear o) → ∀ n e, a.HasPage n →
    ms.page_table.lookup n = some e → e.present = true →
      e.target ∈ m₀.frames.frames ∧ e.target ∉ m.frames.frames
  linear : ∀ a ∈ ms.areas, ∀ o, a.handler = .linear o →
    LinearApart m₀.frames.frames a.start_addr a.end_addr o
  filled : ∀ a ∈ ms.areas, ∀ f mem_start file_start file_end,
    a.handler = .file f mem_start file_start file_end → ∀ n e, a.HasPage n →
      ms.page_table.lookup n = some e → e.present = true → ∀ k : Usize, k.toNat < 4096 →
        m.mem (e.target + k) =
          (MemoryHandler.file_data f mem_start file_start file_end (⟨n⟩ : Page).start_address).getD k.toNat 0

namespace MemoryArea

/-- `map` of an area leaves the memory as it is; its `ByFrame` pages take free frames, none
free any more after. -/
theorem map_frames (a : MemoryArea) {m m' : Machine} {pt pt' : PageTable} (hwf : a.WF)
    (hnodup : m.frames.frames.Nodup) (h : a.map m pt = some (m', pt')) :
    m'.mem = m.mem ∧ m'.frames.free <:+ m.frames.free ∧
      (a.handler = .byFrame → ∀ n e, a.HasPage n → pt'.lookup n = some e →
        e.target ∈ m.frames.frames ∧ e.target ∉ m'.frames.frames) := by
  have hpages : (Page.range_of a.start_addr a.end_addr).Nodup := nodup_range_of _ _
  -- the pages done hold frames taken from the allocator, none of them free any more
  have hend := Fold.foldlM_inv _
    (fun done (t : Machine × PageTable) => t.1.mem = m.mem ∧ t.1.frames.free <:+ m.frames.free ∧
      (a.handler = .byFrame → ∀ p ∈ done, ∀ e, t.2.lookup p.key = some e →
        e.target ∈ m.frames.frames ∧ e.target ∉ t.1.frames.frames))
    (fun done x rest t t' hl hdone hstep => by
      obtain ⟨m₁, pt₁⟩ := t
      obtain ⟨m₂, pt₂⟩ := t'
      obtain ⟨hmem, hsuffix, hdone⟩ := hdone
      dsimp only at hmem hsuffix hdone hstep ⊢
      obtain ⟨hmem₂, hsuffix₂, hnew⟩ := a.handler.map_frames hstep
      obtain ⟨-, _, -, hlook⟩ := a.handler.map_spec m₁ pt₁ x.start_address a.attr hstep
      have hx : x ∈ Page.range_of a.start_addr a.end_addr := by rw [← hl]; simp
      refine ⟨hmem₂.trans hmem, hsuffix₂.trans hsuffix, fun hb p hp e he => ?_⟩
      rcases List.mem_append.mp hp with hp | hp
      · -- an earlier page keeps its entry, and its frame stays taken
        have hpx : p ≠ x := by
          rw [← hl, List.nodup_append] at hpages
          exact fun h => hpages.2.2 p hp x List.mem_cons_self h
        have hpmem : p ∈ Page.range_of a.start_addr a.end_addr := by
          rw [← hl]
          exact List.mem_append_left _ hp
        have hne : p.key ≠ (Page.of_addr x.start_address).number :=
          fun h => hpx (Page.eq_of_key_eq hpmem hx h)
        rw [hlook, if_neg hne] at he
        obtain ⟨hin, hout⟩ := hdone hb p hp e he
        exact ⟨hin, fun h => hout ((FrameAlloc.IsSuffix.frames hsuffix₂).subset h)⟩
      · -- this page takes the first free frame
        rw [List.mem_singleton] at hp
        subst hp
        obtain ⟨e', he', hframes⟩ := hnew hb
        rw [Page.key, he', Option.some.injEq] at he
        subst he
        have hnd := hnodup.sublist (FrameAlloc.IsSuffix.frames hsuffix).sublist
        rw [hframes] at hnd
        refine ⟨(FrameAlloc.IsSuffix.frames hsuffix).subset ?_, (List.nodup_cons.mp hnd).1⟩
        rw [hframes]
        exact List.mem_cons_self)
    ⟨rfl, List.suffix_refl _, fun _ p hp => nomatch hp⟩ h
  obtain ⟨hmem, hsuffix, hdone⟩ := hend
  refine ⟨hmem, hsuffix, fun hb n e hn he => ?_⟩
  have hp := hwf.mem_range_of.mpr hn
  exact hdone hb ⟨n⟩ hp e (by rw [Page.key_of_mem hp]; exact he)

end MemoryArea

namespace Fresh

variable {m₀ m m' : Machine} {ms ms' : MemorySet}

theorem nodup_frames (hnodup : m₀.frames.frames.Nodup) (hf : Fresh m₀ m ms) :
    m.frames.frames.Nodup :=
  hnodup.sublist (FrameAlloc.IsSuffix.frames hf.suffix).sublist

theorem mem_frames (hf : Fresh m₀ m ms) {f : PhysAddr} (h : f ∈ m.frames.frames) :
    f ∈ m₀.frames.frames :=
  (FrameAlloc.IsSuffix.frames hf.suffix).subset h

/-- A new memory set on the machine it starts from. -/
theorem init : Fresh m₀ m₀ MemorySet.new where
  inv := MemorySet.inv_new
  suffix := List.suffix_refl _
  used _ ha := nomatch ha
  linear _ ha := nomatch ha
  filled _ ha := nomatch ha

/-- A `push` keeps `Fresh`, given the guard on a `Linear` area: the new area's `ByFrame` pages
take free frames, its `Delay` and `File` pages are absent, and the other pages and the memory
are as before. -/
theorem push (hnodup : m₀.frames.frames.Nodup) (hf : Fresh m₀ m ms) {s e : VirtAddr}
    {attr : MemoryAttr} {handler : MemoryHandler}
    (hapart : (UserOp.push s e attr handler).Apart m₀.frames.frames)
    (h : ms.push m s e attr handler = some (m', ms')) : Fresh m₀ m' ms' := by
  rcases MemorySet.push_cases h with ⟨rfl, rfl⟩ | ⟨area, rfl, hwf, hfree, hmem, hmap⟩
  · exact hf
  obtain ⟨-, -, hrest⟩ := MemoryArea.map_spec _ hwf hmap
  obtain ⟨hmem', hsuffix, hbyframe⟩ := MemoryArea.map_frames _ hwf (hf.nodup_frames hnodup) hmap
  have hsub : ∀ f ∈ m'.frames.frames, f ∈ m.frames.frames :=
    fun f hf' => (FrameAlloc.IsSuffix.frames hsuffix).subset hf'
  -- a page of an old area is not one of the new area's
  have hdisj := MemorySet.test_free_area_spec hf.inv.wf hwf.start_aligned hwf.end_aligned hwf.lt hfree
  have hold : ∀ b ∈ ms.areas, ∀ n, b.HasPage n →
      ¬ (⟨s &&& ~~~(PAGE_SIZE - 1), (e + PAGE_SIZE - 1) &&& ~~~(PAGE_SIZE - 1), attr, handler⟩ :
        MemoryArea).HasPage n := by
    intro b hb n hbn han
    have := (hf.inv.wf b hb).start_aligned
    have := (hf.inv.wf b hb).end_aligned
    have := hwf.start_aligned
    have := hwf.end_aligned
    unfold MemoryArea.HasPage at hbn han
    rcases hdisj b hb with h | h <;> omega
  -- the new `Delay` and `File` pages are absent
  have habsent : (handler = .delay ∨ ∃ f ms fs fe, handler = .file f ms fs fe) → ∀ n e',
      (⟨s &&& ~~~(PAGE_SIZE - 1), (e + PAGE_SIZE - 1) &&& ~~~(PAGE_SIZE - 1), attr, handler⟩ :
        MemoryArea).HasPage n → ms'.page_table.lookup n = some e' → e'.present = false := by
    intro hh n e' hn he'
    obtain ⟨e'', he'', hp⟩ := MemoryArea.map_absent _ hwf hh hmap n hn
    rw [he'] at he''
    cases he''
    exact hp
  refine ⟨MemorySet.inv_push hf.inv h, hsuffix.trans hf.suffix, ?_, ?_, ?_⟩
  · intro b hb hnl n e' hn he' hp
    rcases (hmem b).mp hb with rfl | hb
    · -- a page of the new area, which is not `Linear`
      cases handler with
      | linear o => exact absurd rfl (hnl o)
      | byFrame =>
        obtain ⟨hin, hout⟩ := hbyframe rfl n e' hn he'
        exact ⟨hf.mem_frames hin, hout⟩
      | delay => simp [habsent (.inl rfl) n e' hn he'] at hp
      | file f ms fs fe => simp [habsent (.inr ⟨f, ms, fs, fe, rfl⟩) n e' hn he'] at hp
    · rw [hrest n (hold b hb n hn)] at he'
      obtain ⟨hin, hout⟩ := hf.used b hb hnl n e' hn he' hp
      exact ⟨hin, fun h => hout (hsub _ h)⟩
  · intro b hb o ho
    rcases (hmem b).mp hb with rfl | hb
    · -- the guard, on the bounds `push` rounded
      dsimp only at ho
      subst ho
      exact hapart
    · exact hf.linear b hb o ho
  · intro b hb f mst fst fen hfile n e' hn he' hp k hk
    rcases (hmem b).mp hb with rfl | hb
    · dsimp only at hfile
      simp [habsent (.inr ⟨f, mst, fst, fen, hfile⟩) n e' hn he'] at hp
    · rw [hrest n (hold b hb n hn)] at he'
      rw [hmem']
      exact hf.filled b hb f mst fst fen hfile n e' hn he' hp k hk

/-- A fault keeps `Fresh`: the page it maps in takes the first free frame, and a `File` page's
frame gets the file's bytes; no other page uses that frame. -/
theorem handle_page_fault (hnodup : m₀.frames.frames.Nodup) (hf : Fresh m₀ m ms) {addr : VirtAddr}
    {ok : Bool} (h : ms.handle_page_fault m addr = some (ok, m', ms')) : Fresh m₀ m' ms' := by
  have hinv' := MemorySet.inv_handle_page_fault hf.inv h
  rcases MemorySet.handle_page_fault_cases h with ⟨rfl, rfl⟩ | ⟨a, ha, hc, hareas, e, g, data,
    he, -, hframes, hsuffix, hmem, hlook, -, hfile⟩
  · exact hf
  have hnd := hf.nodup_frames hnodup
  rw [hframes] at hnd
  have hg : g ∈ m.frames.frames := by
    rw [hframes]
    exact List.mem_cons_self
  have hgal := FrameAlloc.aligned_of_mem_frames hg
  have hsub : ∀ f ∈ m'.frames.frames, f ∈ m.frames.frames := fun f hf' => by
    rw [hframes]
    exact List.mem_cons_of_mem _ hf'
  have hn₀ : a.HasPage (Page.of_addr addr).number := (hf.inv.wf a ha).hasPage_of_contains hc
  refine ⟨hinv', hsuffix.trans hf.suffix, ?_, ?_, ?_⟩
  · intro b hb hnl n e' hn he' hp
    rw [hareas] at hb
    rw [hlook] at he'
    split at he'
    · -- the faulting page: the frame it just took
      cases he'
      exact ⟨hf.mem_frames hg, (List.nodup_cons.mp hnd).1⟩
    · obtain ⟨hin, hout⟩ := hf.used b hb hnl n e' hn he' hp
      exact ⟨hin, fun h => hout (hsub _ h)⟩
  · intro b hb
    rw [hareas] at hb
    exact hf.linear b hb
  · intro b hb f mst fst fen hfb n e' hn he' hp k hk
    rw [hareas] at hb
    rw [hlook] at he'
    split at he'
    · next hn' =>
      -- the faulting page, in its `File` area: the file's bytes
      cases he'
      subst hn'
      have hba : b = a := hf.inv.eq_of_hasPage hb ha hn hn₀
      subst hba
      rw [hmem, PhysMem.fill_page_add _ _ hgal hk, hfile f mst fst fen hfb]
      exact congrArg (fun addr => (MemoryHandler.file_data f mst fst fen addr).getD k.toNat 0)
        (start_address_of_addr addr).symm
    · -- another page keeps its frame, which is not the new one
      have ht := hf.used b hb (fun o h => by rw [hfb] at h; cases h) n e' hn he' hp
      have hne : g ≠ e'.target := fun h => ht.2 (h ▸ hg)
      rw [hmem, PhysMem.fill_page_of_not_inFrame _ _ _
        (PhysMem.not_inFrame_of_ne hgal (FrameAlloc.aligned_of_mem_frames ht.1) hne hk)]
      exact hf.filled b hb f mst fst fen hfb n e' hn he' hp k hk

end Fresh

/-! ## The clone -/

/-- What the child's entry `e'` of page `n` shows, `m₁` being the machine so far: a present
entry whose bytes are the parent's bytes of the page, in `Linear`'s same frame or in a frame
the clone took; or an absent entry, of a `Delay` page absent in the parent or of a `File` page
absent in the parent or read-only. -/
def ChildEntry (m : Machine) (ms : MemorySet) (m₁ : Machine) (n : Usize) (e' : Entry) : Prop :=
  ∃ a ∈ ms.areas, a.HasPage n ∧ ∃ e, ms.page_table.lookup n = some e ∧
    (e'.present = true → e.present = true ∧
      (∀ k : Usize, k.toNat < 4096 → m₁.mem (e'.target + k) = m.mem (e.target + k)) ∧
      ((∃ o, a.handler = .linear o ∧ e'.target = e.target ∧
          e.target = (⟨n⟩ : Page).start_address + o) ∨
        e'.target ∈ m.frames.frames ∧ e'.target ∉ m₁.frames.frames)) ∧
    (e'.present = false → a.handler = .delay ∧ e.present = false ∨
      ∃ f mem_start file_start file_end, a.handler = .file f mem_start file_start file_end ∧
        (e.present = false ∨ a.attr.readonly = true))

/-- What `clone` keeps while it runs, `m₁` and `pt₁` the machine and the child's table so far:
it took the first of the parent's free frames, wrote to no other memory, and every entry of the
child shows what the parent's shows. -/
structure CloneInv (m : Machine) (ms : MemorySet) (m₁ : Machine) (pt₁ : PageTable) : Prop where
  suffix : m₁.frames.free <:+ m.frames.free
  untouched : ∀ x, (∀ f ∈ m.frames.frames, f ∉ m₁.frames.frames → ¬ PhysMem.InFrame f x) →
    m₁.mem x = m.mem x
  child : ∀ n e', pt₁.lookup n = some e' → ChildEntry m ms m₁ n e'

section Clone

variable {m₀ m m₁ m₂ : Machine} {ms : MemorySet} {pt₁ pt₂ : PageTable}

/-- No byte a `Linear` page of a `Fresh` memory set shows is in one of `m₀`'s frames. -/
theorem Fresh.linear_not_inFrame (hf : Fresh m₀ m ms) {a : MemoryArea} (ha : a ∈ ms.areas)
    {o : Usize} (ho : a.handler = .linear o) {n : Usize} (hn : a.HasPage n) {f : PhysAddr}
    (hfm : f ∈ m₀.frames.frames) {k : Usize} (hk : k.toNat < 4096) :
    ¬ PhysMem.InFrame f ((⟨n⟩ : Page).start_address + o + k) := by
  have hwf := hf.inv.wf a ha
  have hlt := hn.lt_last
  -- the byte `k` of the page lies in the area
  have hstart := start_address_toNat ⟨n⟩ (by dsimp only; omega)
  dsimp only at hstart
  have hbyte : ((⟨n⟩ : Page).start_address + k).toNat = n.toNat * 4096 + k.toNat := by
    rw [BitVec.toNat_add, hstart]
    omega
  have hwithin := hf.linear a ha o ho ((⟨n⟩ : Page).start_address + k)
    (by have := hwf.start_aligned; unfold MemoryArea.HasPage at hn; rw [hbyte]; omega)
    (by have := hwf.end_aligned; unfold MemoryArea.HasPage at hn; rw [hbyte]; omega) f hfm
  rwa [BitVec.add_assoc, BitVec.add_comm k o, ← BitVec.add_assoc] at hwithin

/-- An entry of the child keeps showing the parent's bytes when the clone copies into the next
free frame: that frame is none a page of the child reads yet. -/
theorem ChildEntry.copy (hf : Fresh m₀ m ms) {n : Usize} {e' : Entry}
    (hc : ChildEntry m ms m₁ n e') {f src : PhysAddr}
    (hframes : m₁.frames.frames = f :: m₂.frames.frames) (hsuffix : m₁.frames.free <:+ m.frames.free)
    (hmem : m₂.mem = m₁.mem.copy_page f src) : ChildEntry m ms m₂ n e' := by
  obtain ⟨a, ha, hn, e, he, hpresent, habsent⟩ := hc
  have hfm : f ∈ m.frames.frames := (FrameAlloc.IsSuffix.frames hsuffix).subset (by rw [hframes]; simp)
  have hfal := FrameAlloc.aligned_of_mem_frames hfm
  refine ⟨a, ha, hn, e, he, fun hp => ?_, habsent⟩
  obtain ⟨hep, hbytes, hwhere⟩ := hpresent hp
  -- the copy writes the frame `f` only, which this entry does not read
  have hnot : ∀ k : Usize, k.toNat < 4096 → ¬ PhysMem.InFrame f (e'.target + k) := by
    intro k hk
    rcases hwhere with ⟨o, ho, htarget, hlin⟩ | ⟨hin, hout⟩
    · rw [htarget, hlin]
      exact hf.linear_not_inFrame ha ho hn (hf.mem_frames hfm) hk
    · have hne : f ≠ e'.target := fun h => hout (by rw [hframes, h]; simp)
      exact PhysMem.not_inFrame_of_ne hfal (FrameAlloc.aligned_of_mem_frames hin) hne hk
  refine ⟨hep, fun k hk => ?_, ?_⟩
  · rw [hmem, PhysMem.copy_page_of_not_inFrame _ _ _ (hnot k hk)]
    exact hbytes k hk
  · rcases hwhere with hlin | ⟨hin, hout⟩
    · exact .inl hlin
    · exact .inr ⟨hin, fun h => hout (by rw [hframes]; exact List.mem_cons_of_mem _ h)⟩

/-- **One step of the clone.** `clone_map` of a page of an area keeps `CloneInv`. -/
theorem CloneInv.clone_map (hnodup : m₀.frames.frames.Nodup) (hf : Fresh m₀ m ms)
    (hc : CloneInv m ms m₁ pt₁) {a : MemoryArea} (ha : a ∈ ms.areas) {n : Usize} (hn : a.HasPage n)
    (hstep : a.handler.clone_map m₁ pt₁ ms.page_table (⟨n⟩ : Page).start_address a.attr =
      some (m₂, pt₂)) : CloneInv m ms m₂ pt₂ := by
  have hpage : (Page.of_addr (⟨n⟩ : Page).start_address).number = n := by
    rw [of_addr_start_address _ (by have := hn.lt_last; dsimp only; omega)]
  obtain ⟨e, he⟩ := Option.isSome_iff_exists.mp (hf.inv.covers.mapped a ha n hn)
  have hentry := hf.inv.entry_of_owner he ha hn
  rw [← hpage] at he
  obtain ⟨e', hnew, hother, hcase⟩ := a.handler.clone_map_cases he hstep
  rw [hpage] at hnew hother he
  rcases hcase with ⟨rfl, hp', o, ho, htarget⟩ | ⟨rfl, hp', habs⟩ |
    ⟨hp', hframes, hsuffix, hmem, hcopy, hnl⟩
  · -- `Linear`: the parent's frame
    refine ⟨hc.suffix, hc.untouched, fun k e'' hk => ?_⟩
    by_cases hkn : k = n
    · subst hkn
      rw [hnew] at hk
      cases hk
      rw [ho] at hentry
      obtain ⟨-, -, -, -, hep, hlin⟩ := hentry
      refine ⟨a, ha, hn, e, he, fun _ => ⟨hep, fun j hj => ?_, .inl ⟨o, ho, by rw [htarget, hlin],
        hlin⟩⟩, fun h => by rw [hp'] at h; cases h⟩
      rw [htarget, ← hlin]
      exact hc.untouched _ fun f hfm _ => by
        rw [hlin]
        exact hf.linear_not_inFrame ha ho hn (hf.mem_frames hfm) hj
    · rw [hother k hkn] at hk
      exact hc.child k e'' hk
  · -- an absent page, as the parent's `Delay` or `File` page
    refine ⟨hc.suffix, hc.untouched, fun k e'' hk => ?_⟩
    by_cases hkn : k = n
    · subst hkn
      rw [hnew] at hk
      cases hk
      exact ⟨a, ha, hn, e, he, (fun h => by rw [hp'] at h; cases h), fun _ => habs⟩
    · rw [hother k hkn] at hk
      exact hc.child k e'' hk
  · -- a copy into the first free frame
    have hsub : ∀ g ∈ m₂.frames.frames, g ∈ m₁.frames.frames := fun g hg => by
      rw [hframes]
      exact List.mem_cons_of_mem _ hg
    have hnd := hnodup.sublist
      (FrameAlloc.IsSuffix.frames (hc.suffix.trans hf.suffix)).sublist
    rw [hframes] at hnd
    have hfm : e'.target ∈ m.frames.frames :=
      (FrameAlloc.IsSuffix.frames hc.suffix).subset (by rw [hframes]; simp)
    have hfal := FrameAlloc.aligned_of_mem_frames hfm
    have hout : e'.target ∉ m₂.frames.frames := (List.nodup_cons.mp hnd).1
    refine ⟨hsuffix.trans hc.suffix, fun x hx => ?_, fun k e'' hk => ?_⟩
    · rw [hmem, PhysMem.copy_page_of_not_inFrame _ _ _ (hx _ hfm hout)]
      exact hc.untouched x fun g hg hg₁ => hx g hg fun h => hg₁ (hsub g h)
    by_cases hkn : k = n
    · subst hkn
      rw [hnew] at hk
      cases hk
      -- the parent's page is present, its frame one the clone never writes
      have hep : e.present = true := by
        rcases hcopy with hb | hp
        · rw [hb] at hentry
          exact hentry.2.2.2.2
        · exact hp
      obtain ⟨hin₀, hout₀⟩ := hf.used a ha hnl k e hn he hep
      refine ⟨a, ha, hn, e, he, fun _ => ⟨hep, fun j hj => ?_, .inr ⟨hfm, hout⟩⟩,
        fun h => by rw [hp'] at h; cases h⟩
      rw [hmem, PhysMem.copy_page_add _ _ hfal hj]
      refine hc.untouched _ fun g hg _ => ?_
      exact PhysMem.not_inFrame_of_ne (FrameAlloc.aligned_of_mem_frames hg)
        (FrameAlloc.aligned_of_mem_frames hin₀) (fun h => hout₀ (h ▸ hg)) hj
    · rw [hother k hkn] at hk
      exact (hc.child k e'' hk).copy hf hframes hc.suffix hmem

/-- The pages of one area keep `CloneInv`. -/
theorem CloneInv.for_pages (hnodup : m₀.frames.frames.Nodup) (hf : Fresh m₀ m ms)
    (hc : CloneInv m ms m₁ pt₁) {a : MemoryArea} (ha : a ∈ ms.areas)
    (h : a.for_pages (fun m pt addr => a.handler.clone_map m pt ms.page_table addr a.attr) m₁ pt₁ =
      some (m₂, pt₂)) : CloneInv m ms m₂ pt₂ := by
  have hwf := hf.inv.wf a ha
  refine Fold.foldlM_inv _ (fun _ (t : Machine × PageTable) => CloneInv m ms t.1 t.2)
    (fun done x rest t t' hl ht hstep => ?_) hc h
  obtain ⟨m₃, pt₃⟩ := t
  obtain ⟨m₄, pt₄⟩ := t'
  have hx : x ∈ Page.range_of a.start_addr a.end_addr := by
    rw [← hl]
    simp
  exact ht.clone_map hnodup hf ha (hwf.mem_range_of.mp hx) hstep

/-- **What the child's table shows.** After `clone`, the child has the parent's areas, and
every entry of its table shows what the parent's shows. -/
theorem clone_child_entry (hnodup : m₀.frames.frames.Nodup) (hf : Fresh m₀ m ms)
    {ms₂ : MemorySet} (h : ms.clone m = some (m₂, ms₂)) :
    ms₂.areas = ms.areas ∧ ∀ n e', ms₂.page_table.lookup n = some e' → ChildEntry m ms m₂ n e' := by
  simp only [MemorySet.clone, Option.bind_eq_bind, Option.bind_eq_some_iff, Option.some.injEq,
    Prod.mk.injEq] at h
  obtain ⟨⟨m₃, pt₃⟩, hfold, rfl, rfl⟩ := h
  have hinit : CloneInv m ms m PageTable.new :=
    ⟨List.suffix_refl _, fun _ _ => rfl, fun n e' h => by
      simp [PageTable.new, PageTable.lookup] at h⟩
  have hend := Fold.foldlM_inv _ (fun _ (t : Machine × PageTable) => CloneInv m ms t.1 t.2)
    (fun done x rest t t' hl ht hstep => by
      obtain ⟨m₄, pt₄⟩ := t
      obtain ⟨m₅, pt₅⟩ := t'
      have hx : x ∈ ms.areas := by
        rw [← hl]
        simp
      exact ht.for_pages hnodup hf hx hstep)
    hinit hfold
  exact ⟨rfl, hend.child⟩

end Clone

/-- Every state reached with the guard keeps `Fresh`. -/
theorem UserOp.ReachableApart.fresh {m₀ : Machine} (hnodup : m₀.frames.frames.Nodup)
    {s : Machine × MemorySet} (hr : UserOp.ReachableApart m₀ s) : Fresh m₀ s.1 s.2 := by
  refine Transition.Reachable.inv (P := fun s : Machine × MemorySet => Fresh m₀ s.1 s.2)
    (fun s hs => ?_) (fun s s' hs hnext => ?_) hr
  · subst hs
    exact Fresh.init
  · obtain ⟨op, hapart, hstep⟩ := hnext
    cases op with
    | push start_addr end_addr attr handler => exact hs.push hnodup hapart hstep
    | handle_page_fault addr =>
      obtain ⟨⟨ok, m', ms'⟩, hfault, rfl⟩ := Option.map_eq_some_iff.mp hstep
      exact hs.handle_page_fault hnodup hfault

/-! ## The child reads what the parent read -/

end Queen.Memory
