/-
When the memory operations do not panic.

A handler's `map` panics only when the page already has an entry (`map_to` fails) or, for
`ByFrame`, when the allocator has no frame left. So mapping an area whose pages have no
entries succeeds, given a frame for each page to `ByFrame` (`MemoryArea.map_exists`), and so
does a `push` of an aligned range that overlaps no area of a memory set keeping its invariant
(`MemorySet.push_exists`): the invariant says the table has entries only inside areas.
-/
import Queen.Memory.Invariant

set_option autoImplicit false

namespace Queen.Memory

/-! ## One page -/

namespace MemoryHandler

/-- `map` of a page that has no entry succeeds; `ByFrame` takes one frame, the others none. -/
theorem map_exists (h : MemoryHandler) (m : Machine) (pt : PageTable) (addr : VirtAddr)
    (attr : MemoryAttr) (hfresh : pt.lookup (Page.of_addr addr).number = none)
    (hframe : h = .byFrame → m.frames.free ≠ []) :
    ∃ m' pt', h.map m pt addr attr = some (m', pt') ∧ (h ≠ .byFrame → m' = m) ∧
      (h = .byFrame → m'.frames.free.length + 1 = m.frames.free.length) := by
  -- `PageTable::map` succeeds on a page without an entry
  have hmap : ∀ target, pt.map addr target =
      some ⟨pt.entries.insert (Page.of_addr addr).number ⟨target, true, false, false, false, 0⟩⟩ := by
    intro target
    rw [PageTable.map, if_neg (AList.lookup_eq_none.mp hfresh)]
  -- the table `map` leaves: the fresh entry, then the attributes written through it
  set fresh : PhysAddr → PageTable := fun target =>
    ⟨pt.entries.insert (Page.of_addr addr).number ⟨target, true, false, false, false, 0⟩⟩
  cases h
  case linear offset =>
    refine ⟨m, (fresh (addr + offset)).update addr attr.apply, ?_, fun _ => rfl, fun h => by cases h⟩
    rw [map, hmap]
    rfl
  case byFrame =>
    obtain ⟨id, rest, hfree⟩ := List.exists_cons_of_ne_nil (hframe rfl)
    refine ⟨{ m with frames := ⟨rest⟩ }, (fresh (id * PAGE_SIZE + MEMORY_OFFSET)).update addr attr.apply,
      ?_, fun h => absurd rfl h, fun _ => by simp [hfree]⟩
    rw [map]
    simp only [Machine.alloc_frame, GlobalFrameAlloc.alloc, FrameAlloc.alloc, hfree, hmap,
      Option.map_some, Option.bind_eq_bind, Option.bind_some]
    rfl
  case delay | file =>
    -- the lazy handlers map an absent page and take no frame
    refine ⟨m, (fresh 0).update addr fun e => attr.apply { e with present := false }, ?_,
      fun _ => rfl, fun h => by cases h⟩
    rw [map, hmap]
    rfl

end MemoryHandler

/-! ## An area -/

namespace MemoryArea

variable (a : MemoryArea) {m : Machine} {pt : PageTable}

/-- The number of pages of a well-formed area. -/
theorem WF.length_range_of {a : MemoryArea} (hwf : a.WF) :
    (Page.range_of a.start_addr a.end_addr).length = a.end_addr.toNat / 4096 - a.start_addr.toNat / 4096 := by
  simp only [Page.range_of, List.length_map, List.length_range, of_addr_number_toNat, hwf.last_page]
  have := hwf.end_pos
  omega

/-- `MemoryArea::map` succeeds when no page of the area has an entry and, for `ByFrame`, the
allocator has a frame for each page. Only `ByFrame` changes the machine. -/
theorem map_exists (hwf : a.WF) (hfresh : ∀ n, a.HasPage n → pt.lookup n = none)
    (hframes : a.handler = .byFrame →
      a.end_addr.toNat / 4096 - a.start_addr.toNat / 4096 ≤ m.frames.free.length) :
    ∃ m' pt', a.map m pt = some (m', pt') ∧ (a.handler ≠ .byFrame → m' = m) := by
  set pages := Page.range_of a.start_addr a.end_addr
  have hnodup : pages.Nodup := nodup_range_of _ _
  -- the pages not done yet have no entry, and the frames left are enough for them
  have hex : ∃ s', pages.foldlM (fun t page => a.handler.map t.1 t.2 page.start_address a.attr)
      (m, pt) = some s' ∧ (a.handler ≠ .byFrame → s'.1 = m) := by
   obtain ⟨s', hfold, -, -, hm⟩ := Fold.foldlM_exists (l := pages) (s := (m, pt))
    (fun t page => a.handler.map t.1 t.2 page.start_address a.attr)
    (fun done (t : Machine × PageTable) =>
      (∀ q ∈ pages, q ∉ done → t.2.lookup q.key = none) ∧
        (a.handler = .byFrame → pages.length - done.length ≤ t.1.frames.free.length) ∧
        (a.handler ≠ .byFrame → t.1 = m))
    (fun done x rest t hl hinv => by
      obtain ⟨hrest, hframe, hsame⟩ := hinv
      obtain ⟨m₁, pt₁⟩ := t
      dsimp only at hrest hframe hsame ⊢
      have hx : x ∈ pages := by rw [← hl]; simp
      have hxdone : x ∉ done := fun hmem =>
        List.disjoint_of_nodup_append (hl ▸ hnodup) hmem List.mem_cons_self
      have hlen : pages.length = done.length + 1 + rest.length := by rw [← hl]; simp; omega
      obtain ⟨m₂, pt₂, hmap, hm, hcount⟩ := a.handler.map_exists m₁ pt₁ x.start_address a.attr
        (hrest x hx hxdone) (fun hb h0 => by have := hframe hb; rw [h0] at this; simp at this; omega)
      refine ⟨(m₂, pt₂), hmap, ?_, ?_, ?_⟩
      · -- the other pages keep having no entry
        intro q hq hqdone
        obtain ⟨-, _, -, hlook⟩ := a.handler.map_spec m₁ pt₁ x.start_address a.attr hmap
        have hkey : q.key ≠ (Page.of_addr x.start_address).number := fun h =>
          hqdone (by rw [Page.eq_of_key_eq hq hx h]; simp)
        rw [hlook, if_neg hkey]
        exact hrest q hq (fun h => hqdone (List.mem_append_left _ h))
      · intro hb
        have := hframe hb
        have := hcount hb
        simp only [List.length_append, List.length_singleton]
        omega
      · intro hb
        rw [hm hb, hsame hb])
    ⟨fun q hq _ => hfresh q.key (by
        rw [Page.key_of_mem hq]
        exact (hwf.mem_range_of).mp (by obtain ⟨qn⟩ := q; exact hq)),
      fun hb => by
        rw [List.length_nil, Nat.sub_zero, hwf.length_range_of]
        exact hframes hb,
      fun _ => rfl⟩
   exact ⟨s', hfold, hm⟩
  obtain ⟨⟨m', pt'⟩, hfold, hm⟩ := hex
  exact ⟨m', pt', hfold, hm⟩

end MemoryArea

/-! ## `push` -/

namespace MemorySet

variable {ms : MemorySet} {m : Machine}

/-- What a `push` of aligned bounds did: the area with those bounds joined the others, and its
`map` made the new table. -/
theorem push_aligned_spec {s e : VirtAddr} {attr : MemoryAttr} {handler : MemoryHandler}
    {m' : Machine} {ms' : MemorySet} (hs : s.toNat % 4096 = 0) (he : e.toNat % 4096 = 0)
    (hlt : s.toNat < e.toNat) (h : ms.push m s e attr handler = some (m', ms')) :
    (∀ b, b ∈ ms'.areas ↔ b = ⟨s, e, attr, handler⟩ ∨ b ∈ ms.areas) ∧
      (⟨s, e, attr, handler⟩ : MemoryArea).map m ms.page_table = some (m', ms'.page_table) := by
  have hge : ¬ s ≥ e := by rw [ge_iff_le, BitVec.le_def]; omega
  simp only [push, hge, if_false, align_down_of_aligned hs, align_up_of_aligned he] at h
  split at h
  · simp only [Option.bind_eq_bind, Option.bind_eq_some_iff, Option.some.injEq,
      Prod.mk.injEq] at h
    obtain ⟨⟨m₁, pt₁⟩, hmap, rfl, rfl⟩ := h
    exact ⟨fun b => List.mem_insertIdx List.findIdx_le_length, hmap⟩
  · cases h

/-- `push` of an aligned, non-empty range that no area overlaps succeeds, and adds the area
with those bounds. -/
theorem push_exists {s e : VirtAddr} {attr : MemoryAttr} {handler : MemoryHandler}
    (hinv : ms.Inv) (hs : s.toNat % 4096 = 0) (he : e.toNat % 4096 = 0) (hlt : s.toNat < e.toNat)
    (hfree : ms.test_free_area s e = true)
    (hframes : handler = .byFrame → e.toNat / 4096 - s.toNat / 4096 ≤ m.frames.free.length) :
    ∃ m' ms', ms.push m s e attr handler = some (m', ms') ∧ (handler ≠ .byFrame → m' = m) ∧
      ms'.areas = ms.areas.insertIdx (ms.areas.findIdx fun a => s < a.start_addr) ⟨s, e, attr, handler⟩ := by
  set area : MemoryArea := ⟨s, e, attr, handler⟩
  have hwf : area.WF := ⟨hs, he, hlt⟩
  -- no page of the range has an entry: an entry lies in an area, and none overlaps
  have hdisj := test_free_area_spec hinv.wf hs he hlt hfree
  have hfresh : ∀ n, area.HasPage n → ms.page_table.lookup n = none := by
    intro n hn
    cases hlook : ms.page_table.lookup n with
    | none => rfl
    | some entry =>
      obtain ⟨b, hb, hbn, -⟩ := hinv.covers.entry_of n entry hlook
      have := (hinv.wf b hb).start_aligned
      have := (hinv.wf b hb).end_aligned
      unfold MemoryArea.HasPage at hn hbn
      rcases hdisj b hb with h | h <;> simp only [area] at hn <;> omega
  obtain ⟨m', pt', hmap, hm⟩ := area.map_exists hwf hfresh hframes
  refine ⟨m', ⟨ms.areas.insertIdx (ms.areas.findIdx fun a => s < a.start_addr) area, pt'⟩, ?_, hm,
    rfl⟩
  have hge : ¬ s ≥ e := by rw [ge_iff_le, BitVec.le_def]; omega
  have hlt' : s < e := BitVec.lt_def.mpr hlt
  simp only [push, hge, if_false, align_down_of_aligned hs, align_up_of_aligned he, hlt', hfree,
    and_self, if_true, Option.bind_eq_bind]
  rw [hmap]
  rfl

end MemorySet

end Queen.Memory
