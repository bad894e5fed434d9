/-
`MemorySet::find_free_area`, `kernel/src/memory/memory_set.rs`: the first of the hint and the
ends of the areas, rounded up to pages, at which a range of `len` bytes overlaps no area.

It always finds one. The areas are sorted and disjoint, so the last one ends after every
other; its end is aligned, rounding leaves it, and no area has a page from there on
(`test_free_area_last_end`). Without areas the hint is free.

Which candidate it returns is the first whose range shares no page with an area
(`MeetsRange`), for a range that is not empty and does not wrap: `is_overlap_with` then compares
the page spans of the two ranges (`is_overlap_with_iff_meetsRange`). An empty range has no
page, but `is_overlap_with` takes the page of `addr - 1` as its last, so at an aligned `addr`
inside an area (or at `0`, where `addr - 1` wraps) it reports an overlap.
-/
import Queen.Memory.Progress

set_option autoImplicit false

namespace Queen.Memory

/-- Some byte of `[addr, addr + len)` lies on a page of the area. -/
def MemoryArea.MeetsRange (a : MemoryArea) (addr : VirtAddr) (len : Usize) : Prop :=
  ∃ b : Nat, addr.toNat ≤ b ∧ b < addr.toNat + len.toNat ∧
    a.start_addr.toNat / 4096 ≤ b / 4096 ∧ b / 4096 < a.end_addr.toNat / 4096

/-- For a well-formed area and a range that is not empty and does not wrap, the page test of
`is_overlap_with` is whether the range shares a page with the area. -/
theorem MemoryArea.WF.is_overlap_with_iff_meetsRange {a : MemoryArea} (h : a.WF) {addr len : Usize}
    (hlen : 0 < len.toNat) (hwrap : addr.toNat + len.toNat < 2 ^ 64) :
    a.is_overlap_with addr (addr + len) = true ↔ a.MeetsRange addr len := by
  have hend : (addr + len - 1).toNat = addr.toNat + len.toNat - 1 := by
    rw [Usize.toNat_sub_of_le (by bv_omega), Usize.toNat_add_of_lt hwrap, Usize.toNat_one]
  have := h.start_aligned
  have := h.end_aligned
  have := h.lt
  rw [h.is_overlap_with_iff, hend]
  constructor
  · rintro ⟨hlo, hhi⟩
    -- the first byte of the range on the area: the range's start, or the area's
    by_cases hstart : a.start_addr.toNat ≤ addr.toNat
    · exact ⟨addr.toNat, le_rfl, by omega, Nat.div_le_div_right hstart, hlo⟩
    · exact ⟨a.start_addr.toNat, by omega, by omega, le_rfl, by omega⟩
  · rintro ⟨b, hb₁, hb₂, hb₃, hb₄⟩
    omega

namespace MemorySet

variable {ms : MemorySet}

/-- Every area ends no later than the last one. -/
theorem Inv.end_le_getLast (hinv : ms.Inv) (hne : ms.areas ≠ []) :
    ∀ a ∈ ms.areas, a.end_addr.toNat ≤ (ms.areas.getLast hne).end_addr.toNat := by
  intro a ha
  have hsplit := List.dropLast_append_getLast hne
  have hsorted := hinv.sorted
  rw [← hsplit] at ha hsorted
  rcases List.mem_append.mp ha with ha | ha
  · -- an area before the last ends before the last starts
    have hbefore := List.pairwise_append.mp hsorted |>.2.2 a ha _ (List.mem_singleton_self _)
    have := (hinv.wf _ (List.getLast_mem hne)).lt
    exact le_trans hbefore (le_of_lt this)
  · rw [List.mem_singleton.mp ha]

/-- The end of the last area is a free place for any length. -/
theorem test_free_area_last_end (hinv : ms.Inv) (hne : ms.areas ≠ []) (len : Usize) :
    ms.test_free_area (ms.areas.getLast hne).end_addr ((ms.areas.getLast hne).end_addr + len) = true := by
  refine Option.isNone_iff_eq_none.mpr (List.find?_eq_none.mpr fun a ha => ?_)
  rw [(hinv.wf a ha).is_overlap_with_iff]
  have := hinv.end_le_getLast hne a ha
  omega

/-- **`find_free_area` never panics** on a memory set that keeps its invariant. -/
theorem find_free_area_isSome (hinv : ms.Inv) (addr_hint len : Usize) :
    (ms.find_free_area addr_hint len).isSome := by
  rw [find_free_area, List.find?_isSome]
  by_cases hne : ms.areas = []
  · -- no area: the hint is free
    refine ⟨_, List.mem_cons_self, ?_⟩
    simp [test_free_area, hne]
  · -- the end of the last area, which rounding leaves as it is
    have hlast := List.getLast_mem hne
    refine ⟨(ms.areas.getLast hne).end_addr, ?_, test_free_area_last_end hinv hne len⟩
    rw [free_area_candidates, List.map_cons, List.map_map]
    refine List.mem_cons_of_mem _ (List.mem_map.mpr ⟨_, hlast, ?_⟩)
    exact align_up_of_aligned (hinv.wf _ hlast).end_aligned

/-- For a range that is not empty and does not wrap, `test_free_area` asks that the range
share no page with any area. -/
theorem test_free_area_iff (hinv : ms.Inv) {addr len : Usize} (hlen : 0 < len.toNat)
    (hwrap : addr.toNat + len.toNat < 2 ^ 64) :
    ms.test_free_area addr (addr + len) = true ↔ ∀ a ∈ ms.areas, ¬ a.MeetsRange addr len := by
  rw [test_free_area, Option.isNone_iff_eq_none, List.find?_eq_none]
  refine forall₂_congr fun a ha => ?_
  rw [← (hinv.wf a ha).is_overlap_with_iff_meetsRange hlen hwrap]

/-- **Which place `find_free_area` finds.** On a memory set keeping its invariant,
`find_free_area` never panics. For a length that is not zero, with no candidate plus the length
wrapping, it returns the first candidate whose range shares no page with an area: every
candidate before it shares a page with one. -/
theorem find_free_area_first_free (hinv : ms.Inv) (addr_hint len : Usize) :
    (ms.find_free_area addr_hint len).isSome ∧
    (0 < len.toNat → (∀ a ∈ ms.free_area_candidates addr_hint, a.toNat + len.toNat < 2 ^ 64) →
      ∃ pre a post, ms.free_area_candidates addr_hint = pre ++ a :: post ∧
        ms.find_free_area addr_hint len = some a ∧
        (∀ b ∈ pre, ∃ area ∈ ms.areas, area.MeetsRange b len) ∧
        ∀ area ∈ ms.areas, ¬ area.MeetsRange a len) := by
  have hsome := find_free_area_isSome hinv addr_hint len
  refine ⟨hsome, fun hlen hwrap => ?_⟩
  obtain ⟨a, hfind⟩ := Option.isSome_iff_exists.mp hsome
  obtain ⟨hfree, pre, post, hsplit, hbefore⟩ := List.find?_eq_some_iff_append.mp hfind
  have hmem : ∀ b ∈ pre, b ∈ ms.free_area_candidates addr_hint := fun b hb => by
    rw [hsplit]
    exact List.mem_append_left _ hb
  have ha : a ∈ ms.free_area_candidates addr_hint := by
    rw [hsplit]
    exact List.mem_append_right _ List.mem_cons_self
  refine ⟨pre, a, post, hsplit, hfind, fun b hb => ?_, ?_⟩
  · -- a candidate passed over is not free
    have hbusy : ¬ ms.test_free_area b (b + len) = true := by simpa using hbefore b hb
    rw [test_free_area_iff hinv hlen (hwrap b (hmem b hb))] at hbusy
    push Not at hbusy
    exact hbusy
  · exact (test_free_area_iff hinv hlen (hwrap a ha)).mp hfree

/-- One area `[0x1000, 0x3000)`, pushed on a new memory set. -/
theorem exists_one_area :
    ∃ ms : MemorySet, ms.Inv ∧ ms.areas = [⟨0x1000#64, 0x3000#64, default, .linear 0⟩] := by
  obtain ⟨m', ms, hpush, -, hareas⟩ := @push_exists MemorySet.new ⟨⟨[]⟩, fun _ => 0⟩ 0x1000#64
    0x3000#64 default (.linear 0) inv_new (by decide) (by decide) (by decide) rfl (fun h => nomatch h)
  exact ⟨ms, inv_push inv_new hpush, by rw [hareas]; rfl⟩

/-- **`find_free_area` passes over a free empty range.** Take a memory set keeping its
invariant and a hint on a page boundary strictly inside an area. The first candidate is the
hint, and the empty range there shares no page with any area; but `is_overlap_with`, which is
to test for a page overlap, takes the page of `hint - 1` as the range's last and counts one, so
`find_free_area(hint, 0)` never returns the hint. -/
theorem find_free_area_skips_empty_range (hinv : ms.Inv) {a : MemoryArea} (ha : a ∈ ms.areas)
    {p : Usize} (hp : p.toNat % 4096 = 0) (hlo : a.start_addr < p) (hhi : p < a.end_addr) :
    (ms.free_area_candidates p).head? = some p ∧ (∀ area ∈ ms.areas, ¬ area.MeetsRange p 0) ∧
      ms.find_free_area p 0 ≠ some p := by
  refine ⟨by rw [free_area_candidates, List.map_cons, List.head?_cons, align_up_of_aligned hp],
    fun area _ ⟨b, hb₁, hb₂, _⟩ => ?_,
    fun hfind => ?_⟩
  · -- no byte lies in an empty range
    rw [Usize.toNat_zero] at hb₂
    omega
  · -- the hint is found only if its range is free, and the area overlaps it
    have hfree := List.find?_some hfind
    rw [show p + 0 = p from BitVec.add_zero p, test_free_area, Option.isNone_iff_eq_none,
      List.find?_eq_none] at hfree
    exact hfree a ha ((hinv.wf a ha).is_overlap_with_self_of_inside hp hlo hhi)

/-- In `[0x1000, 0x3000)`, `find_free_area(0x2000, 0)` passes over the free empty range at the
hint and returns the end of the area. -/
theorem find_free_area_skips_empty_range_mid_area :
    ∃ ms : MemorySet, ms.Inv ∧ ms.areas = [⟨0x1000#64, 0x3000#64, default, .linear 0⟩] ∧
      ms.find_free_area 0x2000#64 0 = some 0x3000#64 ∧
      ((ms.free_area_candidates 0x2000#64).head? = some 0x2000#64 ∧
        (∀ area ∈ ms.areas, ¬ area.MeetsRange 0x2000#64 0) ∧
        ms.find_free_area 0x2000#64 0 ≠ some 0x2000#64) := by
  obtain ⟨ms, hinv, hareas⟩ := exists_one_area
  have hmem : (⟨0x1000#64, 0x3000#64, default, .linear 0⟩ : MemoryArea) ∈ ms.areas := by
    rw [hareas]
    exact List.mem_singleton_self _
  have hfind : ms.find_free_area 0x2000#64 0 = some 0x3000#64 := by
    simp only [find_free_area, free_area_candidates, test_free_area, hareas]
    decide
  exact ⟨ms, hinv, hareas, hfind,
    find_free_area_skips_empty_range hinv hmem (by decide) (by decide) (by decide)⟩

end MemorySet

end Queen.Memory
