/-
Page arithmetic: what the address computations of `paging.rs` and `memory_set.rs` come to
on the numbers.

A page number is below `2 ^ 52`, so `Page::start_address`, `Page::of_addr` and the `+ 1` of
`is_overlap_with` never wrap. An area is well formed (`MemoryArea.WF`) when its bounds are
page-aligned and its start is below its end; `push` makes every area so. For such an area
the pages `Page::range_of` visits, the pages `is_overlap_with` counts and the bytes
`contains` accepts all describe the same half-open range, `MemoryArea.HasPage`.

`Page.range_of` is the list of pages; `PageRange.collect` calls the source's `next` until it
answers `None`, and `collect_range_of` says the two agree.
-/
import Queen.Memory.MemorySet

set_option autoImplicit false

namespace Queen.Memory

theorem PAGE_SIZE_eq : PAGE_SIZE = 4096#64 := by decide

/-! ## Pages -/

@[simp] theorem of_addr_number_toNat (a : VirtAddr) : (Page.of_addr a).number.toNat = a.toNat / 4096 := by
  rw [Page.of_addr, BitVec.toNat_udiv, PAGE_SIZE_toNat]

theorem start_address_toNat (p : Page) (h : p.number.toNat < 2 ^ 52) :
    p.start_address.toNat = p.number.toNat * 4096 := by
  rw [Page.start_address, BitVec.toNat_mul, PAGE_SIZE_toNat]
  exact Nat.mod_eq_of_lt (by omega)

/-- The page of a page's start address is the page. -/
theorem of_addr_start_address (p : Page) (h : p.number.toNat < 2 ^ 52) :
    Page.of_addr p.start_address = p := by
  have hnum : (Page.of_addr p.start_address).number = p.number := by
    apply BitVec.eq_of_toNat_eq
    rw [of_addr_number_toNat, start_address_toNat p h]
    omega
  obtain ⟨n⟩ := p
  show (⟨(Page.of_addr (⟨n⟩ : Page).start_address).number⟩ : Page) = ⟨n⟩
  rw [hnum]

/-- The `k`-th page of `Page::range_of(b, e)` is `k` pages past the page of `b`. -/
theorem range_of_number_toNat {b e : VirtAddr} {k : Nat}
    (hk : k < (e - 1).toNat / 4096 + 1 - b.toNat / 4096) :
    ((Page.of_addr b).number + BitVec.ofNat 64 k).toNat = b.toNat / 4096 + k := by
  rw [BitVec.toNat_add, of_addr_number_toNat, BitVec.toNat_ofNat, Nat.mod_eq_of_lt (by omega),
    Nat.mod_eq_of_lt (by omega)]

/-- The pages of `Page::range_of(begin, end)`: from the page of `begin` to the page of
`end - 1`, both included. -/
theorem mem_range_of {b e : VirtAddr} {p : Page} :
    p ∈ Page.range_of b e ↔
      b.toNat / 4096 ≤ p.number.toNat ∧ p.number.toNat ≤ (e - 1).toNat / 4096 := by
  simp only [Page.range_of, List.mem_map, List.mem_range, of_addr_number_toNat]
  constructor
  · rintro ⟨k, hk, rfl⟩
    rw [range_of_number_toNat hk]
    omega
  · obtain ⟨n⟩ := p
    rintro ⟨hlo, hhi⟩
    dsimp only at hlo hhi
    -- page `n` is the `n - b / 4096`-th of the range
    have hk : n.toNat - b.toNat / 4096 < (e - 1).toNat / 4096 + 1 - b.toNat / 4096 := by omega
    refine ⟨n.toNat - b.toNat / 4096, hk, ?_⟩
    rw [Page.mk.injEq]
    apply BitVec.eq_of_toNat_eq
    rw [range_of_number_toNat hk]
    omega

theorem number_lt_of_mem_range_of {b e : VirtAddr} {p : Page} (h : p ∈ Page.range_of b e) :
    p.number.toNat < 2 ^ 52 := by
  have := (mem_range_of.mp h).2
  omega

/-- `Page::range_of` yields its pages in strictly increasing order. -/
theorem pairwise_range_of (b e : VirtAddr) :
    (Page.range_of b e).Pairwise fun p q => p.number < q.number := by
  rw [Page.range_of, List.pairwise_map]
  refine List.Pairwise.imp_of_mem ?_ List.pairwise_lt_range
  intro i j hi hj hij
  rw [List.mem_range] at hi hj
  rw [BitVec.lt_def, range_of_number_toNat hi, range_of_number_toNat hj]
  omega

/-- Nor does it yield a page twice: pages of distinct numbers are distinct. -/
theorem nodup_range_of (b e : VirtAddr) : (Page.range_of b e).Nodup := by
  refine List.Pairwise.imp (fun {p q} hpq heq => ?_) (pairwise_range_of b e)
  rw [heq] at hpq
  exact BitVec.lt_irrefl _ hpq

theorem of_addr_eq_iff {x : VirtAddr} {p : Page} :
    Page.of_addr x = p ↔ x.toNat / 4096 = p.number.toNat := by
  obtain ⟨n⟩ := p
  rw [← of_addr_number_toNat]
  constructor
  · intro h
    rw [h]
  · intro h
    exact congrArg Page.mk (BitVec.eq_of_toNat_eq h)

/-- For `b < e`, the pages of `Page::range_of(b, e)` are those of the addresses in `[b, e)`. -/
theorem mem_range_of_iff_exists {b e : VirtAddr} (hbe : b < e) {p : Page} :
    p ∈ Page.range_of b e ↔ ∃ x, b ≤ x ∧ x < e ∧ Page.of_addr x = p := by
  rw [BitVec.lt_def] at hbe
  have he : (e - 1).toNat + 1 = e.toNat := by bv_omega
  rw [mem_range_of]
  constructor
  · rintro ⟨hlo, hhi⟩
    -- the first address of `p` in the range: `b` itself on the first page, else the page's start
    let x := max b.toNat (p.number.toNat * 4096)
    have hx : (BitVec.ofNat 64 x).toNat = x := Nat.mod_eq_of_lt (by omega)
    refine ⟨BitVec.ofNat 64 x, ?_, ?_, ?_⟩
    · rw [BitVec.le_def, hx]
      omega
    · rw [BitVec.lt_def, hx]
      omega
    · rw [of_addr_eq_iff, hx]
      omega
  · rintro ⟨x, hbx, hxe, rfl⟩
    rw [BitVec.le_def] at hbx
    rw [BitVec.lt_def] at hxe
    rw [of_addr_number_toNat]
    omega

/-! ## Iterating a `PageRange` -/

theorem add_one_add_ofNat (x : Usize) (k : Nat) :
    x + 1 + BitVec.ofNat 64 k = x + BitVec.ofNat 64 (k + 1) := by
  bv_omega

/-- From page `start` to page `last`, `next` yields the pages the closed form lists, given
fuel for each. The induction is on the fuel, with the start generalised. -/
theorem collect_eq_map_range (fuel : Nat) (start last : Usize) (hlast : last.toNat < 2 ^ 52)
    (hfuel : last.toNat + 1 - start.toNat ≤ fuel) :
    PageRange.collect fuel ⟨⟨start⟩, ⟨last⟩⟩ =
      (List.range (last.toNat + 1 - start.toNat)).map fun k => ⟨start + BitVec.ofNat 64 k⟩ := by
  induction fuel generalizing start with
  | zero =>
    rw [Nat.eq_zero_of_le_zero hfuel]
    rfl
  | succ fuel ih =>
    unfold PageRange.collect PageRange.next
    split_ifs with hle
    · -- `start` is yielded, and the loop goes on from the next page
      have hle' := BitVec.le_def.mp hle
      have hsucc : (start + 1).toNat = start.toNat + 1 := by bv_omega
      obtain ⟨n, hn⟩ : ∃ n, last.toNat + 1 - start.toNat = n + 1 :=
        ⟨last.toNat - start.toNat, by dsimp only at hle'; omega⟩
      rw [hn, List.range_succ_eq_map, List.map_cons, List.map_map]
      dsimp only
      rw [ih (start + 1) (by omega)]
      have hrest : last.toNat + 1 - (start + 1).toNat = n := by omega
      rw [hrest, BitVec.add_zero]
      congr 1
      refine List.map_congr_left fun k _ => ?_
      rw [Function.comp_apply, add_one_add_ofNat]
    · -- `start` is past `last`: the loop is over, and the closed form is empty
      have hlt : last.toNat + 1 - start.toNat = 0 := by
        have := BitVec.not_le.mp hle
        dsimp only at this
        bv_omega
      rw [hlt]
      rfl

/-- **`for page in Page::range_of(b, e)`.** The loop ends, within `2 ^ 52` calls of `next`,
and the pages it gets are those `Page.range_of` lists. -/
theorem collect_range_of (b e : VirtAddr) :
    PageRange.collect (2 ^ 52) ⟨Page.of_addr b, Page.of_addr (e - 1)⟩ = Page.range_of b e := by
  have hlast : (Page.of_addr (e - 1)).number.toNat < 2 ^ 52 := by
    rw [of_addr_number_toNat]
    omega
  exact collect_eq_map_range _ _ _ hlast (Nat.le_trans (Nat.sub_le _ _) hlast)

/-- The page-table key a page operation at the start of page `p` works on. -/
def Page.key (p : Page) : Usize := (Page.of_addr p.start_address).number

/-- The keys `for_pages` works on: the numbers of the pages of the range. -/
theorem mem_map_key_range_of {b e : VirtAddr} {n : Usize} :
    n ∈ (Page.range_of b e).map Page.key ↔
      b.toNat / 4096 ≤ n.toNat ∧ n.toNat ≤ (e - 1).toNat / 4096 := by
  constructor
  · rintro hn
    obtain ⟨p, hp, rfl⟩ := List.mem_map.mp hn
    rw [Page.key, of_addr_start_address p (number_lt_of_mem_range_of hp)]
    exact mem_range_of.mp hp
  · intro hn
    have hp : (⟨n⟩ : Page) ∈ Page.range_of b e := mem_range_of.mpr hn
    exact List.mem_map.mpr ⟨⟨n⟩, hp, by
      rw [Page.key, of_addr_start_address _ (number_lt_of_mem_range_of hp)]⟩

/-! ## Rounding to pages -/

/-- The page before a nonzero page-aligned address is the one just below its page. -/
theorem pred_page_of_aligned {x : VirtAddr} (hx : x.toNat % 4096 = 0) (hpos : 0 < x.toNat) :
    (x - 1).toNat / 4096 = x.toNat / 4096 - 1 := by
  rw [Usize.toNat_sub_of_le (by bv_omega), Usize.toNat_one]
  omega

/-- `Page::range_of(p, p)` at a page boundary other than `0` yields no page: its last page,
that of `p - 1`, comes before its first. -/
theorem range_of_self_eq_nil {p : VirtAddr} (hp : p.toNat % 4096 = 0) (hpos : 0 < p.toNat) :
    Page.range_of p p = [] := by
  refine List.eq_nil_iff_forall_not_mem.mpr fun q hq => ?_
  rw [mem_range_of, pred_page_of_aligned hp hpos] at hq
  omega

/-- `addr & !(PAGE_SIZE - 1)` rounds down to a page. -/
theorem align_down_toNat (x : Usize) : (x &&& ~~~(PAGE_SIZE - 1)).toNat = x.toNat / 4096 * 4096 := by
  have hmask : ~~~(PAGE_SIZE - 1) = BitVec.allOnes 64 <<< 12 := by decide
  rw [hmask, ← BitVec.shiftLeft_ushiftRight, BitVec.toNat_shiftLeft, BitVec.toNat_ushiftRight,
    Nat.shiftRight_eq_div_pow, Nat.shiftLeft_eq]
  exact Nat.mod_eq_of_lt (by omega)

/-- Rounding an aligned start down leaves it as it is. -/
theorem align_down_of_aligned {x : Usize} (hx : x.toNat % 4096 = 0) : x &&& ~~~(PAGE_SIZE - 1) = x := by
  apply BitVec.eq_of_toNat_eq
  rw [align_down_toNat]
  omega

/-- Rounding an aligned end up leaves it as it is: it is at most `2 ^ 64 - 4096`, so adding
`PAGE_SIZE - 1` does not wrap. -/
theorem align_up_of_aligned {x : Usize} (hx : x.toNat % 4096 = 0) :
    (x + PAGE_SIZE - 1) &&& ~~~(PAGE_SIZE - 1) = x := by
  have hsum : (x + PAGE_SIZE - 1).toNat = x.toNat + 4095 := by
    have := x.isLt
    rw [PAGE_SIZE_eq]
    bv_omega
  apply BitVec.eq_of_toNat_eq
  rw [align_down_toNat, hsum]
  omega

/-! ## Areas -/

/-- A well-formed area: page-aligned bounds, the start below the end. -/
structure MemoryArea.WF (a : MemoryArea) : Prop where
  start_aligned : a.start_addr.toNat % 4096 = 0
  end_aligned : a.end_addr.toNat % 4096 = 0
  lt : a.start_addr.toNat < a.end_addr.toNat

/-- Page `n` lies in the area. -/
def MemoryArea.HasPage (a : MemoryArea) (n : Usize) : Prop :=
  a.start_addr.toNat / 4096 ≤ n.toNat ∧ n.toNat < a.end_addr.toNat / 4096

instance (a : MemoryArea) (n : Usize) : Decidable (a.HasPage n) :=
  inferInstanceAs (Decidable (_ ∧ _))

namespace MemoryArea

variable {a : MemoryArea}

theorem WF.end_pos (h : a.WF) : 4096 ≤ a.end_addr.toNat := by
  have := h.lt
  have := h.end_aligned
  omega

/-- The last page of a well-formed area is the page before its end. -/
theorem WF.last_page (h : a.WF) : (a.end_addr - 1).toNat / 4096 = a.end_addr.toNat / 4096 - 1 :=
  pred_page_of_aligned h.end_aligned (by have := h.end_pos; omega)

/-- The keys `for_pages` visits in a well-formed area are its pages. -/
theorem WF.mem_keys (h : a.WF) {n : Usize} :
    n ∈ (Page.range_of a.start_addr a.end_addr).map Page.key ↔ a.HasPage n := by
  rw [mem_map_key_range_of, h.last_page, HasPage]
  have := h.end_pos
  omega

/-- `contains(addr)` in a well-formed area: the page of the address is one of its pages. -/
theorem WF.hasPage_of_contains (h : a.WF) {addr : VirtAddr} (hc : a.contains addr = true) :
    a.HasPage (Page.of_addr addr).number := by
  simp only [contains, Bool.and_eq_true, decide_eq_true_eq] at hc
  obtain ⟨hlo, hhi⟩ := hc
  rw [HasPage, of_addr_number_toNat]
  have := h.start_aligned
  have := h.end_aligned
  constructor
  · exact Nat.div_le_div_right (BitVec.le_def.mp hlo)
  · have := BitVec.lt_def.mp hhi
    omega

/-- `is_overlap_with(start_addr, end_addr)` for a well-formed area: the area has a page
from the page of `start_addr` on, below the page after that of `end_addr - 1`. -/
theorem WF.is_overlap_with_iff (h : a.WF) (s e : VirtAddr) :
    a.is_overlap_with s e = true ↔
      s.toNat / 4096 < a.end_addr.toNat / 4096 ∧
        a.start_addr.toNat / 4096 < (e - 1).toNat / 4096 + 1 := by
  have hlast := h.last_page
  have hend := h.end_pos
  have h1 : ((Page.of_addr (a.end_addr - 1)).number + 1).toNat = a.end_addr.toNat / 4096 := by
    rw [BitVec.toNat_add, of_addr_number_toNat, hlast, Usize.toNat_one]
    omega
  have h3 : ((Page.of_addr (e - 1)).number + 1).toNat = (e - 1).toNat / 4096 + 1 := by
    rw [BitVec.toNat_add, of_addr_number_toNat, Usize.toNat_one]
    omega
  simp only [is_overlap_with, Bool.not_eq_true', Bool.or_eq_false_iff, decide_eq_false_iff_not,
    BitVec.not_le, BitVec.lt_def, h1, h3, of_addr_number_toNat]

/-- For a well-formed area and a range whose `Page::range_of` is not empty (the page of `s`
is not past that of `e - 1`), `is_overlap_with(s, e)` holds exactly when that range and the
area's own range share a page. -/
theorem WF.is_overlap_with_iff_common_page (h : a.WF) {s e : VirtAddr}
    (hne : s.toNat / 4096 ≤ (e - 1).toNat / 4096) :
    a.is_overlap_with s e = true ↔
      ∃ p ∈ Page.range_of s e, p ∈ Page.range_of a.start_addr a.end_addr := by
  have hlt := h.lt
  have hend := h.end_pos
  have hal := h.end_aligned
  simp only [h.is_overlap_with_iff, mem_range_of, h.last_page]
  constructor
  · rintro ⟨h1, h2⟩
    -- the later of the two first pages lies in both ranges
    let n := max (s.toNat / 4096) (a.start_addr.toNat / 4096)
    have hn : (BitVec.ofNat 64 n).toNat = n := Nat.mod_eq_of_lt (by omega)
    refine ⟨⟨BitVec.ofNat 64 n⟩, ?_, ?_⟩ <;> rw [hn] <;> omega
  · rintro ⟨p, ⟨h1, h2⟩, h3, h4⟩
    omega

/-- An empty range on a page boundary strictly inside a well-formed area: `is_overlap_with`
takes the page of `p - 1` as the range's last, so it counts an overlap. -/
theorem WF.is_overlap_with_self_of_inside (h : a.WF) {p : VirtAddr} (hp : p.toNat % 4096 = 0)
    (hlo : a.start_addr < p) (hhi : p < a.end_addr) : a.is_overlap_with p p = true := by
  rw [BitVec.lt_def] at hlo hhi
  have hprev := pred_page_of_aligned hp (by omega)
  have := h.start_aligned
  have := h.end_aligned
  rw [h.is_overlap_with_iff, hprev]
  omega

end MemoryArea

/-- **Pages of a range and page overlap.** `Page::range_of(s, e)` yields its pages once each,
in strictly increasing order, and for `s < e` they are the pages that meet `[s, e)`. For a
well-formed area, `is_overlap_with(s, e)` holds exactly when that range and the area's share a
page, for `s < e` and for an empty range not on a page boundary, where both take the page of
`s`. -/
theorem range_of_agrees_with_overlap (s e : VirtAddr) (hse : s < e ∨ (s = e ∧ s.toNat % 4096 ≠ 0))
    (a : MemoryArea) (ha : a.WF) :
    (Page.range_of s e).Pairwise (fun p q => p.number < q.number) ∧
    (Page.range_of s e).Nodup ∧
    (s < e → ∀ p, p ∈ Page.range_of s e ↔ ∃ x, s ≤ x ∧ x < e ∧ Page.of_addr x = p) ∧
    (a.is_overlap_with s e = true ↔
      ∃ p ∈ Page.range_of s e, p ∈ Page.range_of a.start_addr a.end_addr) := by
  -- either way the page of `s` is not past that of `e - 1`
  have hne : s.toNat / 4096 ≤ (e - 1).toNat / 4096 := by
    rcases hse with hlt | ⟨rfl, hal⟩
    · rw [BitVec.lt_def] at hlt
      have he : (e - 1).toNat = e.toNat - 1 := by bv_omega
      rw [he]
      omega
    · have hs : (s - 1).toNat = s.toNat - 1 := by bv_omega
      rw [hs]
      omega
  exact ⟨pairwise_range_of s e, nodup_range_of s e, fun hlt p => mem_range_of_iff_exists hlt,
    ha.is_overlap_with_iff_common_page hne⟩

/-- The area `[0x1000, 0x3000)` overlaps `[0x1000, 0x2000)`, whose one page is page 1. -/
example :
    let a : MemoryArea := ⟨0x1000, 0x3000, default, .byFrame⟩
    a.is_overlap_with 0x1000 0x2000 = true ∧ ⟨1⟩ ∈ Page.range_of 0x1000 0x2000 := by
  intro a
  have h := range_of_agrees_with_overlap 0x1000 0x2000 (.inl (by decide)) a
    ⟨by decide, by decide, by decide⟩
  exact ⟨h.2.2.2.mpr ⟨⟨1⟩, by decide, by decide⟩,
    (h.2.2.1 (by decide) ⟨1⟩).mpr ⟨0x1000, by decide, by decide, by decide⟩⟩

/-- **An empty range on a page boundary inside an area overlaps it.** `is_overlap_with` is to
test whether the area overlaps `[start_addr, end_addr)` at page granularity; at `s = e` on a
page boundary strictly inside a well-formed area it counts an overlap, although the range has
no page and `Page::range_of(s, e)` yields none. -/
theorem is_overlap_with_empty_range {a : MemoryArea} (ha : a.WF) {p : VirtAddr}
    (hp : p.toNat % 4096 = 0) (hlo : a.start_addr < p) (hhi : p < a.end_addr) :
    a.is_overlap_with p p = true ∧ Page.range_of p p = [] :=
  ⟨ha.is_overlap_with_self_of_inside hp hlo hhi,
    range_of_self_eq_nil hp (by rw [BitVec.lt_def] at hlo; omega)⟩

/-- The empty range at `0x2000` "overlaps" `[0x1000, 0x3000)`. -/
theorem is_overlap_with_empty_range_mid_area :
    let a : MemoryArea := ⟨0x1000, 0x3000, default, .byFrame⟩
    a.WF ∧ (0x2000 : VirtAddr).toNat % 4096 = 0 ∧ a.start_addr < 0x2000 ∧ 0x2000 < a.end_addr ∧
      a.is_overlap_with 0x2000 0x2000 = true ∧ Page.range_of 0x2000 0x2000 = [] := by
  intro a
  have ha : a.WF := ⟨by decide, by decide, by decide⟩
  have hp : (0x2000 : VirtAddr).toNat % 4096 = 0 := by decide
  have hlo : a.start_addr < 0x2000 := by decide
  have hhi : (0x2000 : VirtAddr) < a.end_addr := by decide
  exact ⟨ha, hp, hlo, hhi, is_overlap_with_empty_range ha hp hlo hhi⟩

end Queen.Memory
