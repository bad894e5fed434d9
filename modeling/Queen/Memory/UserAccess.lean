/-
How the kernel reaches user memory: the checks `MemorySet::check_read_array` and
`check_write_array` make before a system call touches a user buffer, and the access itself.

The kernel reads and writes user memory through raw pointers, with the user's page table in
use, so each byte goes through the page table like a user access: its page must have a
present entry, and a writable one for a write. When it does not, the processor takes a fault
in kernel mode, and `trap_handler` panics, since `memory::handle_page_fault` returns `false`
without looking at the memory set. `PageTable.translate` is that access, `none` for the
fault.

The checks look only at the areas. On a memory set that keeps its invariant, a buffer that
lies inside one area passes them (`Inv.check_read_array_of_mem`): every other area covers
none of it, the area all of it.

Whether the areas cover a buffer is counted: the points of a window in each of a list of
pairwise disjoint intervals, added up, are the points of the window in some interval
(`Intervals.sum_card_inter_eq`); the sum is the window's size exactly when every point of the
window lies in an interval (`Intervals.sum_card_inter_eq_card_iff`).
-/
import Queen.Memory.Invariant

set_option autoImplicit false

namespace Queen.Intervals

open Finset

/-- The intervals `[i.1, i.2)` of a list are pairwise disjoint. -/
def PairwiseDisjoint (ivs : List (ℕ × ℕ)) : Prop :=
  ivs.Pairwise fun i j => Disjoint (Ico i.1 i.2) (Ico j.1 j.2)

/-- The points of the window `w`, counted interval by interval, are the points of `w` in some
interval. -/
theorem sum_card_inter_eq (w : Finset ℕ) :
    ∀ ivs : List (ℕ × ℕ), PairwiseDisjoint ivs →
      (ivs.map fun i => (w ∩ Ico i.1 i.2).card).sum =
        (w.filter fun x => ∃ i ∈ ivs, x ∈ Ico i.1 i.2).card
  | [], _ => by simp
  | i :: ivs, h => by
    unfold PairwiseDisjoint at h
    rw [List.pairwise_cons] at h
    rw [List.map_cons, List.sum_cons, sum_card_inter_eq w ivs h.2]
    -- the points of `i` and those of the later intervals are apart
    have hsplit : (w.filter fun x => ∃ j ∈ i :: ivs, x ∈ Ico j.1 j.2) =
        (w ∩ Ico i.1 i.2) ∪ w.filter fun x => ∃ j ∈ ivs, x ∈ Ico j.1 j.2 := by
      ext x
      simp only [mem_filter, List.mem_cons, exists_eq_or_imp, mem_union, mem_inter]
      tauto
    have hdisj : Disjoint (w ∩ Ico i.1 i.2) (w.filter fun x => ∃ j ∈ ivs, x ∈ Ico j.1 j.2) := by
      rw [disjoint_left]
      intro x hx hx'
      obtain ⟨j, hj, hxj⟩ := (mem_filter.mp hx').2
      exact disjoint_left.mp (h.1 j hj) (mem_inter.mp hx).2 hxj
    rw [hsplit, card_union_of_disjoint hdisj]

/-- Disjoint intervals cover at most the window. -/
theorem sum_card_inter_le (w : Finset ℕ) {ivs : List (ℕ × ℕ)} (h : PairwiseDisjoint ivs) :
    (ivs.map fun i => (w ∩ Ico i.1 i.2).card).sum ≤ w.card := by
  rw [sum_card_inter_eq w ivs h]
  exact card_filter_le _ _

/-- Disjoint intervals cover the whole window exactly when each of its points lies in one. -/
theorem sum_card_inter_eq_card_iff (w : Finset ℕ) {ivs : List (ℕ × ℕ)} (h : PairwiseDisjoint ivs) :
    (ivs.map fun i => (w ∩ Ico i.1 i.2).card).sum = w.card ↔ ∀ x ∈ w, ∃ i ∈ ivs, x ∈ Ico i.1 i.2 := by
  rw [sum_card_inter_eq w ivs h]
  exact card_filter_eq_iff

/-- The points of a window `[lo, hi)` in an interval `[a, b)`. -/
theorem card_Ico_inter_Ico (lo hi a b : ℕ) : (Ico lo hi ∩ Ico a b).card = min hi b - max lo a := by
  rw [Ico_inter_Ico, Nat.card_Ico]

end Queen.Intervals

namespace Queen.Memory

/-! ## The access -/

namespace PageTable

/-- The kernel's access to the user byte at `addr`: the physical address behind it, or
`none` for a fault. -/
def translate (pt : PageTable) (write : Bool) (addr : VirtAddr) : Option PhysAddr :=
  match pt.get_entry addr with
  | some e =>
    if e.present && (!write || e.writable) then some (e.target + (addr &&& (PAGE_SIZE - 1)))
    else none
  | none => none

/-- The kernel writing `data` byte after byte from the user address `addr`. -/
def write_bytes (pt : PageTable) (mem : PhysMem) (addr : VirtAddr) :
    List (BitVec 8) → Option PhysMem
  | [] => some mem
  | b :: rest => do
    let pa ← pt.translate true addr
    pt.write_bytes (fun a => if a = pa then b else mem a) (addr + 1) rest

theorem translate_isSome_iff (pt : PageTable) (write : Bool) (addr : VirtAddr) :
    (pt.translate write addr).isSome ↔ ∃ e, pt.lookup (Page.of_addr addr).number = some e ∧
      e.present = true ∧ (write = true → e.writable = true) := by
  unfold translate
  rw [← get_entry_eq]
  cases pt.get_entry addr with
  | none => simp
  | some e =>
    cases write <;> cases hp : e.present <;> cases hw : e.writable <;> simp [hp, hw]

/-- The write goes through when every byte it touches can be written. -/
theorem write_bytes_isSome (pt : PageTable) :
    ∀ (data : List (BitVec 8)) (mem : PhysMem) (addr : VirtAddr),
      (∀ i < data.length, (pt.translate true (addr + BitVec.ofNat 64 i)).isSome) →
      (pt.write_bytes mem addr data).isSome
  | [], _, _, _ => rfl
  | b :: rest, mem, addr, h => by
    obtain ⟨pa, hpa⟩ := Option.isSome_iff_exists.mp (by simpa using h 0 (by simp))
    simp only [write_bytes, hpa, Option.bind_eq_bind, Option.bind_some]
    refine write_bytes_isSome pt rest _ (addr + 1) fun i hi => ?_
    have heq : addr + 1 + BitVec.ofNat 64 i = addr + BitVec.ofNat 64 (i + 1) := by
      apply BitVec.eq_of_toNat_eq
      simp only [BitVec.toNat_add, BitVec.toNat_ofNat, Usize.toNat_one]
      omega
    rw [heq]
    exact h (i + 1) (by simp; omega)

/-- A page without a present entry faults on every access. -/
theorem translate_eq_none_of_absent {pt : PageTable} {addr : VirtAddr} {e : Entry}
    (he : pt.lookup (Page.of_addr addr).number = some e) (hp : e.present = false) (write : Bool) :
    pt.translate write addr = none := by
  unfold translate
  rw [get_entry_eq, he]
  simp [hp]

/-- The kernel can write every byte of `[lo, hi)`. -/
def Writable (pt : PageTable) (lo hi : Nat) : Prop :=
  ∀ addr : VirtAddr, lo ≤ addr.toNat → addr.toNat < hi → (pt.translate true addr).isSome

/-- A write that stays inside a writable range goes through. -/
theorem Writable.write_bytes_isSome {pt : PageTable} {lo hi : Nat} (hw : pt.Writable lo hi)
    (hhi : hi ≤ 2 ^ 64) (mem : PhysMem) (addr : VirtAddr) (data : List (BitVec 8))
    (hlo : lo ≤ addr.toNat) (hend : addr.toNat + data.length ≤ hi) :
    (pt.write_bytes mem addr data).isSome := by
  refine pt.write_bytes_isSome data mem addr fun i hlt => ?_
  -- the address of the byte does not wrap
  have haddr : (addr + BitVec.ofNat 64 i).toNat = addr.toNat + i := by
    rw [BitVec.toNat_add, BitVec.toNat_ofNat, Nat.mod_eq_of_lt (by omega : i < 2 ^ 64)]
    exact Nat.mod_eq_of_lt (by omega)
  exact hw _ (by omega) (by omega)

end PageTable

/-! ## What an area covers -/

namespace MemoryArea

variable {a : MemoryArea}

/-- `Page::of_addr(start_addr).start_address()` of an aligned start is the start. -/
theorem start_page_of_aligned (hs : a.start_addr.toNat % 4096 = 0) :
    (Page.of_addr a.start_addr).start_address = a.start_addr := by
  apply BitVec.eq_of_toNat_eq
  rw [start_address_toNat _ (by rw [of_addr_number_toNat]; omega), of_addr_number_toNat]
  omega

/-- `Page::of_addr(end_addr + PAGE_SIZE - 1).start_address()` of an aligned end is the end:
it is far enough below `2 ^ 64` not to wrap. -/
theorem end_page_of_aligned (he : a.end_addr.toNat % 4096 = 0) :
    (Page.of_addr (a.end_addr + PAGE_SIZE - 1)).start_address = a.end_addr := by
  have hlt := a.end_addr.isLt
  have hsum : (a.end_addr + PAGE_SIZE - 1).toNat = a.end_addr.toNat + 4095 := by
    rw [PAGE_SIZE_eq]
    bv_omega
  apply BitVec.eq_of_toNat_eq
  rw [start_address_toNat _ (by rw [of_addr_number_toNat, hsum]; omega), of_addr_number_toNat,
    hsum]
  omega

/-- The bytes of `[ptr, ptr + count * size)` that an area with aligned bounds covers, the end
of the buffer taken as the code computes it, wrapped or not. -/
theorem check_read_array_toNat_of_aligned (hs : a.start_addr.toNat % 4096 = 0)
    (he : a.end_addr.toNat % 4096 = 0) (size ptr count : Usize) :
    (a.check_read_array size ptr count).toNat =
      min (ptr + count * size).toNat a.end_addr.toNat - max ptr.toNat a.start_addr.toNat := by
  unfold check_read_array
  dsimp only
  rw [start_page_of_aligned hs, end_page_of_aligned he]
  -- the two bounds, `usize::max` and `usize::min` of the source
  generalize hlo : (if ptr ≤ a.start_addr then a.start_addr else ptr) = lo
  generalize hhi : (if ptr + count * size ≤ a.end_addr then ptr + count * size else a.end_addr) = hi
  have hlo' : lo.toNat = max ptr.toNat a.start_addr.toNat := by
    subst hlo
    split_ifs with h <;> rw [BitVec.le_def] at h <;> omega
  have hhi' : hi.toNat = min (ptr + count * size).toNat a.end_addr.toNat := by
    subst hhi
    split_ifs with h <;> rw [BitVec.le_def] at h <;> omega
  split_ifs with h
  · rw [Usize.toNat_sub_of_le h, hlo', hhi']
  · rw [ge_iff_le, BitVec.le_def, hlo', hhi'] at h
    rw [Usize.toNat_zero]
    omega

/-- The bytes of `[ptr, ptr + count * size)` that a well-formed area covers, when the end of
the buffer does not wrap. -/
theorem check_read_array_toNat (hwf : a.WF) {size ptr count : Usize}
    (hn : ptr.toNat + (count * size).toNat < 2 ^ 64) :
    (a.check_read_array size ptr count).toNat =
      min (ptr.toNat + (count * size).toNat) a.end_addr.toNat - max ptr.toNat a.start_addr.toNat := by
  have hend : (ptr + count * size).toNat = ptr.toNat + (count * size).toNat := by
    rw [BitVec.toNat_add]
    exact Nat.mod_eq_of_lt hn
  rw [check_read_array_toNat_of_aligned hwf.start_aligned hwf.end_aligned, hend]

end MemoryArea

/-! ## The checks -/

namespace MemorySet

open MemoryArea

/-- The loop of the checks succeeds at an area that covers the whole buffer when the areas
before it cover none of it. -/
theorem check_loop_of_owner (covered : MemoryArea → Usize) (total : Usize) {a : MemoryArea}
    (ha : covered a = total) (post : List MemoryArea) :
    ∀ pre : List MemoryArea, (∀ b ∈ pre, covered b = 0) →
      check_loop covered total (pre ++ a :: post) 0 = true
  | [], _ => by simp [check_loop, ha]
  | b :: pre, hpre => by
    have hb : covered b = 0 := hpre b List.mem_cons_self
    simp only [List.cons_append, check_loop, hb]
    split
    · rfl
    · exact check_loop_of_owner covered total ha post pre fun c hc => hpre c (List.mem_cons_of_mem _ hc)

/-- The loop of the checks, while the sum so far is short of the total and the areas left
cannot carry it past: it succeeds exactly when they make up the rest. -/
theorem check_loop_iff (covered : MemoryArea → Usize) (total : Usize) :
    ∀ (areas : List MemoryArea) (v : Usize), v.toNat < total.toNat →
      v.toNat + (areas.map fun a => (covered a).toNat).sum ≤ total.toNat →
      (check_loop covered total areas v = true ↔
        v.toNat + (areas.map fun a => (covered a).toNat).sum = total.toNat)
  | [], v, hlt, _ => by
    simp only [check_loop, Bool.false_eq_true, false_iff, List.map_nil, List.sum_nil]
    omega
  | a :: as, v, hlt, hle => by
    rw [List.map_cons, List.sum_cons] at hle ⊢
    -- the running sum does not wrap
    have hadd : (v + covered a).toNat = v.toNat + (covered a).toNat := by
      rw [BitVec.toNat_add]
      exact Nat.mod_eq_of_lt (by have := total.isLt; omega)
    simp only [check_loop]
    split
    · next heq =>
      have hsum := congrArg BitVec.toNat heq
      rw [hadd] at hsum
      simp only [true_iff]
      omega
    · next hne =>
      have hne' : v.toNat + (covered a).toNat ≠ total.toNat := fun h =>
        hne (BitVec.eq_of_toNat_eq (by rw [hadd]; exact h))
      rw [check_loop_iff covered total as (v + covered a) (by rw [hadd]; omega)
        (by rw [hadd]; omega), hadd]
      omega

/-- **The loop of the checks, read byte by byte.** When each area counts the bytes of the
buffer in an interval of its own, the intervals pairwise disjoint and below `2 ^ 64`, the
loop succeeds exactly when every byte of `[ptr, ptr + count * size)`, computed without
wrapping, lies in one of them. A buffer whose end wraps has its last byte past every area,
and no area counts any of it. -/
theorem check_loop_covers (covered : MemoryArea → Usize) (iv : MemoryArea → ℕ × ℕ)
    {areas : List MemoryArea} {size ptr count : Usize}
    (hcov : ∀ a ∈ areas, (covered a).toNat = min (ptr + count * size).toNat (iv a).2 - max ptr.toNat (iv a).1)
    (hend : ∀ a ∈ areas, (iv a).2 < 2 ^ 64) (hdisj : Intervals.PairwiseDisjoint (areas.map iv))
    (hpos : 1 ≤ count.toNat * size.toNat) (hfit : count.toNat * size.toNat < 2 ^ 64) :
    check_loop covered (size * count) areas 0 = true ↔
      ∀ x, ptr.toNat ≤ x → x < ptr.toNat + count.toNat * size.toNat →
        ∃ a ∈ areas, (iv a).1 ≤ x ∧ x < (iv a).2 := by
  have htotal : (size * count).toNat = count.toNat * size.toNat := by
    rw [BitVec.toNat_mul, Nat.mul_comm]
    exact Nat.mod_eq_of_lt hfit
  have hmul : (count * size).toNat = count.toNat * size.toNat := by
    rw [BitVec.toNat_mul]
    exact Nat.mod_eq_of_lt hfit
  by_cases hwrap : ptr.toNat + count.toNat * size.toNat < 2 ^ 64
  · -- each area counts its points of the window `[ptr, ptr + count * size)`
    have hhi : (ptr + count * size).toNat = ptr.toNat + count.toNat * size.toNat := by
      rw [BitVec.toNat_add, hmul]
      exact Nat.mod_eq_of_lt hwrap
    set w := Finset.Ico ptr.toNat (ptr.toNat + count.toNat * size.toNat)
    have hwcard : w.card = count.toNat * size.toNat := by simp [w]
    have hsum : (areas.map fun a => (covered a).toNat).sum =
        ((areas.map iv).map fun i => (w ∩ Finset.Ico i.1 i.2).card).sum := by
      rw [List.map_map]
      congr 1
      refine List.map_congr_left fun a ha => ?_
      rw [hcov a ha, hhi, Function.comp_apply, Intervals.card_Ico_inter_Ico]
    rw [check_loop_iff covered _ areas 0 (by rw [Usize.toNat_zero, htotal]; omega)
      (by rw [Usize.toNat_zero, htotal, hsum, Nat.zero_add, ← hwcard]
          exact Intervals.sum_card_inter_le w hdisj),
      Usize.toNat_zero, Nat.zero_add, htotal, hsum]
    have hcover := Intervals.sum_card_inter_eq_card_iff w hdisj
    rw [hwcard] at hcover
    rw [hcover]
    constructor
    · intro h x hlo hhi'
      obtain ⟨i, hi, hxi⟩ := h x (Finset.mem_Ico.mpr ⟨hlo, hhi'⟩)
      obtain ⟨a, ha, rfl⟩ := List.mem_map.mp hi
      exact ⟨a, ha, Finset.mem_Ico.mp hxi⟩
    · intro h x hx
      obtain ⟨hlo, hhi'⟩ := Finset.mem_Ico.mp hx
      obtain ⟨a, ha, hxa⟩ := h x hlo hhi'
      exact ⟨iv a, List.mem_map_of_mem ha, Finset.mem_Ico.mpr hxa⟩
  · -- the end wraps below `ptr`: no area counts a byte, and the last byte is past them all
    have hhi : (ptr + count * size).toNat < ptr.toNat := by
      rw [BitVec.toNat_add, hmul]
      have := ptr.isLt
      rw [Nat.mod_eq_sub_mod (by omega), Nat.mod_eq_of_lt (by omega)]
      omega
    have hzero : (areas.map fun a => (covered a).toNat).sum = 0 :=
      List.sum_eq_zero fun n hn => by
        obtain ⟨a, ha, rfl⟩ := List.mem_map.mp hn
        rw [hcov a ha]
        omega
    rw [check_loop_iff covered _ areas 0 (by rw [Usize.toNat_zero, htotal]; omega)
      (by rw [Usize.toNat_zero, htotal, hzero]; omega), Usize.toNat_zero, htotal, hzero]
    constructor
    · intro h
      omega
    · intro h
      obtain ⟨a, ha, -, hlt⟩ := h (ptr.toNat + count.toNat * size.toNat - 1) (by omega) (by omega)
      have := hend a ha
      omega

/-- Areas apart as `contains` reads them are apart as intervals of addresses. -/
theorem disjoint_Ico_of_contains {a b : MemoryArea}
    (h : ∀ addr, ¬ (a.contains addr = true ∧ b.contains addr = true)) :
    Disjoint (Finset.Ico a.start_addr.toNat a.end_addr.toNat)
      (Finset.Ico b.start_addr.toNat b.end_addr.toNat) := by
  rw [Finset.disjoint_left]
  intro x hxa hxb
  rw [Finset.mem_Ico] at hxa hxb
  have hx : (BitVec.ofNat 64 x).toNat = x := by
    rw [BitVec.toNat_ofNat]
    exact Nat.mod_eq_of_lt (by have := a.end_addr.isLt; omega)
  refine h (BitVec.ofNat 64 x) ⟨?_, ?_⟩ <;>
    simp only [contains, Bool.and_eq_true, decide_eq_true_eq, ge_iff_le, BitVec.le_def,
      BitVec.lt_def, hx] <;> omega

section Checks

variable {areas : List MemoryArea}
  (haligned : ∀ a ∈ areas, a.start_addr.toNat % 4096 = 0 ∧ a.end_addr.toNat % 4096 = 0)
  (hdisj : areas.Pairwise fun a b => ∀ addr, ¬ (a.contains addr = true ∧ b.contains addr = true))
include haligned hdisj

theorem check_read_array_iff {pt : PageTable} {size ptr count : Usize}
    (hpos : 1 ≤ count.toNat * size.toNat) (hfit : count.toNat * size.toNat < 2 ^ 64) :
    (⟨areas, pt⟩ : MemorySet).check_read_array size ptr count = true ↔
      ∀ x, ptr.toNat ≤ x → x < ptr.toNat + count.toNat * size.toNat →
        ∃ a ∈ areas, a.start_addr.toNat ≤ x ∧ x < a.end_addr.toNat :=
  check_loop_covers _ (fun a => (a.start_addr.toNat, a.end_addr.toNat))
    (fun a ha => check_read_array_toNat_of_aligned (haligned a ha).1 (haligned a ha).2 size ptr count)
    (fun a _ => a.end_addr.isLt)
    (List.pairwise_map.mpr (hdisj.imp disjoint_Ico_of_contains)) hpos hfit

theorem check_write_array_iff {pt : PageTable} {size ptr count : Usize}
    (hpos : 1 ≤ count.toNat * size.toNat) (hfit : count.toNat * size.toNat < 2 ^ 64) :
    (⟨areas, pt⟩ : MemorySet).check_write_array size ptr count = true ↔
      ∀ x, ptr.toNat ≤ x → x < ptr.toNat + count.toNat * size.toNat →
        ∃ a ∈ areas, a.attr.readonly = false ∧ a.start_addr.toNat ≤ x ∧ x < a.end_addr.toNat := by
  -- a read-only area counts as the empty interval
  have h := @check_loop_covers (fun a => a.check_write_array size ptr count)
    (fun a => if a.attr.readonly then (0, 0) else (a.start_addr.toNat, a.end_addr.toNat))
    areas size ptr count (fun a ha => by
      unfold MemoryArea.check_write_array
      split_ifs
      · simp
      · exact check_read_array_toNat_of_aligned (haligned a ha).1 (haligned a ha).2 size ptr count)
    (fun a _ => by split_ifs <;> simp [a.end_addr.isLt])
    (List.pairwise_map.mpr (hdisj.imp fun {a b} hab => by
      split_ifs
      · simp
      · simp
      · simp
      · exact disjoint_Ico_of_contains hab)) hpos hfit
  refine h.trans (forall_congr' fun x => imp_congr_right fun _ => imp_congr_right fun _ =>
    exists_congr fun a => and_congr_right fun _ => ?_)
  split_ifs with hro
  · simp [hro]
  · simp [hro]

end Checks

/-- **The checks of user buffers.** On a memory set whose areas are page-aligned and pairwise
disjoint, for an element type of at least one byte and `count ≥ 1` elements whose size in bytes
fits a `usize`: `check_read_array` returns `Ok` exactly when every byte of
`[ptr, ptr + count * size)`, computed without wrapping, lies in an area, and
`check_write_array` exactly when every such byte lies in an area that is not read-only. -/
theorem check_array_spec {ms : MemorySet}
    (haligned : ∀ a ∈ ms.areas, a.start_addr.toNat % 4096 = 0 ∧ a.end_addr.toNat % 4096 = 0)
    (hdisj : ms.areas.Pairwise fun a b => ∀ addr, ¬ (a.contains addr = true ∧ b.contains addr = true))
    {size ptr count : Usize} (hsize : 1 ≤ size.toNat) (hcount : 1 ≤ count.toNat)
    (hfit : count.toNat * size.toNat < 2 ^ 64) :
    (ms.check_read_array size ptr count = true ↔
      ∀ x, ptr.toNat ≤ x → x < ptr.toNat + count.toNat * size.toNat →
        ∃ a ∈ ms.areas, a.start_addr.toNat ≤ x ∧ x < a.end_addr.toNat) ∧
    (ms.check_write_array size ptr count = true ↔
      ∀ x, ptr.toNat ≤ x → x < ptr.toNat + count.toNat * size.toNat →
        ∃ a ∈ ms.areas, a.attr.readonly = false ∧ a.start_addr.toNat ≤ x ∧ x < a.end_addr.toNat) := by
  obtain ⟨areas, pt⟩ := ms
  have hpos : 1 ≤ count.toNat * size.toNat := Nat.mul_le_mul hcount hsize
  exact ⟨check_read_array_iff haligned hdisj hpos hfit, check_write_array_iff haligned hdisj hpos hfit⟩

/-- Two adjacent `ByFrame` areas, `[0x1000, 0x2000)` writable and `[0x2000, 0x3000)` read-only,
and a buffer of `0x1000` bytes from `0x1800` across their common boundary: every byte lies in
one of the two areas, so the read check passes, and the byte at `0x2000` lies only in the
read-only one, so the write check fails. -/
theorem check_array_spec_across_two_areas :
    let ms : MemorySet := ⟨[⟨0x1000#64, 0x2000#64, default, .byFrame⟩,
      ⟨0x2000#64, 0x3000#64, ⟨false, true, false, 0⟩, .byFrame⟩], PageTable.new⟩
    ms.check_read_array 1#64 0x1800#64 0x1000#64 = true ∧
      ms.check_write_array 1#64 0x1800#64 0x1000#64 = false := by
  intro ms
  have hdisj : ms.areas.Pairwise fun a b => ∀ addr, ¬ (a.contains addr = true ∧ b.contains addr = true) := by
    refine List.pairwise_pair.mpr fun addr ⟨h1, h2⟩ => ?_
    simp only [contains, Bool.and_eq_true, decide_eq_true_eq, ge_iff_le, BitVec.le_def,
      BitVec.lt_def] at h1 h2
    omega
  have hspec := @check_array_spec ms (by decide) hdisj 1#64 0x1800#64 0x1000#64
    (by decide) (by decide) (by decide)
  refine ⟨hspec.1.mpr fun x hlo hhi => ?_, Bool.eq_false_iff.mpr fun hw => ?_⟩
  · -- a byte below the boundary lies in the first area, the others in the second
    by_cases hx : x < 0x2000
    · refine ⟨_, List.mem_cons_self, ?_, ?_⟩ <;>
        simp only [BitVec.toNat_ofNat] at hlo hhi ⊢ <;> omega
    · refine ⟨_, List.mem_cons_of_mem _ List.mem_cons_self, ?_, ?_⟩ <;>
        simp only [BitVec.toNat_ofNat] at hlo hhi ⊢ <;> omega
  · obtain ⟨a, ha, hro, hlo, hhi⟩ := hspec.2.mp hw 0x2000 (by decide) (by decide)
    simp only [ms, List.mem_cons, List.not_mem_nil, or_false] at ha
    rcases ha with rfl | rfl
    · exact absurd hhi (by decide)
    · exact absurd hro (by decide)

/-- A zero-sized element type on a memory set with no area: no byte needs to be covered, yet
the loop never meets `valid_size == 0` and the check returns `Err`. -/
theorem check_read_array_zero_size :
    MemorySet.new.check_read_array 0#64 0x1000#64 1#64 = false ∧
      ∀ x, (0x1000#64 : Usize).toNat ≤ x →
        x < (0x1000#64 : Usize).toNat + (1#64 : Usize).toNat * (0#64 : Usize).toNat →
        ∃ a ∈ MemorySet.new.areas, a.start_addr.toNat ≤ x ∧ x < a.end_addr.toNat := by
  refine ⟨rfl, fun x hlo hhi => ?_⟩
  have h0 : (0#64 : Usize).toNat = 0 := rfl
  rw [h0, Nat.mul_zero, Nat.add_zero] at hhi
  omega

variable {ms : MemorySet}

/-- Under the invariant, every area other than the one holding a buffer covers none of it. -/
theorem Inv.check_read_array_of_mem (hinv : ms.Inv) {a : MemoryArea} (ha : a ∈ ms.areas)
    {size ptr count : Usize} (hn : ptr.toNat + (count * size).toNat < 2 ^ 64)
    (hlo : a.start_addr.toNat ≤ ptr.toNat) (hhi : ptr.toNat + (count * size).toNat ≤ a.end_addr.toNat) :
    ms.check_read_array size ptr count = true := by
  obtain ⟨pre, post, hsplit⟩ := List.append_of_mem ha
  have hsorted := hinv.sorted
  rw [hsplit, List.pairwise_append] at hsorted
  unfold check_read_array
  rw [hsplit]
  refine check_loop_of_owner _ _ ?_ post pre fun b hb => ?_
  · -- the area covers the whole buffer
    apply BitVec.eq_of_toNat_eq
    rw [check_read_array_toNat (hinv.wf a ha) hn, BitVec.mul_comm size count]
    omega
  · -- an area before it ends where or before it begins
    have hba : b.Before a := hsorted.2.2 b hb a List.mem_cons_self
    have hwf : b.WF := hinv.wf b (by rw [hsplit]; exact List.mem_append_left _ hb)
    apply BitVec.eq_of_toNat_eq
    rw [check_read_array_toNat hwf hn]
    unfold Before at hba
    rw [Usize.toNat_zero]
    omega

/-- The same for `check_write_array`, with an area that is not read-only. -/
theorem Inv.check_write_array_of_mem (hinv : ms.Inv) {a : MemoryArea} (ha : a ∈ ms.areas)
    (hrw : a.attr.readonly = false) {size ptr count : Usize}
    (hn : ptr.toNat + (count * size).toNat < 2 ^ 64)
    (hlo : a.start_addr.toNat ≤ ptr.toNat) (hhi : ptr.toNat + (count * size).toNat ≤ a.end_addr.toNat) :
    ms.check_write_array size ptr count = true := by
  obtain ⟨pre, post, hsplit⟩ := List.append_of_mem ha
  have hsorted := hinv.sorted
  rw [hsplit, List.pairwise_append] at hsorted
  unfold check_write_array
  rw [hsplit]
  refine check_loop_of_owner _ _ ?_ post pre fun b hb => ?_
  · apply BitVec.eq_of_toNat_eq
    rw [MemoryArea.check_write_array, hrw, if_neg Bool.false_ne_true,
      check_read_array_toNat (hinv.wf a ha) hn, BitVec.mul_comm size count]
    omega
  · have hba : b.Before a := hsorted.2.2 b hb a List.mem_cons_self
    have hwf : b.WF := hinv.wf b (by rw [hsplit]; exact List.mem_append_left _ hb)
    unfold MemoryArea.check_write_array
    split
    · rfl
    · apply BitVec.eq_of_toNat_eq
      rw [check_read_array_toNat hwf hn]
      unfold Before at hba
      rw [Usize.toNat_zero]
      omega

/-- Under the invariant, a `ByFrame` area that is not read-only can be written everywhere: its
pages are present and writable from the `map` on. -/
theorem Inv.writable_of_byFrame (hinv : ms.Inv) {a : MemoryArea} (ha : a ∈ ms.areas)
    (hb : a.handler = .byFrame) (hrw : a.attr.readonly = false) :
    ms.page_table.Writable a.start_addr.toNat a.end_addr.toNat := by
  intro addr hlo hhi
  have hwf := hinv.wf a ha
  -- the page of `addr` is one of the area's
  have hn : a.HasPage (Page.of_addr addr).number := by
    unfold MemoryArea.HasPage
    rw [of_addr_number_toNat]
    have := hwf.start_aligned
    have := hwf.end_aligned
    omega
  obtain ⟨e, he⟩ := Option.isSome_iff_exists.mp (hinv.covers.mapped a ha _ hn)
  have hentry := hinv.entry_of_owner he ha hn
  rw [hb] at hentry
  obtain ⟨-, hwr, -, -, hpresent⟩ := hentry
  rw [PageTable.translate_isSome_iff]
  exact ⟨e, he, hpresent, fun _ => by rw [hwr, hrw]; rfl⟩

end MemorySet

end Queen.Memory
