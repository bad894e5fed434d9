/-
The representation invariant of a memory set, and the operations of `memory_set.rs` that keep
it: `push`, `pop`, `clear`, `handle_page_fault` and `clone`. `pop_with_split` is in
`Memory/Split.lean`.

`MemorySet.Inv` says what the kernel relies on without checking it: the areas are well formed
and in order, each ending where or before the next begins, and the page table has an entry
for exactly the pages of the areas, each one of the kind its own area's handler installs
(`Covers`). The table part is stated on any list of areas, so that `clone` can build it area
by area. Every operation that drops pages is one shape, `Inv.replace_middle`: an area is cut
out of the list, some pieces of it put in its place, and the pages of it that no piece keeps
are unmapped.
-/
import Queen.Lib.Store
import Queen.Memory.Entries

set_option autoImplicit false

namespace Queen.Memory

/-! ## Order and pieces of areas -/

namespace MemoryArea

/-- `a` ends where or before `b` begins. -/
def Before (a b : MemoryArea) : Prop := a.end_addr.toNat ≤ b.start_addr.toNat

/-- An area in order before another has none of its pages. -/
theorem Before.not_hasPage {a b : MemoryArea} (hab : a.Before b) {n : Usize} (ha : a.HasPage n)
    (hb : b.HasPage n) : False := by
  have := Nat.div_le_div_right (c := 4096) hab
  unfold HasPage at ha hb
  omega

/-- Every page of an area is below the last page, `2 ^ 52 - 1`: an end address is below
`2 ^ 64`. -/
theorem HasPage.lt_last {a : MemoryArea} {n : Usize} (h : a.HasPage n) : n.toNat < 2 ^ 52 - 1 := by
  have := a.end_addr.isLt
  unfold HasPage at h
  omega

/-- `p` is a well-formed piece of `a`: inside it, with its handler and attributes. -/
structure PieceOf (p a : MemoryArea) : Prop where
  wf : p.WF
  handler : p.handler = a.handler
  attr : p.attr = a.attr
  start_le : a.start_addr.toNat ≤ p.start_addr.toNat
  end_le : p.end_addr.toNat ≤ a.end_addr.toNat

theorem PieceOf.hasPage {p a : MemoryArea} (h : p.PieceOf a) {n : Usize} (hp : p.HasPage n) :
    a.HasPage n := by
  have := Nat.div_le_div_right (c := 4096) h.start_le
  have := Nat.div_le_div_right (c := 4096) h.end_le
  unfold HasPage at hp ⊢
  omega

end MemoryArea

open MemoryArea

/-- Cutting an area out of an ordered list and putting ordered pieces of it in its place keeps
the list in order. -/
theorem sorted_replace {pre post pieces : List MemoryArea} {a : MemoryArea}
    (h : (pre ++ a :: post).Pairwise Before) (hpieces : ∀ p ∈ pieces, p.PieceOf a)
    (hsorted : pieces.Pairwise Before) : (pre ++ pieces ++ post).Pairwise Before := by
  rw [List.pairwise_append, List.pairwise_cons] at h
  obtain ⟨hpre, ⟨hapost, hpost⟩, hcross⟩ := h
  refine List.pairwise_append.mpr ⟨List.pairwise_append.mpr ⟨hpre, hsorted, ?_⟩, hpost, ?_⟩
  · -- what ends before `a` ends before every piece of it
    intro x hx p hp
    have hxa := hcross x hx a List.mem_cons_self
    have := (hpieces p hp).start_le
    unfold Before at hxa ⊢
    omega
  · intro x hx y hy
    rcases List.mem_append.mp hx with hx | hx
    · exact hcross x hx y (List.mem_cons_of_mem _ hy)
    · have hay := hapost y hy
      have := (hpieces x hx).end_le
      unfold Before at hay ⊢
      omega

/-! ## The page table of a list of areas -/

/-- The table has an entry for exactly the pages of the areas, and the entry of a page is one
that the handler of an area holding it installs. -/
structure Covers (areas : List MemoryArea) (pt : PageTable) : Prop where
  entry_of : ∀ n e, pt.lookup n = some e →
    ∃ a ∈ areas, a.HasPage n ∧ EntryOf a.handler a.attr (⟨n⟩ : Page).start_address e
  mapped : ∀ a ∈ areas, ∀ n, a.HasPage n → (pt.lookup n).isSome

namespace Covers

variable {areas areas' : List MemoryArea} {pt pt' : PageTable}

theorem nil : Covers [] PageTable.new where
  entry_of n e he := by
    rw [PageTable.lookup, PageTable.new, AList.lookup_empty] at he
    cases he
  mapped _ ha := nomatch ha

/-- A table that reads the same at every page covers the same areas. -/
theorem congr (hc : Covers areas pt) (h : ∀ n, pt'.lookup n = pt.lookup n) : Covers areas pt' where
  entry_of n e he := hc.entry_of n e (by rw [← h n]; exact he)
  mapped a ha n hn := by rw [h n]; exact hc.mapped a ha n hn

/-- Adding an area `x` whose pages are set to entries of its handler. -/
theorem insert {x : MemoryArea} (hc : Covers areas pt) (hmem : ∀ b, b ∈ areas' ↔ b = x ∨ b ∈ areas)
    (hset : ∀ n, x.HasPage n →
      ∃ e, pt'.lookup n = some e ∧ EntryOf x.handler x.attr (⟨n⟩ : Page).start_address e)
    (hrest : ∀ n, ¬ x.HasPage n → pt'.lookup n = pt.lookup n) : Covers areas' pt' where
  entry_of n e he := by
    by_cases hn : x.HasPage n
    · obtain ⟨e', he', hentry⟩ := hset n hn
      rw [he', Option.some.injEq] at he
      subst he
      exact ⟨x, (hmem x).mpr (.inl rfl), hn, hentry⟩
    · rw [hrest n hn] at he
      obtain ⟨a, ha, hpage, hentry⟩ := hc.entry_of n e he
      exact ⟨a, (hmem a).mpr (.inr ha), hpage, hentry⟩
  mapped b hb n hn := by
    by_cases hx : x.HasPage n
    · obtain ⟨e, he, -⟩ := hset n hx
      rw [he]
      rfl
    · rw [hrest n hx]
      rcases (hmem b).mp hb with rfl | hb
      · exact absurd hn hx
      · exact hc.mapped b hb n hn

/-- Dropping the `dead` pages from the table, when every page of a new area is a live page of
an old one and every live page of an old area is held by a new area of the same handler and
attributes. -/
theorem replace (dead : Usize → Prop) (hc : Covers areas pt)
    (hdead : ∀ n, dead n → pt'.lookup n = none) (hlive : ∀ n, ¬ dead n → pt'.lookup n = pt.lookup n)
    (hnew : ∀ b ∈ areas', ∀ n, b.HasPage n → ¬ dead n ∧ ∃ a ∈ areas, a.HasPage n)
    (hold : ∀ a ∈ areas, ∀ n, a.HasPage n → ¬ dead n →
      ∃ b ∈ areas', b.HasPage n ∧ b.handler = a.handler ∧ b.attr = a.attr) :
    Covers areas' pt' where
  entry_of n e he := by
    -- a page still mapped is live, and its entry is the old one
    have hn : ¬ dead n := fun hd => by rw [hdead n hd] at he; cases he
    rw [hlive n hn] at he
    obtain ⟨a, ha, hpage, hentry⟩ := hc.entry_of n e he
    obtain ⟨b, hb, hbpage, hh, hattr⟩ := hold a ha n hpage hn
    exact ⟨b, hb, hbpage, by rw [hh, hattr]; exact hentry⟩
  mapped b hb n hn := by
    obtain ⟨hlive_n, a, ha, hpage⟩ := hnew b hb n hn
    rw [hlive n hlive_n]
    exact hc.mapped a ha n hpage

/-- Rewriting the entry of one page to another entry of an area that holds it. -/
theorem set_entry {n₀ : Usize} {e₀ : Entry} (hc : Covers areas pt)
    (hother : ∀ n, n ≠ n₀ → pt'.lookup n = pt.lookup n) (hn₀ : pt'.lookup n₀ = some e₀)
    (hentry : ∃ a ∈ areas, a.HasPage n₀ ∧ EntryOf a.handler a.attr (⟨n₀⟩ : Page).start_address e₀) :
    Covers areas pt' where
  entry_of n e he := by
    by_cases hn : n = n₀
    · subst hn
      rw [hn₀, Option.some.injEq] at he
      exact he ▸ hentry
    · rw [hother n hn] at he
      exact hc.entry_of n e he
  mapped a ha n hn := by
    by_cases h : n = n₀
    · rw [h, hn₀]
      rfl
    · rw [hother n h]
      exact hc.mapped a ha n hn

/-- No page of the table is the last one. -/
theorem lt_last (hc : Covers areas pt) {n : Usize} (hn : (pt.lookup n).isSome) :
    n.toNat < 2 ^ 52 - 1 := by
  obtain ⟨e, he⟩ := Option.isSome_iff_exists.mp hn
  obtain ⟨a, -, hpage, -⟩ := hc.entry_of n e he
  exact hpage.lt_last

end Covers

/-! ## The invariant -/

/-- The representation invariant of a memory set. -/
structure MemorySet.Inv (ms : MemorySet) : Prop where
  wf : ∀ a ∈ ms.areas, a.WF
  sorted : ms.areas.Pairwise Before
  covers : Covers ms.areas ms.page_table

namespace MemorySet

variable {ms ms' : MemorySet} {m m' : Machine}

theorem inv_new : MemorySet.new.Inv where
  wf _ ha := nomatch ha
  sorted := List.Pairwise.nil
  covers := Covers.nil

/-- Two areas holding one page are the same area. -/
theorem Inv.eq_of_hasPage (hinv : ms.Inv) {a b : MemoryArea} (ha : a ∈ ms.areas) (hb : b ∈ ms.areas)
    {n : Usize} (hna : a.HasPage n) (hnb : b.HasPage n) : a = b := by
  rcases Store.pairwise_eq_or_rel hinv.sorted ha hb with h | h | h
  · exact h
  · exact (h.not_hasPage hna hnb).elim
  · exact (h.not_hasPage hnb hna).elim

/-- The entry of a page is one its own area's handler installs. -/
theorem Inv.entry_of_owner (hinv : ms.Inv) {n : Usize} {e : Entry} (he : ms.page_table.lookup n = some e)
    {a : MemoryArea} (ha : a ∈ ms.areas) (hn : a.HasPage n) :
    EntryOf a.handler a.attr (⟨n⟩ : Page).start_address e := by
  obtain ⟨b, hb, hbn, hentry⟩ := hinv.covers.entry_of n e he
  rw [hinv.eq_of_hasPage ha hb hn hbn]
  exact hentry

/-- The table has an entry for a page exactly when an area holds it. -/
theorem Inv.lookup_isSome_iff (hinv : ms.Inv) (n : Usize) :
    (ms.page_table.lookup n).isSome ↔ ∃ a ∈ ms.areas, a.HasPage n := by
  constructor
  · intro hn
    obtain ⟨e, he⟩ := Option.isSome_iff_exists.mp hn
    obtain ⟨a, ha, hpage, -⟩ := hinv.covers.entry_of n e he
    exact ⟨a, ha, hpage⟩
  · rintro ⟨a, ha, hpage⟩
    exact hinv.covers.mapped a ha n hpage

/-- The areas start at strictly increasing addresses. -/
theorem Inv.start_lt (hinv : ms.Inv) :
    ms.areas.Pairwise fun a b => a.start_addr < b.start_addr := by
  refine hinv.sorted.imp_of_mem fun {a b} ha _ hab => ?_
  have := (hinv.wf a ha).lt
  unfold Before at hab
  rw [BitVec.lt_def]
  omega

/-- No address lies in two areas. -/
theorem Inv.disjoint (hinv : ms.Inv) :
    ms.areas.Pairwise fun a b => ∀ addr, ¬ (a.contains addr = true ∧ b.contains addr = true) := by
  refine hinv.sorted.imp fun {a b} hab addr ⟨ha, hb⟩ => ?_
  simp only [contains, Bool.and_eq_true, decide_eq_true_eq, ge_iff_le, BitVec.le_def,
    BitVec.lt_def] at ha hb
  unfold Before at hab
  omega

/-- **Cutting an area into pieces.** Unmapping, with `u`'s handler, a range whose pages are
those of `a` that no piece keeps, and putting the pieces in `a`'s place. -/
theorem Inv.replace_middle {pre post : List MemoryArea} {a : MemoryArea} {pt pt' : PageTable}
    (u : MemoryArea) (pieces : List MemoryArea) (hinv : Inv ⟨pre ++ a :: post, pt⟩)
    (hpieces : ∀ p ∈ pieces, p.PieceOf a) (hsorted : pieces.Pairwise Before)
    (hdead : ∀ n, n ∈ (Page.range_of u.start_addr u.end_addr).map Page.key ↔
      a.HasPage n ∧ ∀ p ∈ pieces, ¬ p.HasPage n)
    (hunmap : u.unmap m pt = some (m', pt')) : Inv ⟨pre ++ pieces ++ post, pt'⟩ := by
  obtain ⟨-, hlook⟩ := u.unmap_spec hunmap
  have hsorted' := hinv.sorted
  rw [List.pairwise_append, List.pairwise_cons] at hsorted'
  obtain ⟨-, ⟨hapost, -⟩, hcross⟩ := hsorted'
  refine ⟨?_, sorted_replace hinv.sorted hpieces hsorted, hinv.covers.replace _
    (fun n hn => by rw [hlook, if_pos hn]) (fun n hn => by rw [hlook, if_neg hn]) ?_ ?_⟩
  · intro b hb
    rcases List.mem_append.mp hb with hb | hb
    · rcases List.mem_append.mp hb with hb | hb
      · exact hinv.wf b (List.mem_append_left _ hb)
      · exact (hpieces b hb).wf
    · exact hinv.wf b (List.mem_append_right _ (List.mem_cons_of_mem _ hb))
  · -- a page of a new area: an area kept is apart from `a`, a piece keeps pages of `a`
    intro b hb n hn
    rcases List.mem_append.mp hb with hb | hb
    · rcases List.mem_append.mp hb with hb | hb
      · refine ⟨fun hd => (hcross b hb a List.mem_cons_self).not_hasPage hn ((hdead n).mp hd).1,
          b, List.mem_append_left _ hb, hn⟩
      · exact ⟨fun hd => ((hdead n).mp hd).2 b hb hn, a, by simp, (hpieces b hb).hasPage hn⟩
    · refine ⟨fun hd => (hapost b hb).not_hasPage ((hdead n).mp hd).1 hn, b, by simp [hb], hn⟩
  · -- a live page of an old area: kept with its area, or by a piece of `a`
    intro a' ha' n hn hlive
    rcases List.mem_append.mp ha' with ha' | ha'
    · exact ⟨a', by simp [ha'], hn, rfl, rfl⟩
    rcases List.mem_cons.mp ha' with rfl | ha'
    · have : ∃ p ∈ pieces, p.HasPage n := by
        by_contra hnone
        exact hlive ((hdead n).mpr ⟨hn, fun p hp hpn => hnone ⟨p, hp, hpn⟩⟩)
      obtain ⟨p, hp, hpn⟩ := this
      exact ⟨p, by simp [hp], hpn, (hpieces p hp).handler, (hpieces p hp).attr⟩
    · exact ⟨a', by simp [ha'], hn, rfl, rfl⟩

/-- Unmapping an area of the list and removing it. -/
theorem Inv.erase_middle {pre post : List MemoryArea} {a : MemoryArea} {pt pt' : PageTable}
    (hinv : Inv ⟨pre ++ a :: post, pt⟩) (hunmap : a.unmap m pt = some (m', pt')) :
    Inv ⟨pre ++ post, pt'⟩ := by
  have hwf : a.WF := hinv.wf a (by simp)
  have := hinv.replace_middle a [] (by simp) List.Pairwise.nil
    (fun n => by rw [hwf.mem_keys]; simp) hunmap
  rwa [List.append_nil] at this

/-! ## `push` -/

/-- `test_free_area` for an aligned range and well-formed areas: every area lies before or
after the range. -/
theorem test_free_area_spec (hwf : ∀ a ∈ ms.areas, a.WF) {s e : VirtAddr} (hs : s.toNat % 4096 = 0)
    (he : e.toNat % 4096 = 0) (hlt : s.toNat < e.toNat) (h : ms.test_free_area s e = true) :
    ∀ a ∈ ms.areas, a.end_addr.toNat ≤ s.toNat ∨ e.toNat ≤ a.start_addr.toNat := by
  intro a ha
  have hnone : ms.areas.find? (fun a => a.is_overlap_with s e) = none :=
    Option.isNone_iff_eq_none.mp h
  have hfree := List.find?_eq_none.mp hnone a ha
  rw [(hwf a ha).is_overlap_with_iff, pred_page_of_aligned he (by omega)] at hfree
  have := (hwf a ha).start_aligned
  have := (hwf a ha).end_aligned
  omega

/-- The converse: an aligned range that every area lies before or after is free. -/
theorem test_free_area_of_apart (hwf : ∀ a ∈ ms.areas, a.WF) {s e : VirtAddr}
    (he : e.toNat % 4096 = 0) (hlt : s.toNat < e.toNat)
    (h : ∀ a ∈ ms.areas, a.end_addr.toNat ≤ s.toNat ∨ e.toNat ≤ a.start_addr.toNat) :
    ms.test_free_area s e = true := by
  refine Option.isNone_iff_eq_none.mpr (List.find?_eq_none.mpr fun a ha => ?_)
  rw [(hwf a ha).is_overlap_with_iff, pred_page_of_aligned he (by omega)]
  have := (hwf a ha).start_aligned
  have := (hwf a ha).end_aligned
  have := h a ha
  omega

/-- Inserting an area at the first position whose area starts after it keeps the list in
order, when the area lies before or after every other. -/
theorem sorted_insertIdx_findIdx {areas : List MemoryArea} {x : MemoryArea}
    (hwf : ∀ a ∈ areas, a.WF) (hsorted : areas.Pairwise Before) (hx : x.start_addr.toNat < x.end_addr.toNat)
    (hfree : ∀ a ∈ areas, a.end_addr.toNat ≤ x.start_addr.toNat ∨ x.end_addr.toNat ≤ a.start_addr.toNat) :
    (areas.insertIdx (areas.findIdx fun a => x.start_addr < a.start_addr) x).Pairwise Before := by
  set idx := areas.findIdx fun a => x.start_addr < a.start_addr
  -- the areas before the position start where or before `x` starts, so they end before it
  have hleft : ∀ y ∈ areas.take idx, y.Before x := by
    intro y hy
    obtain ⟨j, hj, rfl⟩ := List.mem_take_iff_getElem.mp hy
    have hnot := List.not_of_lt_findIdx (lt_of_lt_of_le hj (Nat.min_le_left _ _))
    simp only [decide_eq_false_iff_not, BitVec.not_lt, BitVec.le_def] at hnot
    rcases hfree _ (List.getElem_mem _) with h | h <;> unfold Before <;> omega
  -- the areas from the position on start after `x` starts, so they begin after it ends
  have hright : ∀ z ∈ areas.drop idx, x.Before z := by
    intro z hz
    obtain ⟨j, hj, rfl⟩ := List.mem_drop_iff_getElem.mp hz
    have hidx : idx < areas.length := by omega
    have hk : idx + j < areas.length := by omega
    have hfirst : x.start_addr.toNat < areas[idx].start_addr.toNat := by
      have := List.findIdx_getElem (w := hidx)
      rw [decide_eq_true_eq] at this
      exact BitVec.lt_def.mp this
    -- ordered areas start ever later
    have hstart : areas[idx].start_addr.toNat ≤ areas[idx + j].start_addr.toNat := by
      rcases Nat.eq_zero_or_pos j with rfl | hj0
      · exact le_rfl
      · have hb := List.pairwise_iff_getElem.mp hsorted idx (idx + j) hidx hk (by omega)
        have := (hwf _ (List.getElem_mem hidx)).lt
        unfold Before at hb
        omega
    have := (hwf _ (List.getElem_mem hk)).lt
    rcases hfree _ (List.getElem_mem hk) with h | h <;> unfold Before <;> omega
  rw [Store.insertIdx_eq_take_drop x _ _ List.findIdx_le_length]
  refine List.pairwise_append.mpr ⟨hsorted.sublist (List.take_sublist _ _),
    List.pairwise_cons.mpr ⟨hright, hsorted.sublist (List.drop_sublist _ _)⟩, ?_⟩
  intro y hy z hz
  rcases List.mem_cons.mp hz with rfl | hz
  · exact hleft y hy
  · exact hsorted.rel_of_mem_take_of_mem_drop hy hz

/-- `push` keeps the invariant. -/
theorem inv_push {s e : VirtAddr} {attr : MemoryAttr} {handler : MemoryHandler} (hinv : ms.Inv)
    (h : ms.push m s e attr handler = some (m', ms')) : ms'.Inv := by
  unfold push at h
  split at h
  · -- an empty range is ignored
    cases h
    exact hinv
  dsimp only at h
  split at h
  · next hok =>
    obtain ⟨hlt, hfree⟩ := hok
    simp only [Option.bind_eq_bind, Option.bind_eq_some_iff, Option.some.injEq] at h
    obtain ⟨⟨m₁, pt₁⟩, hmap, h⟩ := h
    cases h
    -- the rounded bounds are aligned
    have hs := align_down_toNat s
    have he := align_down_toNat (e + PAGE_SIZE - 1)
    rw [BitVec.lt_def] at hlt
    set area : MemoryArea := ⟨s &&& ~~~(PAGE_SIZE - 1), (e + PAGE_SIZE - 1) &&& ~~~(PAGE_SIZE - 1),
      attr, handler⟩ with harea
    have hwf : area.WF := ⟨by simp only [harea, hs]; omega, by simp only [harea, he]; omega, hlt⟩
    have hfree' := test_free_area_spec hinv.wf hwf.start_aligned hwf.end_aligned hlt hfree
    obtain ⟨-, hset, hrest⟩ := area.map_spec hwf hmap
    have hmem : ∀ b, b ∈ ms.areas.insertIdx (ms.areas.findIdx fun a => area.start_addr < a.start_addr) area ↔
        b = area ∨ b ∈ ms.areas := fun b => List.mem_insertIdx List.findIdx_le_length
    refine ⟨fun b hb => ?_, sorted_insertIdx_findIdx hinv.wf hinv.sorted hlt hfree',
      hinv.covers.insert hmem hset hrest⟩
    rcases (hmem b).mp hb with rfl | hb
    · exact hwf
    · exact hinv.wf b hb
  · cases h

/-! ## `pop` and `clear` -/

/-- `pop` keeps the invariant. -/
theorem inv_pop {s e : VirtAddr} (hinv : ms.Inv) (h : ms.pop m s e = some (m', ms')) : ms'.Inv := by
  obtain ⟨areas, pt⟩ := ms
  unfold pop at h
  split at h
  · split at h
    · simp only [Option.bind_eq_bind, Option.bind_eq_some_iff, Option.some.injEq] at h
      obtain ⟨a, ha, ⟨m₁, pt₁⟩, hunmap, h⟩ := h
      cases h
      -- the area found cuts the list in two
      obtain ⟨pre, post, rfl, rfl⟩ := Store.exists_eq_append_cons_of_getElem? ha
      rw [Store.eraseIdx_middle]
      exact hinv.erase_middle hunmap
    · cases h
  · cases h

/-- `clear` unmaps the areas one by one and keeps the invariant: the areas left after each step
cover the table. -/
theorem inv_clear (hinv : ms.Inv) (h : ms.clear m = some (m', ms')) : ms'.Inv := by
  obtain ⟨areas, pt⟩ := ms
  simp only [clear, Option.bind_eq_bind, Option.bind_eq_some_iff, Option.some.injEq,
    Prod.mk.injEq] at h
  obtain ⟨⟨m₁, pt₁⟩, hfold, -, rfl⟩ := h
  have hend := Fold.foldlM_inv _
    (fun done (t : Machine × PageTable) => Inv ⟨areas.drop done.length, t.2⟩)
    (fun done x rest t t' hl hdone hstep => by
      obtain ⟨m₀, pt₀⟩ := t
      obtain ⟨m₂, pt₂⟩ := t'
      have hdrop : areas.drop done.length = [] ++ x :: rest := by simp [← hl]
      rw [hdrop] at hdone
      have hdrop' : areas.drop (done ++ [x]).length = [] ++ rest := by simp [← hl]
      rw [hdrop']
      exact hdone.erase_middle hstep)
    (by simpa using hinv) hfold
  simpa using hend

/-! ## `handle_page_fault` -/

/-- `handle_page_fault` keeps the invariant: a fault gives a page of a `Delay` or `File` area a
frame, and the entry stays one of its area. -/
theorem inv_handle_page_fault {addr : VirtAddr} {ok : Bool} (hinv : ms.Inv)
    (h : ms.handle_page_fault m addr = some (ok, m', ms')) : ms'.Inv := by
  unfold handle_page_fault at h
  split at h
  · next area hfind =>
    simp only [Option.bind_eq_bind, Option.bind_eq_some_iff, Option.some.injEq] at h
    obtain ⟨⟨ok₁, m₁, pt₁⟩, hfault, h⟩ := h
    cases h
    have harea := List.mem_of_find?_eq_some hfind
    have hcontains := List.find?_some hfind
    have hpage := (hinv.wf area harea).hasPage_of_contains hcontains
    obtain ⟨hother, hsame | ⟨hh, e, target, he, he'⟩⟩ := area.handler.handle_page_fault_spec _ _ _ hfault
    · -- the table reads as before
      refine ⟨hinv.wf, hinv.sorted, hinv.covers.congr fun n => ?_⟩
      by_cases hn : n = (Page.of_addr addr).number
      · rw [hn]
        exact hsame
      · exact hother n hn
    · -- the faulting page is its area's, a `Delay` or `File` area
      refine ⟨hinv.wf, hinv.sorted, hinv.covers.set_entry hother he' ⟨area, harea, hpage, ?_⟩⟩
      exact EntryOf.of_attrs hh (hinv.entry_of_owner he harea hpage) target true
  · cases h
    exact hinv

/-! ## `clone` -/

/-- The table `clone` builds covers the areas: each area's `clone_map` sets its pages to
entries of its handler. -/
theorem covers_clone (hwf : ∀ a ∈ ms.areas, a.WF) (h : ms.clone m = some (m', ms')) :
    Covers ms.areas ms'.page_table := by
  simp only [clone, Option.bind_eq_bind, Option.bind_eq_some_iff, Option.some.injEq,
    Prod.mk.injEq] at h
  obtain ⟨⟨m₁, pt₁⟩, hfold, -, rfl⟩ := h
  -- the areas done so far cover the table built so far
  have hend := Fold.foldlM_inv _ (fun done (t : Machine × PageTable) => Covers done t.2)
    (fun done x rest t t' hl hdone hstep => by
      obtain ⟨m₀, pt₀⟩ := t
      obtain ⟨m₂, pt₂⟩ := t'
      have hx : x.WF := hwf x (by simp [← hl])
      obtain ⟨-, hset, hrest⟩ := x.for_pages_insert hx _ (EntryOf x.handler x.attr)
        (fun m pt addr _ _ hs => x.handler.clone_map_spec m pt addr x.attr hs) hstep
      exact hdone.insert (fun b => by simp [or_comm]) hset hrest)
    Covers.nil hfold
  exact hend

/-- `clone` keeps the invariant of the set it copies, in the copy. -/
theorem inv_clone (hinv : ms.Inv) (h : ms.clone m = some (m', ms')) : ms'.Inv := by
  have hareas : ms'.areas = ms.areas := by
    simp only [clone, Option.bind_eq_bind, Option.bind_eq_some_iff, Option.some.injEq,
      Prod.mk.injEq] at h
    obtain ⟨_, -, -, rfl⟩ := h
    rfl
  refine ⟨?_, ?_, ?_⟩
  · rw [hareas]
    exact hinv.wf
  · rw [hareas]
    exact hinv.sorted
  · rw [hareas]
    exact covers_clone hinv.wf h

end MemorySet

end Queen.Memory
