/-
`MemorySet::pop_with_split`: each round of its loop keeps the invariant, so the loop and the
operation do; and the loop needs no more rounds than it is given.

A round that meets an area overlapping `[start_addr, end_addr)` cuts it in one of four ways,
each an instance of `Inv.replace_middle`: the area goes (subset), loses its head (prefix) or
its tail (postfix), or is split around the range (superset). With page-aligned bounds the
pages each case unmaps are exactly those of the area that no remaining piece keeps. The
superset case at `end_addr = 0` (so `start_addr = 0`) would unmap every page of the address
space; the last page, `2 ^ 52 - 1`, is never mapped, so that round panics.
-/
import Queen.Memory.Invariant

set_option autoImplicit false

namespace Queen.Memory

open MemoryArea

namespace MemorySet

variable {m m' : Machine} {pt pt' : PageTable} {areas areas' : List MemoryArea}

/-! ## One round -/

/-- The subset case: the area is unmapped and removed. -/
theorem inv_round_subset {pre post : List MemoryArea} {a : MemoryArea}
    (hinv : Inv ⟨pre ++ a :: post, pt⟩) (hun : a.unmap m pt = some (m', pt')) :
    Inv ⟨(pre ++ a :: post).eraseIdx pre.length, pt'⟩ := by
  rw [Store.eraseIdx_middle]
  exact hinv.erase_middle hun

/-- The prefix case, `start_addr ≤ a.start_addr < end_addr < a.end_addr`: the head of the
area up to `end_addr` is unmapped. -/
theorem inv_round_prefix {e : VirtAddr} (he : e.toNat % 4096 = 0) {pre post : List MemoryArea}
    {a : MemoryArea} (hinv : Inv ⟨pre ++ a :: post, pt⟩)
    (hlo : a.start_addr.toNat < e.toNat) (hhi : e.toNat < a.end_addr.toNat)
    (hun : { a with end_addr := e }.unmap m pt = some (m', pt')) :
    Inv ⟨(pre ++ a :: post).set pre.length { a with start_addr := e }, pt'⟩ := by
  have hwf : a.WF := hinv.wf a (by simp)
  have := hwf.start_aligned
  have := hwf.end_aligned
  have hpiece : ({ a with start_addr := e } : MemoryArea).PieceOf a :=
    ⟨⟨he, hwf.end_aligned, hhi⟩, rfl, rfl, Nat.le_of_lt hlo, le_rfl⟩
  have := hinv.replace_middle _ [{ a with start_addr := e }] (by simpa using hpiece)
    (List.pairwise_singleton _ _)
    (fun n => by
      rw [mem_map_key_range_of, pred_page_of_aligned he (by omega)]
      simp only [List.mem_singleton, forall_eq, HasPage]
      omega)
    hun
  rw [Store.set_middle]
  simpa using this

/-- The postfix case, `a.start_addr < start_addr < a.end_addr ≤ end_addr`: the tail of the
area from `start_addr` is unmapped. -/
theorem inv_round_postfix {s : VirtAddr} (hs : s.toNat % 4096 = 0) {pre post : List MemoryArea}
    {a : MemoryArea} (hinv : Inv ⟨pre ++ a :: post, pt⟩)
    (hlo : a.start_addr.toNat < s.toNat) (hhi : s.toNat < a.end_addr.toNat)
    (hun : { a with start_addr := s }.unmap m pt = some (m', pt')) :
    Inv ⟨(pre ++ a :: post).set pre.length { a with end_addr := s }, pt'⟩ := by
  have hwf : a.WF := hinv.wf a (by simp)
  have := hwf.start_aligned
  have := hwf.end_aligned
  have hpiece : ({ a with end_addr := s } : MemoryArea).PieceOf a :=
    ⟨⟨hwf.start_aligned, hs, hlo⟩, rfl, rfl, le_rfl, Nat.le_of_lt hhi⟩
  have := hinv.replace_middle _ [{ a with end_addr := s }] (by simpa using hpiece)
    (List.pairwise_singleton _ _)
    (fun n => by
      rw [mem_map_key_range_of, hwf.last_page]
      simp only [List.mem_singleton, forall_eq, HasPage]
      omega)
    hun
  rw [Store.set_middle]
  simpa using this

/-- The superset case, `a.start_addr < start_addr ≤ end_addr < a.end_addr`: the range is
unmapped and the area split around it. -/
theorem inv_round_superset {s e : VirtAddr} (hs : s.toNat % 4096 = 0) (he : e.toNat % 4096 = 0)
    (hse : s.toNat ≤ e.toNat) {pre post : List MemoryArea} {a : MemoryArea}
    (hinv : Inv ⟨pre ++ a :: post, pt⟩)
    (hlo : a.start_addr.toNat < s.toNat) (hhi : e.toNat < a.end_addr.toNat)
    (hun : { a with start_addr := s, end_addr := e }.unmap m pt = some (m', pt')) :
    Inv ⟨((pre ++ a :: post).set pre.length { a with end_addr := s }).insertIdx (pre.length + 1)
      { a with start_addr := e }, pt'⟩ := by
  have hwf : a.WF := hinv.wf a (by simp)
  have := hwf.start_aligned
  have := hwf.end_aligned
  have hleft : ({ a with end_addr := s } : MemoryArea).PieceOf a :=
    ⟨⟨hwf.start_aligned, hs, hlo⟩, rfl, rfl, le_rfl, by dsimp only; omega⟩
  have hright : ({ a with start_addr := e } : MemoryArea).PieceOf a :=
    ⟨⟨he, hwf.end_aligned, hhi⟩, rfl, rfl, by dsimp only; omega, le_rfl⟩
  have := hinv.replace_middle _ [{ a with end_addr := s }, { a with start_addr := e }]
    (by simp only [List.mem_cons, List.not_mem_nil, or_false, forall_eq_or_imp, forall_eq]
        exact ⟨hleft, hright⟩)
    (List.pairwise_pair.mpr hse)
    (fun n => by
      rw [mem_map_key_range_of, pred_page_of_aligned he (by omega)]
      simp only [List.mem_cons, List.not_mem_nil, or_false, forall_eq_or_imp, forall_eq, HasPage]
      omega)
    hun
  rw [Store.set_middle, Store.insertIdx_middle]
  simpa using this

/-- At `start_addr = end_addr = 0` the superset case would unmap every page, and the last
page is never mapped: the round panics. -/
theorem unmap_everything_fails (hc : Covers areas pt) (u : MemoryArea)
    (hs : u.start_addr = 0) (he : u.end_addr = 0) : u.unmap m pt = none := by
  cases hun : u.unmap m pt with
  | none => rfl
  | some r =>
    obtain ⟨hpresent, -⟩ := u.unmap_spec hun
    have hlast : BitVec.ofNat 64 (2 ^ 52 - 1) ∈ (Page.range_of u.start_addr u.end_addr).map Page.key := by
      rw [mem_map_key_range_of, hs, he]
      decide
    have := hc.lt_last (hpresent _ hlast)
    exact absurd this (by decide)

/-- A round of `pop_with_split` with page-aligned bounds keeps the invariant. -/
theorem inv_round {s e : VirtAddr} (hs : s.toNat % 4096 = 0) (he : e.toNat % 4096 = 0) (hse : s ≤ e)
    {i i' : Nat} {a : MemoryArea} (hinv : Inv ⟨areas, pt⟩) (ha : areas[i]? = some a)
    (h : pop_with_split.round s e m pt areas i a = some (m', pt', areas', i')) :
    Inv ⟨areas', pt'⟩ := by
  obtain ⟨pre, post, rfl, rfl⟩ := Store.exists_eq_append_cons_of_getElem? ha
  have hwf : a.WF := hinv.wf a (by simp)
  have := hwf.start_aligned
  have := hwf.end_aligned
  have := hwf.lt
  rw [BitVec.le_def] at hse
  unfold pop_with_split.round at h
  simp only [ge_iff_le, gt_iff_lt, BitVec.le_def, BitVec.lt_def] at h
  split_ifs at h with hov hsub hpre hpost
  all_goals simp only [Option.bind_eq_bind, Option.bind_eq_some_iff, Option.some.injEq,
    Prod.mk.injEq] at h
  · obtain ⟨⟨m₁, pt₁⟩, hun, rfl, rfl, rfl, -⟩ := h
    exact inv_round_subset hinv hun
  · obtain ⟨⟨m₁, pt₁⟩, hun, rfl, rfl, rfl, -⟩ := h
    exact inv_round_prefix he hinv hpre.2 (by omega) hun
  · obtain ⟨⟨m₁, pt₁⟩, hun, rfl, rfl, rfl, -⟩ := h
    exact inv_round_postfix hs hinv (by omega) hpost.2 hun
  · obtain ⟨⟨m₁, pt₁⟩, hun, rfl, rfl, rfl, -⟩ := h
    by_cases he0 : e.toNat = 0
    · -- the range is the whole address space
      have hs0 : s = 0 := BitVec.eq_of_toNat_eq (by simp; omega)
      have he0' : e = 0 := BitVec.eq_of_toNat_eq (by simp [he0])
      rw [unmap_everything_fails hinv.covers _ hs0 he0'] at hun
      cases hun
    · -- the area overlaps the range and sticks out at both ends
      rw [hwf.is_overlap_with_iff, pred_page_of_aligned he (by omega)] at hov
      exact inv_round_superset hs he hse hinv (by omega) (by omega) hun
  · obtain ⟨rfl, rfl, rfl, -⟩ := h
    exact hinv

/-! ## The loop -/

/-- The loop of `pop_with_split` keeps the invariant, round after round. -/
theorem inv_pop_with_split_loop {s e : VirtAddr} (hs : s.toNat % 4096 = 0) (he : e.toNat % 4096 = 0)
    (hse : s ≤ e) (fuel : Nat) {i : Nat} (hinv : Inv ⟨areas, pt⟩)
    (h : pop_with_split.loop s e fuel m pt areas i = some (m', pt', areas')) : Inv ⟨areas', pt'⟩ := by
  induction fuel generalizing m pt areas i with
  | zero =>
    simp only [pop_with_split.loop, Option.some.injEq, Prod.mk.injEq] at h
    obtain ⟨-, rfl, rfl⟩ := h
    exact hinv
  | succ fuel ih =>
    simp only [pop_with_split.loop] at h
    split at h
    · simp only [Option.some.injEq, Prod.mk.injEq] at h
      obtain ⟨-, rfl, rfl⟩ := h
      exact hinv
    · next a ha =>
      simp only [Option.bind_eq_bind, Option.bind_eq_some_iff] at h
      obtain ⟨⟨m₁, pt₁, areas₁, i₁⟩, hround, h⟩ := h
      exact ih (inv_round hs he hse hinv ha hround) h

/-- `pop_with_split` with page-aligned bounds keeps the invariant. -/
theorem inv_pop_with_split {ms ms' : MemorySet} {s e : VirtAddr} (hs : s.toNat % 4096 = 0)
    (he : e.toNat % 4096 = 0) (hinv : ms.Inv) (h : ms.pop_with_split m s e = some (m', ms')) :
    ms'.Inv := by
  obtain ⟨areas, pt⟩ := ms
  unfold pop_with_split at h
  split at h
  · next hse =>
    simp only [Option.bind_eq_bind, Option.bind_eq_some_iff, Option.some.injEq,
      Prod.mk.injEq] at h
    obtain ⟨⟨m₁, pt₁, areas₁⟩, hloop, -, rfl⟩ := h
    exact inv_pop_with_split_loop hs he hse _ hinv hloop
  · cases h

/-! ## Fuel -/

/-- A round at an area lowers `areas.len() - i` by exactly one: the subset case removes the
area and stays, prefix and postfix move on, superset inserts one area and moves past two. -/
theorem round_measure {s e : VirtAddr} {i i' : Nat} {a : MemoryArea} (hi : i < areas.length)
    (h : pop_with_split.round s e m pt areas i a = some (m', pt', areas', i')) :
    areas'.length - i' + 1 = areas.length - i := by
  unfold pop_with_split.round at h
  split_ifs at h
  all_goals simp only [Option.bind_eq_bind, Option.bind_eq_some_iff, Option.some.injEq,
    Prod.mk.injEq] at h
  · obtain ⟨_, -, -, -, rfl, rfl⟩ := h
    rw [List.length_eraseIdx_of_lt hi]
    omega
  · obtain ⟨_, -, -, -, rfl, rfl⟩ := h
    rw [List.length_set]
    omega
  · obtain ⟨_, -, -, -, rfl, rfl⟩ := h
    rw [List.length_set]
    omega
  · obtain ⟨_, -, -, -, rfl, rfl⟩ := h
    rw [List.length_insertIdx_of_le_length (by simp; omega), List.length_set]
    omega
  · obtain ⟨-, -, rfl, rfl⟩ := h
    omega

/-- **The loop's own bound.** Every round lowers `areas.len() - i` by one, so the `while` loop
stops after that many rounds: more fuel than that gives the same result. `pop_with_split`
gives `areas.len()` rounds from `i = 0`. -/
theorem pop_with_split_loop_fuel (s e : VirtAddr) (k : Nat) :
    ∀ (n : Nat) (m : Machine) (pt : PageTable) (areas : List MemoryArea) (i : Nat),
      areas.length - i = n →
      pop_with_split.loop s e (n + k) m pt areas i = pop_with_split.loop s e n m pt areas i
  | 0, m, pt, areas, i, hn => by
    -- no area is left to look at
    have hnone : areas[i]? = none := List.getElem?_eq_none (by omega)
    cases k with
    | zero => rfl
    | succ k => simp only [pop_with_split.loop, hnone]
  | n + 1, m, pt, areas, i, hn => by
    have hi : i < areas.length := by omega
    rw [Nat.add_right_comm]
    simp only [pop_with_split.loop, List.getElem?_eq_getElem hi, Option.bind_eq_bind]
    cases hr : pop_with_split.round s e m pt areas i areas[i] with
    | none => rfl
    | some r =>
      obtain ⟨m₁, pt₁, areas₁, i₁⟩ := r
      have hmeasure := round_measure hi hr
      exact pop_with_split_loop_fuel s e k n m₁ pt₁ areas₁ i₁ (by omega)

end MemorySet

end Queen.Memory
