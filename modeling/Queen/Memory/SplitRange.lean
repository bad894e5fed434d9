/-
What `MemorySet::pop_with_split(start_addr, end_addr)` removes. For page-aligned bounds with
`end_addr ≠ 0`, on a memory set keeping its invariant, it does not panic, and afterwards the
areas hold exactly the addresses they held outside `[start_addr, end_addr)`, each remaining
area lies in an old one with its attributes and handler, and the table lost exactly the
entries of the old pages inside the range, keeping every other entry as it was, and the
machine got back, in some order, the frames the old areas' handlers free for those pages
(`pop_with_split_spec`). At `end_addr = 0` the range is empty, yet `end_addr - 1` wraps, so
every area is taken to stick out of it at both ends and the first round unmaps the whole
address space, which panics (`pop_with_split_zero`).

The loop is followed with `Done`: after the rounds up to index `i`, the areas before `i` are
what is left of the first `j` old areas outside the range, and the areas from `i` on are the
old ones from `j` on. Each round puts in place of one old area its pieces outside the range
and unmaps, with the area's handler, the pages it had inside (`round_spec`). `Freed` follows
the machine: none of those pages is an earlier old area's, so the round frees the frames of
the entries they held at the start (`Freed.replace`).
-/
import Queen.Memory.Split
import Queen.Memory.Progress

set_option autoImplicit false

namespace Queen.Memory

open MemoryArea

/-! ## Unmapping pages that hold entries -/

/-- `PageTable::unmap` of a page whose entry is present succeeds. -/
theorem PageTable.unmap_isSome {pt : PageTable} {addr : VirtAddr} {e : Entry}
    (he : pt.lookup (Page.of_addr addr).number = some e) (hp : e.present = true) :
    (pt.unmap addr).isSome := by
  simp [PageTable.unmap, PageTable.get_entry_eq, he, hp]

/-- A handler's `unmap` of a page holding an entry it installed succeeds: `Linear` and
`ByFrame` pages are present, and `Delay` and `File` make theirs present first. -/
theorem MemoryHandler.unmap_isSome (h : MemoryHandler) (m : Machine) (pt : PageTable)
    (addr : VirtAddr) {attr : MemoryAttr} {e : Entry}
    (he : pt.lookup (Page.of_addr addr).number = some e) (hentry : EntryOf h attr addr e) :
    (h.unmap m pt addr).isSome := by
  obtain ⟨-, -, -, -, hkind⟩ := hentry
  have hget : pt.get_entry addr = some e := by rw [PageTable.get_entry_eq, he]
  cases h
  case linear offset =>
    obtain ⟨pt', hpt'⟩ := Option.isSome_iff_exists.mp (PageTable.unmap_isSome he hkind.1)
    simp [MemoryHandler.unmap, hpt']
  case byFrame =>
    obtain ⟨pt', hpt'⟩ := Option.isSome_iff_exists.mp (PageTable.unmap_isSome he hkind)
    simp [MemoryHandler.unmap, hget, hpt']
  case delay | file =>
    have hup : (pt.update addr fun e => { e with present := true }).lookup
        (Page.of_addr addr).number = some { e with present := true } := by
      rw [PageTable.lookup_update, if_pos rfl, he]
      rfl
    obtain ⟨pt', hpt'⟩ := Option.isSome_iff_exists.mp (PageTable.unmap_isSome hup rfl)
    simp [MemoryHandler.unmap, hget, hpt']

/-- `MemoryArea::unmap` succeeds when every page of its range holds an entry its handler
installed: each page's `unmap` erases its own key and leaves the others. -/
theorem MemoryArea.unmap_exists (u : MemoryArea) (m : Machine) (pt : PageTable)
    (hentries : ∀ p ∈ Page.range_of u.start_addr u.end_addr,
      ∃ e, pt.lookup p.key = some e ∧ EntryOf u.handler u.attr p.start_address e) :
    ∃ m' pt', u.unmap m pt = some (m', pt') := by
  set pages := Page.range_of u.start_addr u.end_addr
  have hnodup : pages.Nodup := nodup_range_of _ _
  -- the pages not done yet hold the entries they held at the start
  obtain ⟨⟨m', pt'⟩, hfold, -⟩ := Fold.foldlM_exists (l := pages) (s := (m, pt))
    (fun t page => u.handler.unmap t.1 t.2 page.start_address)
    (fun done (t : Machine × PageTable) =>
      ∀ q ∈ pages, q ∉ done → t.2.lookup q.key = pt.lookup q.key)
    (fun done x rest t hl hrest => by
      obtain ⟨m₁, pt₁⟩ := t
      dsimp only at hrest ⊢
      have hx : x ∈ pages := by rw [← hl]; simp
      have hxdone : x ∉ done := fun hmem =>
        List.disjoint_of_nodup_append (hl ▸ hnodup) hmem List.mem_cons_self
      obtain ⟨e, he, hentry⟩ := hentries x hx
      rw [← hrest x hx hxdone] at he
      obtain ⟨⟨m₂, pt₂⟩, hunmap⟩ := Option.isSome_iff_exists.mp
        (u.handler.unmap_isSome m₁ pt₁ x.start_address he hentry)
      refine ⟨(m₂, pt₂), hunmap, fun q hq hqdone => ?_⟩
      obtain ⟨-, hlook⟩ := u.handler.unmap_spec m₁ pt₁ x.start_address hunmap
      have hkey : q.key ≠ (Page.of_addr x.start_address).number := fun h =>
        hqdone (by rw [Page.eq_of_key_eq hq hx h]; simp)
      rw [hlook, if_neg hkey]
      exact hrest q hq fun h => hqdone (List.mem_append_left _ h))
    (fun _ _ _ => rfl)
  exact ⟨m', pt', hfold⟩

/-- `contains(addr)` in a well-formed area: the page of the address is one of its pages. -/
theorem MemoryArea.WF.contains_iff {a : MemoryArea} (hwf : a.WF) (addr : VirtAddr) :
    a.contains addr = true ↔ a.HasPage (Page.of_addr addr).number := by
  refine ⟨hwf.hasPage_of_contains, fun hn => ?_⟩
  rw [HasPage, of_addr_number_toNat] at hn
  have := hwf.start_aligned
  have := hwf.end_aligned
  simp only [contains, Bool.and_eq_true, decide_eq_true_eq, ge_iff_le, BitVec.le_def,
    BitVec.lt_def]
  omega

namespace MemorySet

/-- Page `n` lies in `[start_addr, end_addr)`. -/
def InRange (s e : VirtAddr) (n : Usize) : Prop :=
  s.toNat / 4096 ≤ n.toNat ∧ n.toNat < e.toNat / 4096

instance (s e : VirtAddr) (n : Usize) : Decidable (InRange s e n) :=
  inferInstanceAs (Decidable (_ ∧ _))

variable {s e : VirtAddr} {areas₀ areas : List MemoryArea} {pt₀ pt pt' : PageTable} {i j : Nat}

/-- The frame ids the handler of `a` gives back when the pages it has inside `[s, e)` are
unmapped from `pt`. -/
def frees_in (s e : VirtAddr) (pt : PageTable) (a : MemoryArea) : List Usize :=
  ((Page.range_of a.start_addr a.end_addr).filter fun p => decide (InRange s e p.key)).flatMap
    fun p => (pt.lookup p.key).elim [] a.handler.frees

/-- Only the entries of the area's pages inside the range count. -/
theorem frees_in_congr {a : MemoryArea} (hwf : a.WF)
    (h : ∀ n, a.HasPage n → InRange s e n → pt.lookup n = pt₀.lookup n) :
    frees_in s e pt a = frees_in s e pt₀ a := by
  refine List.flatMap_congr fun p hp => ?_
  obtain ⟨hp, hin⟩ := List.mem_filter.mp hp
  have hn : a.HasPage p.key := by
    rw [Page.key_of_mem hp]
    exact hwf.mem_range_of.mp hp
  rw [h p.key hn (of_decide_eq_true hin)]

/-- An area with no page inside the range frees nothing. -/
theorem frees_in_eq_nil {a : MemoryArea} (hwf : a.WF) (h : ∀ n, a.HasPage n → ¬ InRange s e n) :
    frees_in s e pt a = [] := by
  unfold frees_in
  rw [List.filter_eq_nil_iff.mpr fun p hp hin => ?_, List.flatMap_nil]
  refine h p.key ?_ (of_decide_eq_true hin)
  rw [Page.key_of_mem hp]
  exact hwf.mem_range_of.mp hp

/-- The pages of `u`, whose keys are the pages `a` has inside the range, are those pages of
`a` in some order. -/
theorem perm_range_of_cut {a u : MemoryArea} (hwf : a.WF)
    (hkeys : ∀ n, n ∈ (Page.range_of u.start_addr u.end_addr).map Page.key ↔
      a.HasPage n ∧ InRange s e n) :
    (Page.range_of u.start_addr u.end_addr).Perm
      ((Page.range_of a.start_addr a.end_addr).filter fun p => decide (InRange s e p.key)) := by
  refine (List.perm_ext_iff_of_nodup (nodup_range_of _ _) ((nodup_range_of _ _).filter _)).mpr
    fun p => ?_
  rw [List.mem_filter, decide_eq_true_iff]
  constructor
  · intro hp
    obtain ⟨hn, hin⟩ := (hkeys p.key).mp (List.mem_map_of_mem hp)
    rw [Page.key_of_mem hp] at hn
    exact ⟨hwf.mem_range_of.mpr hn, hin⟩
  · rintro ⟨hp, hin⟩
    have hn : a.HasPage p.key := by
      rw [Page.key_of_mem hp]
      exact hwf.mem_range_of.mp hp
    -- the page of `u` with that key is the page itself
    obtain ⟨q, hq, hqp⟩ := List.mem_map.mp ((hkeys p.key).mpr ⟨hn, hin⟩)
    rwa [← Page.eq_of_key_eq hq hp hqp]

/-- With page-aligned bounds, the page of an address lies in the range exactly when the
address does. -/
theorem inRange_of_addr_iff (hs : s.toNat % 4096 = 0) (he : e.toNat % 4096 = 0)
    (addr : VirtAddr) : InRange s e (Page.of_addr addr).number ↔ s ≤ addr ∧ addr < e := by
  rw [InRange, of_addr_number_toNat, BitVec.le_def, BitVec.lt_def]
  omega

/-! ## The rounds done -/

/-- After the rounds up to index `i`: the areas from `i` on are the old ones from `j` on;
those before `i` hold the pages the first `j` old areas held outside the range, each a piece
of one of them; the table lost the entries of those old pages inside the range and kept
every other. -/
structure Done (s e : VirtAddr) (areas₀ : List MemoryArea) (pt₀ : PageTable)
    (areas : List MemoryArea) (pt : PageTable) (i j : Nat) : Prop where
  rest : areas.drop i = areas₀.drop j
  pages : ∀ n, (∃ b ∈ areas.take i, b.HasPage n) ↔
    (∃ a ∈ areas₀.take j, a.HasPage n) ∧ ¬ InRange s e n
  pieces : ∀ b ∈ areas.take i, ∃ a ∈ areas₀.take j, b.PieceOf a
  unmapped : ∀ n, (∃ a ∈ areas₀.take j, a.HasPage n) → InRange s e n → pt.lookup n = none
  kept : ∀ n, ¬ ((∃ a ∈ areas₀.take j, a.HasPage n) ∧ InRange s e n) → pt.lookup n = pt₀.lookup n

theorem Done.start : Done s e areas₀ pt₀ areas₀ pt₀ 0 0 :=
  ⟨rfl, by simp, by simp, by simp, fun _ _ => rfl⟩

/-- The old areas up to one more: the next one is the area at the current index. -/
theorem take_succ_of_drop {a : MemoryArea} {post : List MemoryArea}
    (h : a :: post = areas₀.drop j) : areas₀.take (j + 1) = areas₀.take j ++ [a] := by
  have hget : areas₀[j]? = some a := by rw [← List.head?_drop, ← h]; rfl
  rw [List.take_add_one, hget]
  rfl

/-- **One round.** Putting in place of the area at index `i` its pieces, whose pages are
the area's outside the range, and erasing the entries of its pages inside the range. -/
theorem Done.replace {pre post pieces : List MemoryArea} {a : MemoryArea}
    (hd : Done s e areas₀ pt₀ (pre ++ a :: post) pt pre.length j)
    (hpieces : ∀ p ∈ pieces, p.PieceOf a)
    (hpages : ∀ n, (∃ p ∈ pieces, p.HasPage n) ↔ a.HasPage n ∧ ¬ InRange s e n)
    (hlook : ∀ n, pt'.lookup n = if a.HasPage n ∧ InRange s e n then none else pt.lookup n) :
    Done s e areas₀ pt₀ (pre ++ pieces ++ post) pt' (pre.length + pieces.length) (j + 1) := by
  have hrest : a :: post = areas₀.drop j := by simpa using hd.rest
  have htake₀ := take_succ_of_drop hrest
  have hdrop₀ : areas₀.drop (j + 1) = post := by rw [← List.tail_drop, ← hrest]; rfl
  have htake : (pre ++ a :: post).take pre.length = pre := by simp
  have htake' : (pre ++ pieces ++ post).take (pre.length + pieces.length) = pre ++ pieces := by
    rw [List.append_assoc, List.take_append, List.take_of_length_le (by omega)]
    simp
  have hold : ∀ n, (∃ a' ∈ areas₀.take (j + 1), a'.HasPage n) ↔
      (∃ a' ∈ areas₀.take j, a'.HasPage n) ∨ a.HasPage n := by
    intro n
    rw [htake₀]
    simp [or_and_right, exists_or]
  refine ⟨?_, fun n => ?_, ?_, fun n hn hin => ?_, fun n hn => ?_⟩
  · rw [hdrop₀, List.append_assoc, List.drop_append, List.drop_of_length_le (by omega)]
    simp
  · -- a page kept: by an area before, or by a piece of this one
    have hbefore := hd.pages n
    rw [htake] at hbefore
    rw [htake', hold]
    constructor
    · rintro ⟨b, hb, hbn⟩
      rcases List.mem_append.mp hb with hb | hb
      · obtain ⟨hprev, hnr⟩ := hbefore.mp ⟨b, hb, hbn⟩
        exact ⟨Or.inl hprev, hnr⟩
      · obtain ⟨han, hnr⟩ := (hpages n).mp ⟨b, hb, hbn⟩
        exact ⟨Or.inr han, hnr⟩
    · rintro ⟨hprev | han, hnr⟩
      · obtain ⟨b, hb, hbn⟩ := hbefore.mpr ⟨hprev, hnr⟩
        exact ⟨b, List.mem_append_left _ hb, hbn⟩
      · obtain ⟨p, hp, hpn⟩ := (hpages n).mpr ⟨han, hnr⟩
        exact ⟨p, List.mem_append_right _ hp, hpn⟩
  · rw [htake', htake₀]
    intro b hb
    rcases List.mem_append.mp hb with hb | hb
    · obtain ⟨a', ha', hpiece⟩ := hd.pieces b (by rw [htake]; exact hb)
      exact ⟨a', List.mem_append_left _ ha', hpiece⟩
    · exact ⟨a, by simp, hpieces b hb⟩
  · rw [hlook]
    split_ifs with hcut
    · rfl
    · -- not a page of this area, so one of an earlier old area
      have hprev : ∃ a' ∈ areas₀.take j, a'.HasPage n :=
        ((hold n).mp hn).resolve_right fun han => hcut ⟨han, hin⟩
      exact hd.unmapped n hprev hin
  · rw [hlook, if_neg fun hcut => hn ⟨(hold n).mpr (Or.inr hcut.1), hcut.2⟩]
    exact hd.kept n fun hcut => hn ⟨(hold n).mpr (Or.inl hcut.1), hcut.2⟩

/-- When the index has run past the areas, so has the count of old areas. -/
theorem Done.length_le (hd : Done s e areas₀ pt₀ areas pt i j) (hi : areas.length ≤ i) :
    areas₀.length ≤ j := by
  have hnil := hd.rest
  rw [List.drop_of_length_le hi] at hnil
  exact List.drop_eq_nil_iff.mp hnil.symm

/-- When the index has run past the areas, every old area is done. -/
theorem Done.finish (hd : Done s e areas₀ pt₀ areas pt i j) (hi : areas.length ≤ i) :
    Done s e areas₀ pt₀ areas pt areas.length areas₀.length := by
  have hj := hd.length_le hi
  have htake : areas.take i = areas.take areas.length := by
    rw [List.take_of_length_le hi, List.take_length]
  have htake₀ : areas₀.take j = areas₀.take areas₀.length := by
    rw [List.take_of_length_le hj, List.take_length]
  obtain ⟨-, hpages, hpieces, hunmapped, hkept⟩ := hd
  rw [htake, htake₀] at hpages hpieces
  rw [htake₀] at hunmapped hkept
  exact ⟨by simp, hpages, hpieces, hunmapped, hkept⟩

/-- What the rounds up to old area `j` gave back, on a machine that started as `m₀`: in front
of its free ids, in some order, the frames the handlers of those areas free for their pages
inside the range, as the table held them at the start; the memory is untouched. -/
structure Freed (s e : VirtAddr) (areas₀ : List MemoryArea) (pt₀ : PageTable) (m₀ m : Machine)
    (j : Nat) : Prop where
  mem : m.mem = m₀.mem
  frames : ∃ freed, m.frames.free = freed ++ m₀.frames.free ∧
    freed.Perm ((areas₀.take j).flatMap (frees_in s e pt₀))

section Freed

variable {m₀ m m' : Machine}

theorem Freed.start : Freed s e areas₀ pt₀ m₀ m₀ 0 :=
  ⟨rfl, [], rfl, by simp⟩

/-- **One round.** The area at the index is the next old one; none of its pages is an earlier
old area's, so the table still holds them as at the start, and what the round frees for them
joins what was freed before. -/
theorem Freed.replace {pre post : List MemoryArea} {a : MemoryArea}
    (hf : Freed s e areas₀ pt₀ m₀ m j) (hd : Done s e areas₀ pt₀ (pre ++ a :: post) pt pre.length j)
    (hinv₀ : Inv ⟨areas₀, pt₀⟩) (hmem : m'.mem = m.mem)
    (hround : ∃ freed, m'.frames.free = freed ++ m.frames.free ∧ freed.Perm (frees_in s e pt a)) :
    Freed s e areas₀ pt₀ m₀ m' (j + 1) := by
  have hrest : a :: post = areas₀.drop j := by simpa using hd.rest
  have ha : a ∈ areas₀ := List.mem_of_mem_drop (by rw [← hrest]; exact List.mem_cons_self)
  have hbefore : ∀ a' ∈ areas₀.take j, a'.Before a := by
    have hsorted := hinv₀.sorted
    rw [← List.take_append_drop j areas₀, ← hrest, List.pairwise_append] at hsorted
    exact fun a' ha' => hsorted.2.2 a' ha' a List.mem_cons_self
  have hsame : frees_in s e pt a = frees_in s e pt₀ a :=
    frees_in_congr (hinv₀.wf a ha) fun n hn hin =>
      hd.kept n fun ⟨⟨a', ha', hn'⟩, _⟩ => (hbefore a' ha').not_hasPage hn' hn
  obtain ⟨freed, hfreed, hperm⟩ := hf.frames
  obtain ⟨fr, hfr, hfrperm⟩ := hround
  refine ⟨hmem.trans hf.mem, fr ++ freed, by rw [hfr, hfreed, List.append_assoc], ?_⟩
  rw [take_succ_of_drop hrest, List.flatMap_append, List.flatMap_singleton, ← hsame]
  exact List.perm_append_comm.trans (hperm.append hfrperm)

theorem Freed.finish (hf : Freed s e areas₀ pt₀ m₀ m j) (hj : areas₀.length ≤ j) :
    Freed s e areas₀ pt₀ m₀ m areas₀.length :=
  ⟨hf.mem, by simpa only [List.take_of_length_le hj, List.take_length] using hf.frames⟩

end Freed

/-! ## A round of the loop -/

/-- Unmapping with an area's handler the pages it has inside the range succeeds, and
erases exactly those entries. -/
theorem Inv.unmap_cut {a : MemoryArea} (hinv : Inv ⟨areas, pt⟩) (ha : a ∈ areas) (u : MemoryArea)
    (hu : u.handler = a.handler) (hattr : u.attr = a.attr)
    (hkeys : ∀ n, n ∈ (Page.range_of u.start_addr u.end_addr).map Page.key ↔
      a.HasPage n ∧ InRange s e n) (m : Machine) :
    ∃ m' pt', u.unmap m pt = some (m', pt') ∧
      (∀ n, pt'.lookup n = if a.HasPage n ∧ InRange s e n then none else pt.lookup n) ∧
      m'.mem = m.mem ∧
      ∃ freed, m'.frames.free = freed ++ m.frames.free ∧ freed.Perm (frees_in s e pt a) := by
  obtain ⟨m', pt', hun⟩ := u.unmap_exists m pt fun p hp => by
    have hn := ((hkeys p.key).mp (List.mem_map_of_mem hp)).1
    obtain ⟨en, hen⟩ := Option.isSome_iff_exists.mp (hinv.covers.mapped a ha _ hn)
    have hentry := hinv.entry_of_owner hen ha hn
    rw [Page.key_of_mem hp] at hentry
    exact ⟨en, hen, by rw [hu, hattr]; exact hentry⟩
  obtain ⟨hfree, hmem⟩ := u.unmap_frees hun
  refine ⟨m', pt', hun, fun n => ?_, hmem, _, hfree, ?_⟩
  · rw [(u.unmap_spec hun).2 n]
    simp only [hkeys]
  · -- the pages of `u` are those of `a` inside the range, unmapped last first
    rw [hu]
    exact ((List.reverse_perm _).flatMap_right _).trans
      ((perm_range_of_cut (hinv.wf a ha) hkeys).flatMap_right _)

section Round

variable (hs : s.toNat % 4096 = 0) (he : e.toNat % 4096 = 0) (hse : s.toNat ≤ e.toNat)
  (he0 : e.toNat ≠ 0)
include hs he hse he0

/-- **A round of `pop_with_split`.** It succeeds, and puts in place of the area at index `i`
its pieces outside the range, unmapping the area's pages inside it; the next round starts
after the pieces. -/
theorem round_spec {a : MemoryArea} (m : Machine) (hinv : Inv ⟨areas, pt⟩)
    (ha : areas[i]? = some a) :
    ∃ m' pt' areas' i', pop_with_split.round s e m pt areas i a = some (m', pt', areas', i') ∧
      ∃ pre post pieces, areas = pre ++ a :: post ∧ pre.length = i ∧
        areas' = pre ++ pieces ++ post ∧ i' = i + pieces.length ∧ (∀ p ∈ pieces, p.PieceOf a) ∧
        (∀ n, (∃ p ∈ pieces, p.HasPage n) ↔ a.HasPage n ∧ ¬ InRange s e n) ∧
        (∀ n, pt'.lookup n = if a.HasPage n ∧ InRange s e n then none else pt.lookup n) ∧
        m'.mem = m.mem ∧
        ∃ freed, m'.frames.free = freed ++ m.frames.free ∧ freed.Perm (frees_in s e pt a) := by
  obtain ⟨pre, post, rfl, rfl⟩ := Store.exists_eq_append_cons_of_getElem? ha
  have hmem : a ∈ pre ++ a :: post := by simp
  have hwf : a.WF := hinv.wf a hmem
  have := hwf.start_aligned
  have := hwf.end_aligned
  have := hwf.lt
  have hlast := hwf.last_page
  have helast : (e - 1).toNat / 4096 = e.toNat / 4096 - 1 := pred_page_of_aligned he (by omega)
  unfold pop_with_split.round
  simp only [ge_iff_le, gt_iff_lt, BitVec.le_def, BitVec.lt_def]
  split_ifs with hov hsub hpre hpost
  · -- subset: every page of the area is in the range
    obtain ⟨m', pt', hun, hlook, hmach⟩ := hinv.unmap_cut (s := s) (e := e) hmem a rfl rfl (fun n => by
      rw [hwf.mem_keys, HasPage, InRange]
      omega) m
    refine ⟨m', pt', pre ++ post, pre.length, by simp [hun, Store.eraseIdx_middle], pre, post, [],
      rfl, rfl, by simp, by simp, by simp, fun n => ?_, hlook, hmach⟩
    simp only [List.not_mem_nil, false_and, exists_false, false_iff, not_and, HasPage, InRange]
    omega
  · -- prefix: the head of the area up to `end_addr` goes
    obtain ⟨m', pt', hun, hlook, hmach⟩ := hinv.unmap_cut (s := s) (e := e) hmem { a with end_addr := e }
      rfl rfl (fun n => by
        rw [mem_map_key_range_of, helast, HasPage, InRange]
        dsimp only
        omega) m
    refine ⟨m', pt', pre ++ { a with start_addr := e } :: post, pre.length + 1,
      by simp [hun], pre, post, [{ a with start_addr := e }], rfl, rfl, by simp,
      rfl, ?_, fun n => ?_, hlook, hmach⟩
    · simp only [List.mem_singleton, forall_eq]
      exact ⟨⟨he, hwf.end_aligned, by dsimp only; omega⟩, rfl, rfl, by dsimp only; omega, le_rfl⟩
    · simp only [List.mem_singleton, exists_eq_left, HasPage, InRange]
      omega
  · -- postfix: the tail of the area from `start_addr` goes
    obtain ⟨m', pt', hun, hlook, hmach⟩ := hinv.unmap_cut (s := s) (e := e) hmem { a with start_addr := s }
      rfl rfl (fun n => by
        rw [mem_map_key_range_of, hlast, HasPage, InRange]
        dsimp only
        omega) m
    refine ⟨m', pt', pre ++ { a with end_addr := s } :: post, pre.length + 1,
      by simp [hun], pre, post, [{ a with end_addr := s }], rfl, rfl, by simp,
      rfl, ?_, fun n => ?_, hlook, hmach⟩
    · simp only [List.mem_singleton, forall_eq]
      exact ⟨⟨hwf.start_aligned, hs, by dsimp only; omega⟩, rfl, rfl, le_rfl, by dsimp only; omega⟩
    · simp only [List.mem_singleton, exists_eq_left, HasPage, InRange]
      omega
  · -- superset: the area sticks out at both ends, and is split around the range
    rw [hwf.is_overlap_with_iff, helast] at hov
    obtain ⟨m', pt', hun, hlook, hmach⟩ := hinv.unmap_cut (s := s) (e := e) hmem
      { a with start_addr := s, end_addr := e } rfl rfl (fun n => by
        rw [mem_map_key_range_of, helast, HasPage, InRange]
        dsimp only
        omega) m
    refine ⟨m', pt', pre ++ { a with end_addr := s } :: { a with start_addr := e } :: post,
      pre.length + 2, by simp [hun, Store.insertIdx_middle], pre, post,
      [{ a with end_addr := s }, { a with start_addr := e }], rfl, rfl, by simp, rfl, ?_,
      fun n => ?_, hlook, hmach⟩
    · simp only [List.mem_cons, List.not_mem_nil, or_false, forall_eq_or_imp, forall_eq]
      exact ⟨⟨⟨hwf.start_aligned, hs, by dsimp only; omega⟩, rfl, rfl, le_rfl, by dsimp only; omega⟩,
        ⟨⟨he, hwf.end_aligned, by dsimp only; omega⟩, rfl, rfl, by dsimp only; omega, le_rfl⟩⟩
    · simp only [List.mem_cons, List.not_mem_nil, or_false, exists_eq_or_imp, exists_eq_left,
        HasPage, InRange]
      omega
  · -- no page of the area is in the range: it stays as it is
    rw [hwf.is_overlap_with_iff, helast] at hov
    refine ⟨m, pt, _, _, rfl, pre, post, [a], rfl, rfl, by simp, rfl,
      by simpa using (⟨hwf, rfl, rfl, le_rfl, le_rfl⟩ : a.PieceOf a), fun n => ?_, fun n => ?_,
      rfl, [], rfl, ?_⟩
    · simp only [List.mem_singleton, exists_eq_left, HasPage, InRange]
      omega
    · rw [if_neg (by simp only [HasPage, InRange]; omega)]
    · rw [frees_in_eq_nil hwf fun n hn hin => by simp only [HasPage, InRange] at hn hin; omega]

/-- **The loop.** With enough rounds, the loop of `pop_with_split` succeeds, every old area is
done, and the machine has got back what their handlers free. -/
theorem loop_spec (hinv₀ : Inv ⟨areas₀, pt₀⟩) (m₀ : Machine) (fuel : Nat) :
    ∀ (m : Machine) (pt : PageTable) (areas : List MemoryArea) (i j : Nat),
      areas.length - i ≤ fuel → Inv ⟨areas, pt⟩ → Done s e areas₀ pt₀ areas pt i j →
      Freed s e areas₀ pt₀ m₀ m j →
      ∃ m' pt' areas', pop_with_split.loop s e fuel m pt areas i = some (m', pt', areas') ∧
        Done s e areas₀ pt₀ areas' pt' areas'.length areas₀.length ∧
        Freed s e areas₀ pt₀ m₀ m' areas₀.length := by
  have hse' : s ≤ e := BitVec.le_def.mpr hse
  induction fuel with
  | zero =>
    intro m pt areas i j hfuel _ hd hf
    exact ⟨m, pt, areas, rfl, hd.finish (by omega), hf.finish (hd.length_le (by omega))⟩
  | succ fuel ih =>
    intro m pt areas i j hfuel hinv hd hf
    cases ha : areas[i]? with
    | none =>
      have hi := List.getElem?_eq_none_iff.mp ha
      exact ⟨m, pt, areas, by simp only [pop_with_split.loop, ha], hd.finish hi,
        hf.finish (hd.length_le hi)⟩
    | some a =>
      have hi : i < areas.length := (List.getElem?_eq_some_iff.mp ha).1
      obtain ⟨m₁, pt₁, areas₁, i₁, hround, hshape⟩ := round_spec hs he hse he0 m hinv ha
      have hmeasure := round_measure hi hround
      have hinv₁ := inv_round hs he hse' hinv ha hround
      obtain ⟨pre, post, pieces, rfl, rfl, rfl, rfl, hpieces, hpages, hlook, hmem, hfreed⟩ := hshape
      obtain ⟨m', pt', areas', hloop, hd', hf'⟩ := ih m₁ pt₁ _ _ (j + 1) (by omega) hinv₁
        (hd.replace hpieces hpages hlook) (hf.replace hd hinv₀ hmem hfreed)
      refine ⟨m', pt', areas', ?_, hd', hf'⟩
      simp only [pop_with_split.loop, ha, hround, Option.bind_eq_bind, Option.bind_some]
      exact hloop

end Round

/-! ## `pop_with_split` -/

/-- **What `pop_with_split` removes.** For page-aligned bounds with `end_addr ≠ 0`, on a
memory set keeping its invariant, `pop_with_split` does not panic; afterwards the areas hold
exactly the addresses they held outside `[start_addr, end_addr)`, each remaining area lies in
an old one and has its attributes and handler, the invariant holds, the table lost
exactly the entries of the old pages inside the range, every other entry as it was, and the
machine got back, in front of its free frame ids and in some order, the frames the old areas'
handlers free for those pages, its memory untouched. -/
theorem pop_with_split_spec {ms : MemorySet} {m : Machine} (hinv : ms.Inv)
    (hs : s.toNat % 4096 = 0) (he : e.toNat % 4096 = 0) (hse : s ≤ e) (he0 : e ≠ 0) :
    ∃ m' ms', ms.pop_with_split m s e = some (m', ms') ∧ ms'.Inv ∧
      (∀ addr, (∃ b ∈ ms'.areas, b.contains addr = true) ↔
        (∃ a ∈ ms.areas, a.contains addr = true) ∧ ¬ (s ≤ addr ∧ addr < e)) ∧
      (∀ b ∈ ms'.areas, ∃ a ∈ ms.areas, b.attr = a.attr ∧ b.handler = a.handler ∧
        ∀ addr, b.contains addr = true → a.contains addr = true) ∧
      (∀ n, ms'.page_table.lookup n =
        if (∃ a ∈ ms.areas, a.HasPage n) ∧ InRange s e n then none else ms.page_table.lookup n) ∧
      m'.mem = m.mem ∧ ∃ freed, m'.frames.free = freed ++ m.frames.free ∧
        freed.Perm (ms.areas.flatMap (frees_in s e ms.page_table)) := by
  obtain ⟨areas₀, pt₀⟩ := ms
  have hse' : s.toNat ≤ e.toNat := BitVec.le_def.mp hse
  have he0' : e.toNat ≠ 0 := fun h => he0 (BitVec.eq_of_toNat_eq (by simp [h]))
  obtain ⟨m', pt', areas', hloop, hd, hf⟩ := loop_spec hs he hse' he0' hinv m areas₀.length m pt₀
    areas₀ 0 0 (by omega) hinv Done.start Freed.start
  have hinv' : Inv ⟨areas', pt'⟩ := inv_pop_with_split_loop hs he hse _ hinv hloop
  have hpages := hd.pages
  have hpieces := hd.pieces
  simp only [List.take_length] at hpages hpieces
  refine ⟨m', ⟨areas', pt'⟩, by simp [pop_with_split, hse, hloop], hinv', fun addr => ?_,
    fun b hb => ?_, fun n => ?_, hf.mem, by simpa only [List.take_length] using hf.frames⟩
  · -- read page by page: every area is well formed
    have hold : (∃ a ∈ areas₀, a.contains addr = true) ↔
        ∃ a ∈ areas₀, a.HasPage (Page.of_addr addr).number :=
      exists_congr fun a => and_congr_right fun ha => (hinv.wf a ha).contains_iff addr
    have hnew : (∃ b ∈ areas', b.contains addr = true) ↔
        ∃ b ∈ areas', b.HasPage (Page.of_addr addr).number :=
      exists_congr fun b => and_congr_right fun hb => (hinv'.wf b hb).contains_iff addr
    rw [hold, hnew, hpages, inRange_of_addr_iff hs he]
  · obtain ⟨a, ha, hpiece⟩ := hpieces b hb
    refine ⟨a, ha, hpiece.attr, hpiece.handler, fun addr hc => ?_⟩
    have := hpiece.start_le
    have := hpiece.end_le
    simp only [contains, Bool.and_eq_true, decide_eq_true_eq, ge_iff_le, BitVec.le_def,
      BitVec.lt_def] at hc ⊢
    omega
  · have hunmapped := hd.unmapped n
    have hkept := hd.kept n
    simp only [List.take_length] at hunmapped hkept
    split_ifs with hcut
    · exact hunmapped hcut.1 hcut.2
    · exact hkept hcut

/-- **`pop_with_split(0, 0)` panics.** It is to remove the range `[start_addr, end_addr)`, here
empty, and its `assert!(start_addr <= end_addr)` passes. But at `end_addr = 0` the
`end_addr - 1` of `is_overlap_with` wraps: every area is taken to stick out of the range at
both ends, and the first round unmaps the dead area `[0, 0)`, the whole address space, whose
pages outside the area have no entry. -/
theorem pop_with_split_zero {ms : MemorySet} (m : Machine) (hinv : ms.Inv) (hne : ms.areas ≠ []) :
    ms.pop_with_split m 0 0 = none := by
  obtain ⟨areas₀, pt₀⟩ := ms
  obtain ⟨a, rest, rfl⟩ := List.exists_cons_of_ne_nil hne
  have hwf : a.WF := hinv.wf a List.mem_cons_self
  have := hwf.end_pos
  have hz : (0 : VirtAddr).toNat = 0 := rfl
  have hov : a.is_overlap_with 0 0 = true := by
    have := a.start_addr.isLt
    have hm1 : ((0 : VirtAddr) - 1).toNat = 2 ^ 64 - 1 := rfl
    rw [hwf.is_overlap_with_iff, hz, hm1]
    omega
  have hround : pop_with_split.round 0 0 m pt₀ (a :: rest) 0 a = none := by
    unfold pop_with_split.round
    have hend : ¬ a.end_addr ≤ 0 := by rw [BitVec.le_def, hz]; omega
    have hstart : ¬ a.start_addr < 0 := by rw [BitVec.lt_def, hz]; omega
    simp only [hov, if_true, ge_iff_le, gt_iff_lt, hend, and_false, if_false, hstart,
      false_and]
    rw [unmap_everything_fails hinv.covers _ rfl rfl]
    rfl
  unfold pop_with_split
  rw [if_pos (by decide)]
  simp only [List.length_cons, pop_with_split.loop, List.getElem?_cons_zero, hround,
    Option.bind_eq_bind, Option.bind_none]

/-- `MemorySet::new()` after a `push` of the `Linear` area `[0x1000, 0x2000)`. -/
theorem push_one_area (m : Machine) :
    ∃ m' ms, MemorySet.new.push m 0x1000#64 0x2000#64 default (.linear 0) = some (m', ms) ∧
      ms.Inv ∧ ms.areas = [⟨0x1000#64, 0x2000#64, default, .linear 0⟩] := by
  obtain ⟨m', ms, hpush, -, hareas⟩ := @push_exists MemorySet.new m 0x1000#64 0x2000#64 default
    (.linear 0) inv_new (by decide) (by decide) (by decide) rfl (fun h => nomatch h)
  exact ⟨m', ms, hpush, inv_push inv_new hpush, by rw [hareas]; rfl⟩

/-- A memory set of one area: `pop_with_split(0, 0)`, of an empty range, panics. -/
theorem pop_with_split_at_zero_panics :
    ∃ (m : Machine) (ms : MemorySet), ms.Inv ∧
      ms.areas = [⟨0x1000#64, 0x2000#64, default, .linear 0⟩] ∧ ms.pop_with_split m 0 0 = none := by
  obtain ⟨m, ms, -, hinv, hareas⟩ := push_one_area ⟨⟨[]⟩, fun _ => 0⟩
  exact ⟨m, ms, hinv, hareas, pop_with_split_zero m hinv (by rw [hareas]; simp)⟩

end MemorySet

end Queen.Memory
