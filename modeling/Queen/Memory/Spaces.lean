/-
The memory sets of the kernel, taken together: every process's `MemorySet` and the frame
allocator and physical memory they share, under the operations of `memory_set.rs` in any
order.

A memory set starts as `MemorySet::new()` or `new_bare()` (the same in the model, since
`map_kernel` adds nothing to an aarch64 user table), and then any of them may `push`, `pop`,
`pop_with_split`, `clear`, take a page fault or be cloned, the clone joining the others. An
operation that panics stops the system, so it has no successor. `pop_with_split` is taken
with page-aligned bounds only; the invariant is about those calls.

`Spaces.memory_set_representation` is the representation invariant of every memory set of
every reachable state, in the terms of `MemorySet.Inv`'s parts.
-/
import Queen.Lib.Transition
import Queen.Memory.Split

set_option autoImplicit false

namespace Queen.Memory

open MemoryArea

/-- The memory sets the kernel holds and the machine they share. -/
structure Spaces where
  machine : Machine
  sets : List MemorySet

/-- An operation on the memory set at position `i`, or a new empty one. -/
inductive Spaces.Op
  | new
  | push (i : Nat) (start_addr end_addr : VirtAddr) (attr : MemoryAttr) (handler : MemoryHandler)
  | pop (i : Nat) (start_addr end_addr : VirtAddr)
  | pop_with_split (i : Nat) (start_addr end_addr : VirtAddr)
  | clear (i : Nat)
  | handle_page_fault (i : Nat) (addr : VirtAddr)
  | clone (i : Nat)

namespace Spaces

/-- Run an operation of the memory set at position `i` on the shared machine. -/
def modify (sp : Spaces) (i : Nat) (f : MemorySet → Machine → Option (Machine × MemorySet)) :
    Option Spaces := do
  let ms ← sp.sets[i]?
  let (m, ms) ← f ms sp.machine
  some ⟨m, sp.sets.set i ms⟩

/-- One operation. -/
def step (sp : Spaces) : Op → Option Spaces
  | .new => some ⟨sp.machine, sp.sets ++ [MemorySet.new]⟩
  | .push i start_addr end_addr attr handler =>
    sp.modify i fun ms m => ms.push m start_addr end_addr attr handler
  | .pop i start_addr end_addr => sp.modify i fun ms m => ms.pop m start_addr end_addr
  | .pop_with_split i start_addr end_addr =>
    if start_addr.toNat % 4096 = 0 ∧ end_addr.toNat % 4096 = 0 then
      sp.modify i fun ms m => ms.pop_with_split m start_addr end_addr
    else none
  | .clear i => sp.modify i fun ms m => ms.clear m
  | .handle_page_fault i addr =>
    sp.modify i fun ms m => (ms.handle_page_fault m addr).map fun (_, m, ms) => (m, ms)
  | .clone i => do
    let ms ← sp.sets[i]?
    let (m, child) ← ms.clone sp.machine
    some ⟨m, sp.sets ++ [child]⟩

/-- The states reachable from no memory sets and any machine. -/
def Reachable : Spaces → Prop :=
  Transition.Reachable (fun sp => sp.sets = []) (Transition.Next step)

/-- Every memory set keeps the invariant. -/
def AllInv (sp : Spaces) : Prop := ∀ ms ∈ sp.sets, ms.Inv

/-- An operation of one memory set that keeps the invariant keeps it of all. -/
theorem AllInv.modify {sp sp' : Spaces} {i : Nat} {f : MemorySet → Machine → Option (Machine × MemorySet)}
    (hf : ∀ ms m r, ms.Inv → f ms m = some r → r.2.Inv) (hinv : sp.AllInv)
    (h : sp.modify i f = some sp') : sp'.AllInv := by
  simp only [Spaces.modify, Option.bind_eq_bind, Option.bind_eq_some_iff, Option.some.injEq] at h
  obtain ⟨ms, hms, ⟨m, ms₁⟩, hf₁, rfl⟩ := h
  have hnew : ms₁.Inv := hf ms sp.machine (m, ms₁) (hinv ms (List.mem_of_getElem? hms)) hf₁
  intro b hb
  rcases List.mem_or_eq_of_mem_set hb with hb | rfl
  · exact hinv b hb
  · exact hnew

/-- A new memory set or a clone joins the others with the invariant. -/
theorem AllInv.append {sp : Spaces} {m : Machine} {ms : MemorySet} (hinv : sp.AllInv) (hms : ms.Inv) :
    AllInv ⟨m, sp.sets ++ [ms]⟩ := by
  intro b hb
  rcases List.mem_append.mp hb with hb | hb
  · exact hinv b hb
  · rw [List.mem_singleton.mp hb]
    exact hms

/-- Every operation keeps the invariant of every memory set. -/
theorem AllInv.step {sp sp' : Spaces} {op : Op} (hinv : sp.AllInv) (h : sp.step op = some sp') :
    sp'.AllInv := by
  cases op with
  | new =>
    cases h
    exact hinv.append MemorySet.inv_new
  | push i s e attr handler =>
    exact hinv.modify (fun _ _ _ hms hf => MemorySet.inv_push hms hf) h
  | pop i s e => exact hinv.modify (fun _ _ _ hms hf => MemorySet.inv_pop hms hf) h
  | pop_with_split i s e =>
    simp only [Spaces.step] at h
    split at h
    · next haligned =>
      exact hinv.modify (fun _ _ _ hms hf => MemorySet.inv_pop_with_split haligned.1 haligned.2 hms hf) h
    · cases h
  | clear i => exact hinv.modify (fun _ _ _ hms hf => MemorySet.inv_clear hms hf) h
  | handle_page_fault i addr =>
    simp only [Spaces.step] at h
    refine hinv.modify (fun ms m r hms hf => ?_) h
    obtain ⟨⟨ok, m₁, ms₁⟩, hfault, rfl⟩ := Option.map_eq_some_iff.mp hf
    exact MemorySet.inv_handle_page_fault hms hfault
  | clone i =>
    simp only [Spaces.step, Option.bind_eq_bind, Option.bind_eq_some_iff, Option.some.injEq] at h
    obtain ⟨ms, hms, ⟨m, child⟩, hclone, rfl⟩ := h
    exact hinv.append (MemorySet.inv_clone (hinv ms (List.mem_of_getElem? hms)) hclone)

/-- Every memory set of a reachable state keeps the invariant. -/
theorem reachable_allInv {sp : Spaces} (h : sp.Reachable) : sp.AllInv :=
  Transition.Reachable.inv (fun sp hsp ms hms => by rw [hsp] at hms; cases hms)
    (fun _ _ hinv ⟨_, hstep⟩ => hinv.step hstep) h

/-- **The representation invariant of `MemorySet`.** In every reachable state, every memory
set has its areas in strictly increasing order of start address, each page-aligned and
non-empty, no two sharing an address; and its page table has an entry for exactly the pages
of its areas, each entry of the kind the area holding the page installs. -/
theorem memory_set_representation {sp : Spaces} (hr : sp.Reachable) {ms : MemorySet}
    (hms : ms ∈ sp.sets) :
    ms.areas.Pairwise (fun a b => a.start_addr < b.start_addr) ∧
      (∀ a ∈ ms.areas, a.WF) ∧
      ms.areas.Pairwise (fun a b => ∀ addr, ¬ (a.contains addr = true ∧ b.contains addr = true)) ∧
      (∀ n, (ms.page_table.lookup n).isSome ↔ ∃ a ∈ ms.areas, a.HasPage n) ∧
      ∀ n e, ms.page_table.lookup n = some e → ∀ a ∈ ms.areas, a.HasPage n →
        EntryOf a.handler a.attr (⟨n⟩ : Page).start_address e := by
  have hinv := reachable_allInv hr ms hms
  exact ⟨hinv.start_lt, hinv.wf, hinv.disjoint, hinv.lookup_isSome_iff,
    fun _ _ he a ha hn => hinv.entry_of_owner he ha hn⟩

/-- Two memory sets after a run: the first gets a `ByFrame` area of two pages and a `Delay`
area of one, takes a page fault on the lazy page, and is cloned. Both sets hold the two areas
and an entry for each of their three pages, and keep the invariant. -/
theorem memory_set_representation_after_clone :
    ∃ sp : Spaces, Reachable sp ∧ sp.sets.length = 2 ∧ ∀ ms ∈ sp.sets,
      ms.areas.length = 2 ∧ (ms.page_table.lookup 1).isSome ∧ (ms.page_table.lookup 2).isSome ∧
      (ms.page_table.lookup 5).isSome ∧
      (ms.areas.Pairwise (fun a b => a.start_addr < b.start_addr) ∧
        (∀ a ∈ ms.areas, a.WF) ∧
        ms.areas.Pairwise (fun a b => ∀ addr, ¬ (a.contains addr = true ∧ b.contains addr = true)) ∧
        (∀ n, (ms.page_table.lookup n).isSome ↔ ∃ a ∈ ms.areas, a.HasPage n) ∧
        ∀ n e, ms.page_table.lookup n = some e → ∀ a ∈ ms.areas, a.HasPage n →
          EntryOf a.handler a.attr (⟨n⟩ : Page).start_address e) := by
  obtain ⟨sp, hs, hp⟩ := Transition.exists_reachable_of_run step
    ⟨⟨⟨[0, 1, 2, 3, 4, 5]⟩, fun _ => 0⟩, []⟩
    [.new, .push 0 0x1000#64 0x3000#64 default .byFrame, .push 0 0x5000#64 0x6000#64 default .delay,
      .handle_page_fault 0 0x5000#64, .clone 0]
    (fun sp => sp.sets.length == 2 && sp.sets.all fun ms => ms.areas.length == 2 &&
      (ms.page_table.lookup 1).isSome && (ms.page_table.lookup 2).isSome &&
      (ms.page_table.lookup 5).isSome)
    (by decide +kernel)
  have hr : sp.Reachable := hs.mono fun s hs₀ => by rw [hs₀]
  simp only [Bool.and_eq_true, beq_iff_eq, List.all_eq_true] at hp
  refine ⟨sp, hr, hp.1, fun ms hms => ?_⟩
  obtain ⟨⟨⟨hlen, h1⟩, h2⟩, h5⟩ := hp.2 ms hms
  exact ⟨hlen, h1, h2, h5, memory_set_representation hr hms⟩

end Spaces

end Queen.Memory
