/-
The page tables the kernel boots on: `create_init_paging` and `map_2mib` of
`kernel/src/arch/aarch64/boot/mod.rs`, over the board's ranges of
`kernel/src/arch/aarch64/bsp/virt/mod.rs`.

Before the MMU is on, `create_init_paging` clears four tables and links them:
`page_table_lvl4` points at `page_table_lvl3` from slots 0 and 256, and that one at
`page_table_lvl2_0` and `page_table_lvl2_1` from slots 0 and 1. `map_2mib` then fills the two
level-2 tables with 2 MiB blocks: the peripherals as device memory that never executes
(`PXN` and `UXN`), the RAM as normal memory only the kernel may execute (`UXN`).
`enable_mmu` loads the level-4 table into both `TTBR0_EL1` and `TTBR1_EL1`, with 48-bit
addresses (`T0SZ = T1SZ = 16`) and 4 KiB granules.

What the tables mean is the architecture's walk (`walk`): bits 47 to 39 of an address
index the level-4 table, 38 to 30 the level-3 one, 29 to 21 the level-2 one, and a block maps
the bits below onto its output address. `enable_mmu` has the top byte ignored
(`TBI0 = TBI1 = Ignored`), so the MMU walks an address whose bits 55 to 48 are all 0 from
`TTBR0_EL1`, all 1 from `TTBR1_EL1`, and faults on any other (`translate`). With the one table
in both `TTBR`s, a walk reads bits 47 to 0 of an address only.

Through the boot tables an address translates exactly when its bits 55 to 48 are all 0 or
all 1, its level-4 index is 0 or 256 and its low 39 bits fall in the peripherals or in the RAM, and then to those 39 bits with the
flags and attribute of its range (`boot_map_translation`, against `boot_map`). So the
kernel's addresses `as_upper_range(pa)`, which `enable_mmu` moves the stack pointer and the
return address to, reach the RAM they name, and so do the identity addresses the boot code
runs at until then. `map_2mib` writes one block per 2 MiB frame of its range, at the slot of
the frame's bits 29 to 21 (`map_2mib_block`), and leaves every other slot
(`map_2mib_of_not_mem`), for a range of at most 1 GiB.

The `aarch64` crate is not in the tree: `align_down`, `align_up`, `Frame::range_of`,
`p2_index`, `set_frame` and `set_block` are modelled by what they compute. A descriptor is
what the walk reads of it (`Desc`): `set_frame` writes a table descriptor above the last level
and a page descriptor at it, `set_block` a block descriptor, each with its output address,
flags and attribute; the walk reads no flag of a table descriptor. `EF::default_table()` and
`EF::default_block()` are the crate's and stay parameters.
-/
import Queen.Arch.Paging
import Queen.Lib.Store

set_option autoImplicit false

namespace Queen.Arch

open Queen.Memory

/-! ## The board -/

/-- `PERIPHERALS_START` of the QEMU virt board. -/
def PERIPHERALS_START : Usize := 0x0800_0000

/-- `PERIPHERALS_END`. -/
def PERIPHERALS_END : Usize := 0x1000_0000

/-- `MEMORY_START`. -/
def MEMORY_START : Usize := 0x4000_0000

/-- `MEMORY_END`. -/
def MEMORY_END : Usize := 0x8000_0000

/-! ## Descriptors and the walk -/

/-- A descriptor as the walk reads it. -/
inductive Desc
  | invalid
  /-- `set_frame`: a table descriptor above the last level, a page descriptor at it. -/
  | frame (addr : PhysAddr) (flags : Finset EF) (attr : MairAttr)
  /-- `set_block`: a block descriptor. -/
  | block (addr : PhysAddr) (flags : Finset EF) (attr : MairAttr)
deriving DecidableEq

/-- A page table: 512 descriptors. -/
abbrev Table := Fin 512 → Desc

/-- `PageTable::clear`. -/
def Table.clear : Table := fun _ => .invalid

/-- The tables in memory, by the address of their frame. -/
abbrev Tables := PhysAddr → Table

/-- The index of an address in a table: its 9 bits from bit `shift`. -/
def index (va : Usize) (shift : Nat) : Fin 512 :=
  ⟨va.toNat / 2 ^ shift % 512, Nat.mod_lt _ (by norm_num)⟩

/-- The MMU's walk from the level-4 table at `root`: the output address, flags and
attribute an address translates to, or `none` for a translation fault. -/
def walk (mem : Tables) (root : PhysAddr) (va : Usize) :
    Option (PhysAddr × Finset EF × MairAttr) :=
  match mem root (index va 39) with
  | .frame p3 _ _ =>
    match mem p3 (index va 30) with
    | .block pa flags attr => some (pa + BitVec.ofNat 64 (va.toNat % 2 ^ 30), flags, attr)
    | .frame p2 _ _ =>
      match mem p2 (index va 21) with
      | .block pa flags attr => some (pa + BitVec.ofNat 64 (va.toNat % 2 ^ 21), flags, attr)
      | .frame p1 _ _ =>
        match mem p1 (index va 12) with
        | .frame pa flags attr => some (pa + BitVec.ofNat 64 (va.toNat % 2 ^ 12), flags, attr)
        | _ => none
      | .invalid => none
    | .invalid => none
  -- a level-4 table holds no blocks
  | _ => none

/-- Bits 55 to 48 of an address are all 0 or all 1: with `T0SZ = T1SZ = 16` and the top byte
ignored (`TBI0 = TBI1 = Ignored`), the addresses the MMU walks. -/
def canonical (va : Usize) : Prop := va.toNat / 2 ^ 48 % 256 = 0 ∨ va.toNat / 2 ^ 48 % 256 = 0xff

instance (va : Usize) : Decidable (canonical va) := inferInstanceAs (Decidable (_ ∨ _))

/-- The MMU's translation under the `TCR_EL1` that `enable_mmu` writes: bits 63 to 56 are
ignored, an address whose bits 55 to 48 are all 0 is walked from `TTBR0_EL1`, one whose bits
55 to 48 are all 1 from `TTBR1_EL1`, and any other is a translation fault. -/
def translate (mem : Tables) (ttbr0 ttbr1 : PhysAddr) (va : Usize) :
    Option (PhysAddr × Finset EF × MairAttr) :=
  if va.toNat / 2 ^ 48 % 256 = 0 then walk mem ttbr0 va
  else if va.toNat / 2 ^ 48 % 256 = 0xff then walk mem ttbr1 va
  else none

/-- With one table in both `TTBR`s, translating is walking it, for the addresses walked. -/
theorem translate_same_root (mem : Tables) (root : PhysAddr) (va : Usize) :
    translate mem root root va = if canonical va then walk mem root va else none := by
  unfold translate
  by_cases h0 : va.toNat / 2 ^ 48 % 256 = 0
  · rw [if_pos h0, if_pos (show canonical va from Or.inl h0)]
  · by_cases hff : va.toNat / 2 ^ 48 % 256 = 0xff
    · rw [if_neg h0, if_pos hff, if_pos (show canonical va from Or.inr hff)]
    · rw [if_neg h0, if_neg hff, if_neg (show ¬ canonical va from fun h => h.elim h0 hff)]

section Walk

variable {mem : Tables} {root p3 p2 pa : PhysAddr} {va : Usize} {fl fl' flags : Finset EF}
  {at₄ at₃ attr : MairAttr}

theorem walk_of_invalid_4 (h4 : mem root (index va 39) = .invalid) :
    walk mem root va = none := by
  rw [walk, h4]

theorem walk_of_invalid_3 (h4 : mem root (index va 39) = .frame p3 fl at₄)
    (h3 : mem p3 (index va 30) = .invalid) : walk mem root va = none := by
  rw [walk, h4]
  dsimp only
  rw [h3]

theorem walk_of_invalid_2 (h4 : mem root (index va 39) = .frame p3 fl at₄)
    (h3 : mem p3 (index va 30) = .frame p2 fl' at₃) (h2 : mem p2 (index va 21) = .invalid) :
    walk mem root va = none := by
  rw [walk, h4]
  dsimp only
  rw [h3]
  dsimp only
  rw [h2]

/-- A 2 MiB block at level 2 maps the low 21 bits of the address onto its own. -/
theorem walk_of_block_2 (h4 : mem root (index va 39) = .frame p3 fl at₄)
    (h3 : mem p3 (index va 30) = .frame p2 fl' at₃) (h2 : mem p2 (index va 21) = .block pa flags attr) :
    walk mem root va = some (pa + BitVec.ofNat 64 (va.toNat % 2 ^ 21), flags, attr) := by
  rw [walk, h4]
  dsimp only
  rw [h3]
  dsimp only
  rw [h2]

end Walk

/-! ## `map_2mib` -/

/-- `ALIGN_2MIB`. -/
def ALIGN_2MIB : Usize := 0x20_0000

/-- `align_down(addr, align)`. -/
def align_down (addr align : Usize) : Usize := addr &&& ~~~(align - 1)

/-- `align_up(addr, align)`. -/
def align_up (addr align : Usize) : Usize :=
  if addr &&& (align - 1) = 0 then addr else (addr ||| (align - 1)) + 1

/-- `Frame::<Size2MiB>::range_of(begin, end)`: the numbers of the 2 MiB frames from the one
holding `begin` to the one holding `end - 1`. -/
def range_of_2mib (begin «end» : Usize) : List Nat :=
  List.range' (begin.toNat / 2 ^ 21) ((«end» - 1).toNat / 2 ^ 21 + 1 - begin.toNat / 2 ^ 21)

/-- `start_address()` of the 2 MiB frame `n`. -/
def frame_2mib_start (n : Nat) : PhysAddr := BitVec.ofNat 64 (n * 2 ^ 21)

/-- `Page::<Size2MiB>::of_addr(addr).p2_index()`: bits 29 to 21. -/
def p2_index (addr : Usize) : Fin 512 := index addr 21

/-- `map_2mib(p2, start, end, flag, attr)`: a block for each 2 MiB frame of the range. -/
def map_2mib (p2 : Table) (start «end» : Usize) (flag : Finset EF) (attr : MairAttr) : Table :=
  let aligned_start := align_down start ALIGN_2MIB
  let aligned_end := align_up «end» ALIGN_2MIB
  (range_of_2mib aligned_start aligned_end).foldl
    (fun p2 n =>
      Function.update p2 (p2_index (frame_2mib_start n)) (.block (frame_2mib_start n) flag attr))
    p2

/-! ### What `map_2mib` writes -/

theorem align_down_of_aligned_2mib {x : Usize} (hx : x.toNat % 2 ^ 21 = 0) :
    align_down x ALIGN_2MIB = x := by
  have hmask : ~~~(ALIGN_2MIB - 1) = BitVec.allOnes 64 <<< 21 := by decide
  apply BitVec.eq_of_toNat_eq
  rw [align_down, hmask, ← BitVec.shiftLeft_ushiftRight, BitVec.toNat_shiftLeft,
    BitVec.toNat_ushiftRight, Nat.shiftRight_eq_div_pow, Nat.shiftLeft_eq]
  rw [Nat.mod_eq_of_lt (by omega)]
  omega

theorem align_up_of_aligned_2mib {x : Usize} (hx : x.toNat % 2 ^ 21 = 0) :
    align_up x ALIGN_2MIB = x := by
  have hlow : x &&& (ALIGN_2MIB - 1) = 0 := by
    have hmask : ALIGN_2MIB - 1 = BitVec.ofNat 64 (2 ^ 21 - 1) := by decide
    apply BitVec.eq_of_toNat_eq
    rw [hmask, BitVec.toNat_and, BitVec.toNat_ofNat, Nat.mod_eq_of_lt (by norm_num),
      Nat.and_two_pow_sub_one_eq_mod, hx]
    rfl
  rw [align_up, if_pos hlow]

/-- The frames of an aligned range: from the first to the one before the end. -/
theorem range_of_2mib_of_aligned {s e : Usize} (he : e.toNat % 2 ^ 21 = 0) (hpos : 0 < e.toNat) :
    range_of_2mib s e = List.range' (s.toNat / 2 ^ 21) (e.toNat / 2 ^ 21 - s.toNat / 2 ^ 21) := by
  have hsub : (e - 1).toNat = e.toNat - 1 := by
    rw [Usize.toNat_sub_of_le (by bv_omega), Usize.toNat_one]
  rw [range_of_2mib, hsub]
  congr 1
  omega

theorem p2_index_frame_2mib_start {n : Nat} (hn : n < 2 ^ 43) :
    p2_index (frame_2mib_start n) = ⟨n % 512, Nat.mod_lt _ (by norm_num)⟩ := by
  have hnat : (frame_2mib_start n).toNat = n * 2 ^ 21 := by
    rw [frame_2mib_start, BitVec.toNat_ofNat, Nat.mod_eq_of_lt (by omega)]
  ext
  simp only [p2_index, index, hnat, Nat.mul_div_cancel _ (by norm_num : 0 < 2 ^ 21)]

section Map2Mib

variable {p2 : Table} {s e : Usize} {flag : Finset EF} {attr : MairAttr}

/-- The loop of `map_2mib` over an aligned range, as a loop of writes keyed by slot. -/
theorem map_2mib_eq_foldl (hs : s.toNat % 2 ^ 21 = 0) (he : e.toNat % 2 ^ 21 = 0)
    (hpos : 0 < e.toNat) :
    map_2mib p2 s e flag attr =
      (List.range' (s.toNat / 2 ^ 21) (e.toNat / 2 ^ 21 - s.toNat / 2 ^ 21)).foldl
        (fun p2 n => Function.update p2 ((fun n => p2_index (frame_2mib_start n)) n)
          ((fun n => Desc.block (frame_2mib_start n) flag attr) n)) p2 := by
  rw [map_2mib, align_down_of_aligned_2mib hs, align_up_of_aligned_2mib he,
    range_of_2mib_of_aligned he hpos]

/-- **`map_2mib` writes the block of each frame.** For a range of aligned bounds and at most
1 GiB, the slot of a frame's bits 29 to 21 holds a block at the frame's address. -/
theorem map_2mib_block (hs : s.toNat % 2 ^ 21 = 0) (he : e.toNat % 2 ^ 21 = 0)
    (hpos : 0 < e.toNat) (hlen : e.toNat / 2 ^ 21 ≤ s.toNat / 2 ^ 21 + 512) {n : Nat}
    (hlo : s.toNat / 2 ^ 21 ≤ n) (hhi : n < e.toNat / 2 ^ 21) :
    map_2mib p2 s e flag attr ⟨n % 512, Nat.mod_lt _ (by norm_num)⟩ =
      .block (frame_2mib_start n) flag attr := by
  have he64 := e.isLt
  have hn : n < 2 ^ 43 := by omega
  rw [map_2mib_eq_foldl hs he hpos, ← p2_index_frame_2mib_start hn]
  refine Store.foldl_update_of_mem _ _ _ _ (.inl (List.mem_range'_1.mpr ⟨hlo, by omega⟩)) ?_
  -- two frames of a range of at most 512 with one slot are one frame
  intro m hm hslot
  obtain ⟨hmlo, hmhi⟩ := List.mem_range'_1.mp hm
  have hm43 : m < 2 ^ 43 := by omega
  rw [p2_index_frame_2mib_start hm43, p2_index_frame_2mib_start hn, Fin.mk.injEq] at hslot
  omega

/-- Every slot no frame of the range falls on keeps what it held. -/
theorem map_2mib_of_not_mem (hs : s.toNat % 2 ^ 21 = 0) (he : e.toNat % 2 ^ 21 = 0)
    (hpos : 0 < e.toNat) {i : Fin 512}
    (hi : ∀ n, s.toNat / 2 ^ 21 ≤ n → n < e.toNat / 2 ^ 21 → n % 512 ≠ i.val) :
    map_2mib p2 s e flag attr i = p2 i := by
  have he64 := e.isLt
  rw [map_2mib_eq_foldl hs he hpos]
  refine Store.foldl_update_of_forall_ne _ _ _ _ _ fun m hm hslot => ?_
  obtain ⟨hmlo, hmhi⟩ := List.mem_range'_1.mp hm
  rw [p2_index_frame_2mib_start (by omega)] at hslot
  exact hi m hmlo (by omega) (congrArg Fin.val hslot)

end Map2Mib

/-! ## `create_init_paging` -/

/-- The addresses of `page_table_lvl4`, `page_table_lvl3`, `page_table_lvl2_0` and
`page_table_lvl2_1`: page aligned, as a table is, and apart, as four `&mut PageTable` are. -/
structure BootTables where
  lvl4 : PhysAddr
  lvl3 : PhysAddr
  lvl2_0 : PhysAddr
  lvl2_1 : PhysAddr
  aligned : ∀ a ∈ [lvl4, lvl3, lvl2_0, lvl2_1], a.toNat % 4096 = 0
  apart : [lvl4, lvl3, lvl2_0, lvl2_1].Nodup

/-- `Frame::<Size4KiB>::of_addr(addr)`, by its start address. -/
def frame_of (addr : PhysAddr) : PhysAddr := addr &&& ~~~(PAGE_SIZE - 1)

/-- `Attr::new(0, 0, 0)`, the attribute a table descriptor is written with. -/
def table_attr : MairAttr := .Other 0

/-- The level-4 table: slots 0 and 256 point at the level-3 table. -/
def init_p4 (sym : BootTables) (default_table : Finset EF) : Table :=
  let frame_lvl3 := frame_of sym.lvl3
  Function.update (Function.update Table.clear 0 (.frame frame_lvl3 default_table table_attr))
    256 (.frame frame_lvl3 default_table table_attr)

/-- The level-3 table: slot 0 points at the first level-2 table, slot 1 at the second. -/
def init_p3 (sym : BootTables) (default_table : Finset EF) : Table :=
  let frame_lvl2_0 := frame_of sym.lvl2_0
  let frame_lvl2_1 := frame_of sym.lvl2_1
  Function.update (Function.update Table.clear 0 (.frame frame_lvl2_0 default_table table_attr))
    1 (.frame frame_lvl2_1 default_table table_attr)

/-- The first level-2 table: the peripherals, device memory, `PXN` and `UXN`. -/
def init_p2_0 (default_block : Finset EF) : Table :=
  map_2mib Table.clear PERIPHERALS_START PERIPHERALS_END
    (insert EF.PXN (insert EF.UXN default_block)) .Device

/-- The second level-2 table: the RAM, normal memory, `UXN`. -/
def init_p2_1 (default_block : Finset EF) : Table :=
  map_2mib Table.clear MEMORY_START MEMORY_END (insert EF.UXN default_block) .Normal

/-- `create_init_paging()`: the four tables cleared, linked and filled. -/
def create_init_paging (sym : BootTables) (default_table default_block : Finset EF)
    (mem : Tables) : Tables :=
  Function.update (Function.update (Function.update (Function.update mem
    sym.lvl4 (init_p4 sym default_table)) sym.lvl3 (init_p3 sym default_table))
    sym.lvl2_0 (init_p2_0 default_block)) sym.lvl2_1 (init_p2_1 default_block)

/-- What the boot tables are for: the peripherals and the RAM, each at its own address in
the low 39 bits, from level-4 slots 0 and 256 of the addresses the MMU walks. -/
def boot_map (default_block : Finset EF) (va : Usize) : Option (PhysAddr × Finset EF × MairAttr) :=
  let pa := va.toNat % 2 ^ 39
  if canonical va ∧ (va.toNat / 2 ^ 39 % 512 = 0 ∨ va.toNat / 2 ^ 39 % 512 = 256) then
    if PERIPHERALS_START.toNat ≤ pa ∧ pa < PERIPHERALS_END.toNat then
      some (BitVec.ofNat 64 pa, insert EF.PXN (insert EF.UXN default_block), .Device)
    else if MEMORY_START.toNat ≤ pa ∧ pa < MEMORY_END.toNat then
      some (BitVec.ofNat 64 pa, insert EF.UXN default_block, .Normal)
    else none
  else none

/-! ### The tables `create_init_paging` leaves -/

namespace BootTables

variable (sym : BootTables)

theorem frame_of_eq {a : PhysAddr} (ha : a ∈ [sym.lvl4, sym.lvl3, sym.lvl2_0, sym.lvl2_1]) :
    frame_of a = a :=
  align_down_of_aligned (sym.aligned a ha)

/-- The four tables lie apart, pair by pair. -/
theorem apart_pairs :
    (sym.lvl4 ≠ sym.lvl3 ∧ sym.lvl4 ≠ sym.lvl2_0 ∧ sym.lvl4 ≠ sym.lvl2_1) ∧
      (sym.lvl3 ≠ sym.lvl2_0 ∧ sym.lvl3 ≠ sym.lvl2_1) ∧ sym.lvl2_0 ≠ sym.lvl2_1 := by
  have h := sym.apart
  simp only [List.nodup_cons, List.mem_cons, List.not_mem_nil, or_false, not_or] at h
  exact ⟨h.1, h.2.1, h.2.2.1⟩

end BootTables

section Init

variable (sym : BootTables) (default_table default_block : Finset EF) (mem : Tables)

theorem create_init_paging_lvl4 :
    create_init_paging sym default_table default_block mem sym.lvl4 = init_p4 sym default_table := by
  obtain ⟨⟨h43, h420, h421⟩, -, -⟩ := sym.apart_pairs
  simp only [create_init_paging, Function.update_of_ne h421, Function.update_of_ne h420,
    Function.update_of_ne h43, Function.update_self]

theorem create_init_paging_lvl3 :
    create_init_paging sym default_table default_block mem sym.lvl3 = init_p3 sym default_table := by
  obtain ⟨-, ⟨h320, h321⟩, -⟩ := sym.apart_pairs
  simp only [create_init_paging, Function.update_of_ne h321, Function.update_of_ne h320,
    Function.update_self]

theorem create_init_paging_lvl2_0 :
    create_init_paging sym default_table default_block mem sym.lvl2_0 = init_p2_0 default_block := by
  obtain ⟨-, -, h201⟩ := sym.apart_pairs
  simp only [create_init_paging, Function.update_of_ne h201, Function.update_self]

theorem create_init_paging_lvl2_1 :
    create_init_paging sym default_table default_block mem sym.lvl2_1 = init_p2_1 default_block := by
  simp only [create_init_paging, Function.update_self]

theorem init_p4_apply (i : Fin 512) :
    init_p4 sym default_table i =
      if i.val = 0 ∨ i.val = 256 then .frame sym.lvl3 default_table table_attr else .invalid := by
  rw [init_p4, sym.frame_of_eq (by simp)]
  by_cases h256 : i = 256
  · subst h256
    simp
  · by_cases h0 : i = 0
    · subst h0
      simp
    · have h256' : i.val ≠ 256 := fun h => h256 (Fin.ext h)
      have h0' : i.val ≠ 0 := fun h => h0 (Fin.ext h)
      simp [Function.update_of_ne h256, Function.update_of_ne h0, h256', h0', Table.clear]

theorem init_p3_apply (i : Fin 512) :
    init_p3 sym default_table i =
      if i.val = 0 then .frame sym.lvl2_0 default_table table_attr
      else if i.val = 1 then .frame sym.lvl2_1 default_table table_attr else .invalid := by
  rw [init_p3, sym.frame_of_eq (by simp), sym.frame_of_eq (by simp)]
  by_cases h1 : i = 1
  · subst h1
    simp
  · by_cases h0 : i = 0
    · subst h0
      simp
    · have h1' : i.val ≠ 1 := fun h => h1 (Fin.ext h)
      have h0' : i.val ≠ 0 := fun h => h0 (Fin.ext h)
      simp [Function.update_of_ne h1, Function.update_of_ne h0, h1', h0', Table.clear]

/-- The peripherals take slots 64 to 127 of the first level-2 table: 2 MiB frames 64 to 127. -/
theorem init_p2_0_apply (i : Fin 512) :
    init_p2_0 default_block i =
      if 64 ≤ i.val ∧ i.val < 128 then
        .block (frame_2mib_start i.val) (insert EF.PXN (insert EF.UXN default_block)) .Device
      else .invalid := by
  have hs : PERIPHERALS_START.toNat = 0x0800_0000 := rfl
  have he : PERIPHERALS_END.toNat = 0x1000_0000 := rfl
  have hs21 : PERIPHERALS_START.toNat % 2 ^ 21 = 0 := by rw [hs]; norm_num
  have he21 : PERIPHERALS_END.toNat % 2 ^ 21 = 0 := by rw [he]; norm_num
  have hpos : 0 < PERIPHERALS_END.toNat := by rw [he]; norm_num
  split_ifs with hi
  · have hblock : init_p2_0 default_block ⟨i.val % 512, Nat.mod_lt _ (by norm_num)⟩ =
        .block (frame_2mib_start i.val) (insert EF.PXN (insert EF.UXN default_block)) .Device :=
      map_2mib_block hs21 he21 hpos (by rw [he, hs]; norm_num) (n := i.val)
        (by rw [hs]; omega) (by rw [he]; omega)
    have hslot : (⟨i.val % 512, Nat.mod_lt _ (by norm_num)⟩ : Fin 512) = i :=
      Fin.ext (Nat.mod_eq_of_lt i.isLt)
    rw [hslot] at hblock
    exact hblock
  · exact map_2mib_of_not_mem hs21 he21 hpos
      fun n hlo hhi hn => hi (by rw [hs] at hlo; rw [he] at hhi; omega)

/-- The RAM fills the second level-2 table: slot `i` holds 2 MiB frame `512 + i`. -/
theorem init_p2_1_apply (i : Fin 512) :
    init_p2_1 default_block i =
      .block (frame_2mib_start (512 + i.val)) (insert EF.UXN default_block) .Normal := by
  have hs : MEMORY_START.toNat = 0x4000_0000 := rfl
  have he : MEMORY_END.toNat = 0x8000_0000 := rfl
  have hblock : init_p2_1 default_block ⟨(512 + i.val) % 512, Nat.mod_lt _ (by norm_num)⟩ =
      .block (frame_2mib_start (512 + i.val)) (insert EF.UXN default_block) .Normal :=
    map_2mib_block (by rw [hs]; norm_num) (by rw [he]; norm_num) (by rw [he]; norm_num)
      (by rw [he, hs]; norm_num) (n := 512 + i.val) (by rw [hs]; omega) (by rw [he]; omega)
  have hslot : (⟨(512 + i.val) % 512, Nat.mod_lt _ (by norm_num)⟩ : Fin 512) = i := by
    ext
    simp only
    omega
  rw [hslot] at hblock
  exact hblock

end Init

/-- The kernel's address of a physical address below `2 ^ 48`: `KERNEL_OFFSET` above it. -/
theorem as_upper_range_toNat {pa : PhysAddr} (h : pa.toNat < 2 ^ 48) :
    (as_upper_range pa).toNat = 2 ^ 48 * 0xffff + pa.toNat := by
  have hK : KERNEL_OFFSET.toNat = 2 ^ 48 * 0xffff := rfl
  rw [as_upper_range, BitVec.toNat_or, Nat.lor_comm, hK, ← Nat.two_pow_add_eq_or_of_lt h]

/-- A physical address below `2 ^ 48` is walked from `TTBR0_EL1`. -/
theorem canonical_of_lt {pa : PhysAddr} (h : pa.toNat < 2 ^ 48) : canonical pa :=
  Or.inl (by omega)

/-- The kernel's address of it is walked from `TTBR1_EL1`. -/
theorem canonical_as_upper_range {pa : PhysAddr} (h : pa.toNat < 2 ^ 48) :
    canonical (as_upper_range pa) := by
  have hup := as_upper_range_toNat h
  exact Or.inr (by omega)

/-- An address of the RAM at level-4 slot 0 or 256: what `boot_map` gives it. -/
theorem boot_map_of_ram (default_block : Finset EF) {va : Usize} (hc : canonical va)
    (h4 : va.toNat / 2 ^ 39 % 512 = 0 ∨ va.toNat / 2 ^ 39 % 512 = 256)
    (hram : MEMORY_START.toNat ≤ va.toNat % 2 ^ 39 ∧ va.toNat % 2 ^ 39 < MEMORY_END.toNat) :
    boot_map default_block va =
      some (BitVec.ofNat 64 (va.toNat % 2 ^ 39), insert EF.UXN default_block, .Normal) := by
  have hper : ¬(PERIPHERALS_START.toNat ≤ va.toNat % 2 ^ 39 ∧
      va.toNat % 2 ^ 39 < PERIPHERALS_END.toNat) := by
    have hP : PERIPHERALS_END.toNat = 0x1000_0000 := rfl
    have hM : MEMORY_START.toNat = 0x4000_0000 := rfl
    omega
  rw [boot_map, if_pos ⟨hc, h4⟩, if_neg hper, if_pos hram]

/-- A block's address plus the offset into it. -/
theorem frame_2mib_start_add (n off : Nat) :
    frame_2mib_start n + BitVec.ofNat 64 off = BitVec.ofNat 64 (n * 2 ^ 21 + off) := by
  rw [frame_2mib_start, BitVec.ofNat_add]

section Walk

variable (sym : BootTables) (default_table default_block : Finset EF) (mem : Tables)

/-- The walk through the boot tables, level by level: level-4 slots 0 and 256 lead to the
level-3 table; its slot 0 to the peripherals' blocks, slots 64 to 127, and its slot 1 to the
RAM's, every slot. -/
theorem walk_create_init_paging (va : Usize) :
    walk (create_init_paging sym default_table default_block mem) sym.lvl4 va =
      if va.toNat / 2 ^ 39 % 512 = 0 ∨ va.toNat / 2 ^ 39 % 512 = 256 then
        if va.toNat / 2 ^ 30 % 512 = 0 then
          if 64 ≤ va.toNat / 2 ^ 21 % 512 ∧ va.toNat / 2 ^ 21 % 512 < 128 then
            some (frame_2mib_start (va.toNat / 2 ^ 21 % 512) + BitVec.ofNat 64 (va.toNat % 2 ^ 21),
              insert EF.PXN (insert EF.UXN default_block), .Device)
          else none
        else if va.toNat / 2 ^ 30 % 512 = 1 then
          some (frame_2mib_start (512 + va.toNat / 2 ^ 21 % 512) +
            BitVec.ofNat 64 (va.toNat % 2 ^ 21), insert EF.UXN default_block, .Normal)
        else none
      else none := by
  have hd4 := init_p4_apply sym default_table (index va 39)
  rw [← create_init_paging_lvl4 sym default_table default_block mem] at hd4
  by_cases hl4 : va.toNat / 2 ^ 39 % 512 = 0 ∨ va.toNat / 2 ^ 39 % 512 = 256
  swap
  · rw [if_neg hl4, walk_of_invalid_4 (by rw [hd4]; exact if_neg hl4)]
  replace hd4 : create_init_paging sym default_table default_block mem sym.lvl4 (index va 39) =
      .frame sym.lvl3 default_table table_attr := by
    rw [hd4]; exact if_pos hl4
  have hd3 := init_p3_apply sym default_table (index va 30)
  rw [← create_init_paging_lvl3 sym default_table default_block mem] at hd3
  rw [if_pos hl4]
  by_cases h30 : va.toNat / 2 ^ 30 % 512 = 0
  · -- level-3 slot 0: the peripherals' table
    replace hd3 : create_init_paging sym default_table default_block mem sym.lvl3 (index va 30) =
        .frame sym.lvl2_0 default_table table_attr := by
      rw [hd3]; exact if_pos h30
    have hd2 := init_p2_0_apply default_block (index va 21)
    rw [← create_init_paging_lvl2_0 sym default_table default_block mem] at hd2
    rw [if_pos h30]
    by_cases h2 : 64 ≤ va.toNat / 2 ^ 21 % 512 ∧ va.toNat / 2 ^ 21 % 512 < 128
    · replace hd2 : create_init_paging sym default_table default_block mem sym.lvl2_0
          (index va 21) = .block (frame_2mib_start (va.toNat / 2 ^ 21 % 512))
            (insert EF.PXN (insert EF.UXN default_block)) .Device := by
        rw [hd2]; exact if_pos h2
      rw [walk_of_block_2 hd4 hd3 hd2, if_pos h2]
    · replace hd2 : create_init_paging sym default_table default_block mem sym.lvl2_0
          (index va 21) = .invalid := by
        rw [hd2]; exact if_neg h2
      rw [walk_of_invalid_2 hd4 hd3 hd2, if_neg h2]
  · rw [if_neg h30]
    by_cases h31 : va.toNat / 2 ^ 30 % 512 = 1
    · -- level-3 slot 1: the RAM's table
      replace hd3 : create_init_paging sym default_table default_block mem sym.lvl3
          (index va 30) = .frame sym.lvl2_1 default_table table_attr := by
        rw [hd3]; exact (if_neg h30).trans (if_pos h31)
      have hd2 : create_init_paging sym default_table default_block mem sym.lvl2_1 (index va 21) =
          .block (frame_2mib_start (512 + va.toNat / 2 ^ 21 % 512)) (insert EF.UXN default_block)
            .Normal := by
        rw [create_init_paging_lvl2_1]; exact init_p2_1_apply default_block (index va 21)
      rw [walk_of_block_2 hd4 hd3 hd2, if_pos h31]
    · replace hd3 : create_init_paging sym default_table default_block mem sym.lvl3
          (index va 30) = .invalid := by
        rw [hd3]; exact (if_neg h30).trans (if_neg h31)
      rw [walk_of_invalid_3 hd4 hd3, if_neg h31]

/-- The walk's levels read as ranges of the low 39 bits: level-3 slot 0 with level-2 slots
64 to 127 is the peripherals, level-3 slot 1 the RAM, and a block's address with the offset
into it is the low 39 bits themselves. -/
theorem boot_walk_eq_boot_map (va : Usize) :
    (if canonical va ∧ (va.toNat / 2 ^ 39 % 512 = 0 ∨ va.toNat / 2 ^ 39 % 512 = 256) then
        if va.toNat / 2 ^ 30 % 512 = 0 then
          if 64 ≤ va.toNat / 2 ^ 21 % 512 ∧ va.toNat / 2 ^ 21 % 512 < 128 then
            some (frame_2mib_start (va.toNat / 2 ^ 21 % 512) + BitVec.ofNat 64 (va.toNat % 2 ^ 21),
              insert EF.PXN (insert EF.UXN default_block), .Device)
          else none
        else if va.toNat / 2 ^ 30 % 512 = 1 then
          some (frame_2mib_start (512 + va.toNat / 2 ^ 21 % 512) +
            BitVec.ofNat 64 (va.toNat % 2 ^ 21), insert EF.UXN default_block, .Normal)
        else none
      else none) = boot_map default_block va := by
  have hsplit : va.toNat % 2 ^ 39 =
      va.toNat / 2 ^ 30 % 512 * 2 ^ 30 + va.toNat / 2 ^ 21 % 512 * 2 ^ 21 + va.toNat % 2 ^ 21 := by
    omega
  have hP : PERIPHERALS_START.toNat = 0x0800_0000 ∧ PERIPHERALS_END.toNat = 0x1000_0000 :=
    ⟨rfl, rfl⟩
  have hM : MEMORY_START.toNat = 0x4000_0000 ∧ MEMORY_END.toNat = 0x8000_0000 := ⟨rfl, rfl⟩
  have hper_iff : (PERIPHERALS_START.toNat ≤ va.toNat % 2 ^ 39 ∧
      va.toNat % 2 ^ 39 < PERIPHERALS_END.toNat) ↔
      va.toNat / 2 ^ 30 % 512 = 0 ∧ 64 ≤ va.toNat / 2 ^ 21 % 512 ∧
        va.toNat / 2 ^ 21 % 512 < 128 := by
    rw [hP.1, hP.2]
    omega
  have hram_iff : (MEMORY_START.toNat ≤ va.toNat % 2 ^ 39 ∧ va.toNat % 2 ^ 39 < MEMORY_END.toNat) ↔
      va.toNat / 2 ^ 30 % 512 = 1 := by
    rw [hM.1, hM.2]
    omega
  unfold boot_map
  by_cases hl4 : canonical va ∧ (va.toNat / 2 ^ 39 % 512 = 0 ∨ va.toNat / 2 ^ 39 % 512 = 256)
  swap
  · rw [if_neg hl4, if_neg hl4]
  rw [if_pos hl4, if_pos hl4]
  by_cases h30 : va.toNat / 2 ^ 30 % 512 = 0
  · have hram : ¬(MEMORY_START.toNat ≤ va.toNat % 2 ^ 39 ∧ va.toNat % 2 ^ 39 < MEMORY_END.toNat) := by
      rw [hram_iff]; omega
    rw [if_pos h30]
    by_cases h2 : 64 ≤ va.toNat / 2 ^ 21 % 512 ∧ va.toNat / 2 ^ 21 % 512 < 128
    · have haddr : va.toNat / 2 ^ 21 % 512 * 2 ^ 21 + va.toNat % 2 ^ 21 = va.toNat % 2 ^ 39 := by
        omega
      rw [if_pos h2, if_pos (hper_iff.mpr ⟨h30, h2⟩), frame_2mib_start_add, haddr]
    · rw [if_neg h2, if_neg fun h => h2 (hper_iff.mp h).2, if_neg hram]
  · rw [if_neg h30, if_neg fun h => h30 (hper_iff.mp h).1]
    by_cases h31 : va.toNat / 2 ^ 30 % 512 = 1
    · have haddr : (512 + va.toNat / 2 ^ 21 % 512) * 2 ^ 21 + va.toNat % 2 ^ 21 =
          va.toNat % 2 ^ 39 := by
        omega
      rw [if_pos h31, if_pos (hram_iff.mpr h31), frame_2mib_start_add, haddr]
    · rw [if_neg h31, if_neg fun h => h31 (hram_iff.mp h)]

end Walk

/-- **The boot tables map the peripherals and the RAM at their own addresses.** Whatever
the memory held and wherever the four tables lie, after `create_init_paging`, with the
level-4 table in both `TTBR`s, the MMU translates an address exactly as `boot_map` says: when
its bits 55 to 48 are all 0 or all 1 and it is at level-4 slot 0 or 256, its low 39 bits when
they fall in the peripherals (device memory, `PXN` and `UXN`) or in the RAM (normal memory,
`UXN`), and a fault everywhere else. In particular the kernel's
addresses `as_upper_range(pa)` and the identity addresses of the RAM reach `pa`. -/
theorem boot_map_translation (sym : BootTables) (default_table default_block : Finset EF)
    (mem : Tables) :
    (∀ va, translate (create_init_paging sym default_table default_block mem) sym.lvl4 sym.lvl4 va =
      boot_map default_block va) ∧
    ∀ pa : PhysAddr, MEMORY_START.toNat ≤ pa.toNat → pa.toNat < MEMORY_END.toNat →
      translate (create_init_paging sym default_table default_block mem) sym.lvl4 sym.lvl4
          (as_upper_range pa) = some (pa, insert EF.UXN default_block, .Normal) ∧
        translate (create_init_paging sym default_table default_block mem) sym.lvl4 sym.lvl4 pa =
          some (pa, insert EF.UXN default_block, .Normal) := by
  have hwalk : ∀ va, translate (create_init_paging sym default_table default_block mem)
      sym.lvl4 sym.lvl4 va = boot_map default_block va := fun va => by
    rw [translate_same_root, walk_create_init_paging, ← boot_walk_eq_boot_map]
    by_cases hc : canonical va
    · by_cases hl4 : va.toNat / 2 ^ 39 % 512 = 0 ∨ va.toNat / 2 ^ 39 % 512 = 256
      · rw [if_pos hc, if_pos hl4, if_pos (And.intro hc hl4)]
      · rw [if_pos hc, if_neg hl4, if_neg fun h => hl4 h.2]
    · rw [if_neg hc, if_neg fun h => hc h.1]
  refine ⟨hwalk, fun pa hlo hhi => ?_⟩
  have hM : MEMORY_START.toNat = 0x4000_0000 ∧ MEMORY_END.toNat = 0x8000_0000 := ⟨rfl, rfl⟩
  have hpa : pa.toNat < 2 ^ 48 := by omega
  have hself : BitVec.ofNat 64 (pa.toNat % 2 ^ 39) = pa := by
    rw [Nat.mod_eq_of_lt (by omega), BitVec.ofNat_toNat, BitVec.setWidth_eq]
  constructor
  · -- `KERNEL_OFFSET` sits at bits 48 to 63: level-4 slot 0, the same low 39 bits
    have hup := as_upper_range_toNat hpa
    have hlow : (as_upper_range pa).toNat % 2 ^ 39 = pa.toNat % 2 ^ 39 := by omega
    rw [hwalk, boot_map_of_ram default_block (canonical_as_upper_range hpa) (by omega)
      (by rw [hlow]; omega), hlow, hself]
  · rw [hwalk, boot_map_of_ram default_block (canonical_of_lt hpa) (by omega) (by omega), hself]

end Queen.Arch
