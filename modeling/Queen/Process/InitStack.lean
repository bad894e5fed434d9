/-
What the program finds on its stack: the initial stack `ProcInitInfo::push_at`,
`kernel/src/process/abi.rs`, read back in the process-entry layout.

The kernel writes through the page table, and the program reads through it too (`vread`).
For those reads to see the writes as memory, the addresses of the stack must reach distinct
bytes (`InjOn`); a write is then, as the program sees it, the bytes it wrote over what was
there (`vread_write_bytes`), and it changes no byte but those behind its addresses
(`write_bytes_frame`).

`StackWriter` only ever writes below its stack pointer, and moves the pointer below what it
wrote: each push is a `Steps` from the old pointer to the new one, which keeps what the
program reads from the old pointer up. The strings go first, each with its zero, the words
after them; from the first word on `sp` is aligned, so the words lie one after another in the
order the program reads them (`push_at_writes`), and `decode_entry`, the reading of the
layout, gives back the arguments, the environment and the auxiliary vector
(`push_at_decodes`).
-/
import Queen.Process.UserVm
import Queen.Lib.Bytes

set_option autoImplicit false

namespace Queen.Memory.PageTable

open Queen.Bytes

/-! ## The program's view of memory -/

/-- The byte the program reads at `addr`, through the table; `none` where the read faults. -/
def vread (pt : PageTable) (mem : PhysMem) (addr : Nat) : Option (BitVec 8) :=
  (pt.translate false (BitVec.ofNat 64 addr)).map mem

/-- The addresses of `[lo, hi)` reach distinct bytes. -/
def InjOn (pt : PageTable) (lo hi : Nat) : Prop :=
  ∀ a b : VirtAddr, lo ≤ a.toNat → a.toNat < hi → lo ≤ b.toNat → b.toNat < hi →
    ∀ pa, pt.translate false a = some pa → pt.translate false b = some pa → a = b

variable {pt : PageTable} {lo hi : Nat}

/-- A write goes where a read of the same address goes. -/
theorem translate_false_of_true {addr : VirtAddr} {pa : PhysAddr} (h : pt.translate true addr = some pa) :
    pt.translate false addr = some pa := by
  unfold translate at h ⊢
  rcases he : pt.get_entry addr with _ | e
  · rw [he] at h
    cases h
  · simp only [he, Bool.not_true, Bool.false_or, Bool.not_false, Bool.true_or, Bool.and_true] at h ⊢
    split at h
    · rename_i hpw
      rw [if_pos (Bool.and_eq_true_iff.mp hpw).1, h]
    · cases h

section View

variable (hw : pt.Writable lo hi) (hinj : pt.InjOn lo hi)
include hw hinj

/-- Writing one byte behind `addr`, as the program sees `[lo, hi)`: the byte at `addr`, the
rest as before. -/
theorem vread_write_one {addr : VirtAddr} {pa : PhysAddr} (hpa : pt.translate true addr = some pa)
    (hlo : lo ≤ addr.toNat) (hlt : addr.toNat < hi) (hhi : hi ≤ 2 ^ 64) (b : BitVec 8) (mem : PhysMem)
    {n : Nat} (hn₁ : lo ≤ n) (hn₂ : n < hi) :
    pt.vread (fun a => if a = pa then b else mem a) n =
      if n = addr.toNat then some b else pt.vread mem n := by
  have hn : (BitVec.ofNat 64 n).toNat = n := by
    rw [BitVec.toNat_ofNat]
    exact Nat.mod_eq_of_lt (by omega)
  obtain ⟨pa', hpa'⟩ :=
    Option.isSome_iff_exists.mp (hw (BitVec.ofNat 64 n) (by rw [hn]; omega) (by rw [hn]; omega))
  have hread := translate_false_of_true hpa'
  simp only [vread, hread, Option.map_some]
  by_cases hna : n = addr.toNat
  · -- the address written: the same translation
    have haddr : BitVec.ofNat 64 n = addr := BitVec.eq_of_toNat_eq (by rw [hn, hna])
    rw [haddr, hpa, Option.some.injEq] at hpa'
    rw [if_pos hna, if_pos hpa'.symm]
  · -- another address of the range reaches another byte
    have hne : pa' ≠ pa := by
      rintro rfl
      exact hna (by rw [← hn, hinj _ _ (by omega) (by omega) hlo hlt pa' hread
        (translate_false_of_true hpa)])
    rw [if_neg hna, if_neg hne]

/-- **A write, as the program sees `[lo, hi)`**: the written bytes over what was there. The
range ends below the last address, so the addresses of the write do not wrap. -/
theorem vread_write_bytes (hhi : hi < 2 ^ 64) :
    ∀ (data : List (BitVec 8)) (mem mem' : PhysMem) (addr : VirtAddr),
      pt.write_bytes mem addr data = some mem' → lo ≤ addr.toNat → addr.toNat + data.length ≤ hi →
      ∀ n, lo ≤ n → n < hi →
        pt.vread mem' n =
          if addr.toNat ≤ n ∧ n < addr.toNat + data.length then data[n - addr.toNat]? else pt.vread mem n
  | [], mem, mem', addr, h, _, _, n, _, _ => by
    simp only [write_bytes, Option.some.injEq] at h
    subst h
    simp
  | b :: rest, mem, mem', addr, h, hlo, hend, n, hn₁, hn₂ => by
    simp only [write_bytes, Option.bind_eq_bind, Option.bind_eq_some_iff] at h
    obtain ⟨pa, hpa, h⟩ := h
    simp only [List.length_cons] at hend
    have hnext : (addr + 1).toNat = addr.toNat + 1 :=
      Usize.toNat_add_of_lt (a := addr) (b := 1) (by rw [Usize.toNat_one]; omega)
    -- the rest of the bytes over the first one
    rw [vread_write_bytes hhi rest _ mem' (addr + 1) h (by omega) (by omega) n hn₁ hn₂, hnext,
      vread_write_one hw hinj hpa hlo (by omega) hhi.le b mem hn₁ hn₂]
    by_cases hna : n = addr.toNat
    · subst hna
      simp
    · by_cases hin : addr.toNat + 1 ≤ n ∧ n < addr.toNat + 1 + rest.length
      · rw [if_pos hin, if_pos (by simp only [List.length_cons]; omega),
          show n - addr.toNat = (n - (addr.toNat + 1)) + 1 by omega, List.getElem?_cons_succ]
      · rw [if_neg hin, if_neg hna, if_neg (by simp only [List.length_cons]; omega)]

end View

/-- **A write changes no byte but those behind its addresses.** -/
theorem write_bytes_frame :
    ∀ (data : List (BitVec 8)) (mem mem' : PhysMem) (addr : VirtAddr),
      pt.write_bytes mem addr data = some mem' → ∀ pa, mem' pa ≠ mem pa →
        ∃ i < data.length, pt.translate true (addr + BitVec.ofNat 64 i) = some pa
  | [], mem, mem', addr, h, pa, hpa => by
    simp only [write_bytes, Option.some.injEq] at h
    subst h
    exact absurd rfl hpa
  | b :: rest, mem, mem', addr, h, pa, hchanged => by
    simp only [write_bytes, Option.bind_eq_bind, Option.bind_eq_some_iff] at h
    obtain ⟨pa₀, hpa₀, h⟩ := h
    by_cases hlater : mem' pa = if pa = pa₀ then b else mem pa
    · -- the first byte changed it: `pa` is behind `addr`
      have hpa : pa = pa₀ := by
        by_contra hne
        rw [hlater, if_neg hne] at hchanged
        exact hchanged rfl
      refine ⟨0, by simp, ?_⟩
      rw [hpa, show addr + BitVec.ofNat 64 0 = addr by simp]
      exact hpa₀
    · obtain ⟨i, hi, htr⟩ := write_bytes_frame rest _ mem' (addr + 1) h pa hlater
      refine ⟨i + 1, by simp only [List.length_cons]; omega, ?_⟩
      rw [← htr, BitVec.add_assoc, BitVec.ofNat_add, BitVec.add_comm (BitVec.ofNat 64 i)]
      rfl

/-! ## One mapped page -/

section Page

variable {n : Usize} {e : Entry}

theorem page_offset_toNat (addr : VirtAddr) : (addr &&& (PAGE_SIZE - 1)).toNat = addr.toNat % 4096 := by
  have hmask : (PAGE_SIZE - 1).toNat = 2 ^ 12 - 1 := by decide
  rw [BitVec.toNat_and, hmask, Nat.and_two_pow_sub_one_eq_mod]

/-- An address of page `n` goes through that page's entry. -/
theorem translate_of_lookup {addr : VirtAddr} (he : pt.lookup n = some e)
    (hpage : addr.toNat / 4096 = n.toNat) (write : Bool) :
    pt.translate write addr =
      if e.present && (!write || e.writable) then some (e.target + (addr &&& (PAGE_SIZE - 1))) else none := by
  have hnum : (Page.of_addr addr).number = n :=
    BitVec.eq_of_toNat_eq (by rw [of_addr_number_toNat, hpage])
  rw [translate, get_entry_eq, hnum, he]

/-- A present, writable page can be written all over. -/
theorem writable_of_lookup (he : pt.lookup n = some e) (hp : e.present = true) (hwr : e.writable = true)
    (hlo : n.toNat * 4096 ≤ lo) (hhi : hi ≤ n.toNat * 4096 + 4096) : pt.Writable lo hi := by
  intro addr h₁ h₂
  rw [translate_of_lookup he (by omega) true, hp, hwr]
  rfl

/-- The addresses of a page whose frame does not wrap reach distinct bytes: the offset in the
page is the offset in the frame. -/
theorem injOn_of_lookup (he : pt.lookup n = some e) (hframe : e.target.toNat + 4096 ≤ 2 ^ 64)
    (hlo : n.toNat * 4096 ≤ lo) (hhi : hi ≤ n.toNat * 4096 + 4096) : pt.InjOn lo hi := by
  intro a b ha₁ ha₂ hb₁ hb₂ pa hpa hpb
  rw [translate_of_lookup he (by omega) false] at hpa hpb
  by_cases hc : (e.present && (!false || e.writable)) = true
  · rw [if_pos hc, Option.some.injEq] at hpa hpb
    have hoff : ∀ v : VirtAddr, (e.target + (v &&& (PAGE_SIZE - 1))).toNat = e.target.toNat + v.toNat % 4096 := by
      intro v
      have := Nat.mod_lt v.toNat (by norm_num : 0 < 4096)
      rw [BitVec.toNat_add, page_offset_toNat, Nat.mod_eq_of_lt (by omega)]
    have hsame := congrArg BitVec.toNat (hpa.trans hpb.symm)
    rw [hoff, hoff] at hsame
    -- the same page and the same offset in it
    exact BitVec.eq_of_toNat_eq (by omega)
  · rw [if_neg hc] at hpa
    cases hpa

end Page

end Queen.Memory.PageTable

namespace Queen.Process

open Queen.Memory Queen.Bytes

/-! ## The process-entry layout -/

/-- A pointer of the layout: into `[sp, top)`, to a zero-terminated string that ends below
`top`. -/
def read_str (rd : Nat → Option (BitVec 8)) (sp top p : Nat) : Option (List (BitVec 8)) :=
  if sp ≤ p ∧ p < top then read_cstr rd (top - p) p else none

/-- Words taken two at a time. -/
def pairs : List Nat → List (Nat × Nat)
  | a :: b :: rest => (a, b) :: pairs rest
  | _ => []

/-- Reading the process-entry layout (System V, AArch64) at `sp`, below `top`: `argc`, as many
argument pointers and a null word, `nenv` environment pointers and a null word, `naux` pairs of
the auxiliary vector and a `(0, 0)` pair; every word aligned and every pointer into
`[sp, top)`. -/
def decode_entry (rd : Nat → Option (BitVec 8)) (top sp nenv naux : Nat) :
    Option (List (List (BitVec 8)) × List (List (BitVec 8)) × List (Nat × Nat)) :=
  if sp % 8 ≠ 0 then none
  else do
    let argc ← read_le rd 8 sp
    let argv ← read_les rd 8 (sp + 8) argc
    let null₁ ← read_le rd 8 (sp + 8 * (argc + 1))
    let envp ← read_les rd 8 (sp + 8 * (argc + 2)) nenv
    let null₂ ← read_le rd 8 (sp + 8 * (argc + nenv + 2))
    let auxv ← read_les rd 8 (sp + 8 * (argc + nenv + 3)) (2 * naux)
    let null₃ ← read_les rd 8 (sp + 8 * (argc + nenv + 2 * naux + 3)) 2
    if null₁ ≠ 0 ∨ null₂ ≠ 0 ∨ null₃ ≠ [0, 0] then none
    else do
      let args ← argv.mapM (read_str rd sp top)
      let envs ← envp.mapM (read_str rd sp top)
      some (args, envs, pairs auxv)

/-- The auxiliary vector as words: each key widened to a word, then its value. -/
def auxv_words (auxv : List (BitVec 8 × Usize)) : List Usize :=
  auxv.flatMap fun e => [e.1.setWidth 64, e.2]

@[simp] theorem length_auxv_words (auxv : List (BitVec 8 × Usize)) :
    (auxv_words auxv).length = 2 * auxv.length := by
  simp [auxv_words, Nat.mul_comm]

/-- The words of the layout from `sp` up. -/
def entry_words (argv envp : List Usize) (auxv : List (BitVec 8 × Usize)) : List Usize :=
  BitVec.ofNat 64 argv.length :: (argv ++ 0 :: (envp ++ 0 :: (auxv_words auxv ++ [0, 0])))

theorem usize_bytes_eq_le_bytes (v : Usize) : usize_bytes v = le_bytes 8 v.toNat := by
  have hbyte : ∀ k, v.extractLsb' (8 * k) 8 = BitVec.ofNat 8 (v.toNat / 256 ^ k) := fun k => by
    apply BitVec.eq_of_toNat_eq
    rw [BitVec.extractLsb'_toNat, BitVec.toNat_ofNat, Nat.shiftRight_eq_div_pow, Nat.pow_mul]
  simp only [usize_bytes, hbyte, le_bytes_eq_map_range]

section Words

variable {rd : Nat → Option (BitVec 8)}

/-- A word laid out by `usize_bytes` reads back. -/
theorem read_le_of_usize_bytes {a : Nat} {v : Usize} (h : BytesAt rd a (usize_bytes v)) :
    read_le rd 8 a = some v.toNat := by
  rw [usize_bytes_eq_le_bytes] at h
  have hlt : v.toNat < 256 ^ 8 := v.isLt
  rw [read_le_of_bytesAt h, Nat.mod_eq_of_lt hlt]

/-- Words laid out by `usize_bytes` read back. -/
theorem read_les_of_usizes {a : Nat} {vs : List Usize} (h : BytesAt rd a (vs.flatMap usize_bytes)) :
    read_les rd 8 a vs.length = some (vs.map BitVec.toNat) := by
  have hflat : vs.flatMap usize_bytes = (vs.map BitVec.toNat).flatMap (le_bytes 8) := by
    rw [List.flatMap_map]
    exact congrArg (List.flatMap · vs) (funext usize_bytes_eq_le_bytes)
  rw [hflat] at h
  rw [← List.length_map BitVec.toNat, read_les_of_bytesAt h, List.map_map]
  congr 1
  exact List.map_congr_left fun v _ => Nat.mod_eq_of_lt v.isLt

theorem bytesAt_words_cons {a : Nat} {v : Usize} {vs : List Usize} :
    BytesAt rd a ((v :: vs).flatMap usize_bytes) ↔
      BytesAt rd a (usize_bytes v) ∧ BytesAt rd (a + 8) (vs.flatMap usize_bytes) := by
  rw [List.flatMap_cons, bytesAt_append, ← List.flatMap_singleton usize_bytes v,
    length_flatMap_usize_bytes, List.flatMap_singleton, List.length_singleton]

theorem bytesAt_words_append {a : Nat} {l₁ l₂ : List Usize} :
    BytesAt rd a ((l₁ ++ l₂).flatMap usize_bytes) ↔
      BytesAt rd a (l₁.flatMap usize_bytes) ∧ BytesAt rd (a + 8 * l₁.length) (l₂.flatMap usize_bytes) := by
  rw [List.flatMap_append, bytesAt_append, length_flatMap_usize_bytes]

theorem pairs_auxv_words (auxv : List (BitVec 8 × Usize)) :
    pairs ((auxv_words auxv).map BitVec.toNat) = auxv.map fun e => (e.1.toNat, e.2.toNat) := by
  induction auxv with
  | nil => rfl
  | cons e auxv ih =>
    have hkey : (e.1.setWidth 64).toNat = e.1.toNat := by
      rw [BitVec.toNat_setWidth]
      exact Nat.mod_eq_of_lt (by have := e.1.isLt; omega)
    simp only [auxv_words, List.flatMap_cons, List.cons_append, List.nil_append, List.map_cons] at ih ⊢
    rw [pairs, ih, hkey]

/-- **The layout decodes.** Words laid out as `entry_words` at an aligned `sp`, with every
pointer leading to its string, read back as the strings and the auxiliary pairs. -/
theorem decode_entry_of_bytesAt {top sp : Nat} {argv envp : List Usize}
    {auxv : List (BitVec 8 × Usize)} {args envs : List (List (BitVec 8))} (halign : sp % 8 = 0)
    (hlen : argv.length < 2 ^ 64) (hwords : BytesAt rd sp ((entry_words argv envp auxv).flatMap usize_bytes))
    (hargs : List.Forall₂ (fun p s => read_str rd sp top p.toNat = some s) argv args)
    (henvs : List.Forall₂ (fun p s => read_str rd sp top p.toNat = some s) envp envs) :
    decode_entry rd top sp envs.length auxv.length =
      some (args, envs, auxv.map fun e => (e.1.toNat, e.2.toNat)) := by
  have hn : (BitVec.ofNat 64 argv.length).toNat = argv.length := by
    rw [BitVec.toNat_ofNat, Nat.mod_eq_of_lt hlen]
  have hm : envp.length = envs.length := henvs.length_eq
  have haux := length_auxv_words auxv
  -- the block split where the reader looks: `argc`, `argv`, null, `envp`, null, pairs, nulls
  rw [entry_words, bytesAt_words_cons] at hwords
  obtain ⟨hargc, hwords⟩ := hwords
  rw [bytesAt_words_append] at hwords
  obtain ⟨hargv, hwords⟩ := hwords
  rw [bytesAt_words_cons] at hwords
  obtain ⟨hnull₁, hwords⟩ := hwords
  rw [bytesAt_words_append] at hwords
  obtain ⟨henvp, hwords⟩ := hwords
  rw [bytesAt_words_cons] at hwords
  obtain ⟨hnull₂, hwords⟩ := hwords
  rw [bytesAt_words_append] at hwords
  obtain ⟨hauxv, hnull₃⟩ := hwords
  have r₁ := read_le_of_usize_bytes hargc
  have r₂ := read_les_of_usizes hargv
  have r₃ := read_le_of_usize_bytes hnull₁
  have r₄ := read_les_of_usizes henvp
  have r₅ := read_le_of_usize_bytes hnull₂
  have r₆ := read_les_of_usizes hauxv
  have r₇ : read_les rd 8 _ 2 = some [0, 0] := read_les_of_usizes hnull₃
  rw [hn] at r₁
  rw [show sp + 8 + 8 * argv.length = sp + 8 * (argv.length + 1) by ring] at r₃
  rw [show sp + 8 + 8 * argv.length + 8 = sp + 8 * (argv.length + 2) by ring, hm] at r₄
  rw [show sp + 8 + 8 * argv.length + 8 + 8 * envp.length = sp + 8 * (argv.length + envs.length + 2) by
    rw [hm]; ring] at r₅
  rw [show sp + 8 + 8 * argv.length + 8 + 8 * envp.length + 8 = sp + 8 * (argv.length + envs.length + 3) by
    rw [hm]; ring, haux] at r₆
  rw [show sp + 8 + 8 * argv.length + 8 + 8 * envp.length + 8 + 8 * (auxv_words auxv).length =
    sp + 8 * (argv.length + envs.length + 2 * auxv.length + 3) by rw [hm, haux]; ring] at r₇
  have hargs' := Fold.mapM_eq_some_of_forall₂ (List.forall₂_map_left_iff.mpr hargs)
  have henvs' := Fold.mapM_eq_some_of_forall₂ (List.forall₂_map_left_iff.mpr henvs)
  simp only [decode_entry, halign, ne_eq, not_true_eq_false, if_false, Option.bind_eq_bind, r₁,
    Option.bind_some, r₂, r₃, r₄, r₅, r₆, r₇, hargs', henvs', pairs_auxv_words]
  simp

end Words

/-! ## The writer -/

namespace StackWriter

open Queen.Memory.PageTable

/-- From `mem` to `mem'` the writer went down from `s` to `s'`: the program reads in `[s, top)`
what it read before, and no physical byte changed but one behind `[s', top)`. -/
structure Steps (pt : PageTable) (top s s' : Nat) (mem mem' : PhysMem) : Prop where
  le : s' ≤ s
  keeps : ∀ n, s ≤ n → n < top → pt.vread mem' n = pt.vread mem n
  frame : ∀ pa, mem' pa ≠ mem pa →
    ∃ v : VirtAddr, s' ≤ v.toNat ∧ v.toNat < top ∧ pt.translate true v = some pa

/-- `p` leads to `s` and its zero, in `[lo, hi)`, as the program reads `mem`. -/
def StrAt (pt : PageTable) (mem : PhysMem) (lo hi : Nat) (p : Usize) (s : List (BitVec 8)) : Prop :=
  lo ≤ p.toNat ∧ p.toNat + s.length < hi ∧ BytesAt (pt.vread mem) p.toNat (s ++ [0])

theorem StrAt.mono {pt : PageTable} {mem : PhysMem} {lo hi lo' hi' : Nat} {p : Usize}
    {s : List (BitVec 8)} (h : StrAt pt mem lo hi p s) (hlo : lo' ≤ lo) (hhi : hi ≤ hi') :
    StrAt pt mem lo' hi' p s :=
  ⟨hlo.trans h.1, by have := h.2.1; omega, h.2.2⟩

/-- A string the layout points to reads back through `read_str`. -/
theorem read_strs {pt : PageTable} {mem : PhysMem} {sp top : Nat} {ps : List Usize}
    {ss : List (List (BitVec 8))} (hps : List.Forall₂ (StrAt pt mem sp top) ps ss)
    (hnul : ∀ s ∈ ss, (0 : BitVec 8) ∉ s) :
    List.Forall₂ (fun p s => read_str (pt.vread mem) sp top p.toNat = some s) ps ss := by
  induction hps with
  | nil => exact .nil
  | @cons p s ps ss hp _ ih =>
    obtain ⟨hlo, hend, hb⟩ := hp
    refine .cons ?_ (ih fun s' hs' => hnul s' (List.mem_cons_of_mem _ hs'))
    rw [read_str, if_pos ⟨hlo, by omega⟩]
    exact read_cstr_of_bytesAt hb (hnul s List.mem_cons_self) (by omega)

namespace Steps

variable {pt : PageTable} {top s₁ s₂ s₃ : Nat} {m₁ m₂ m₃ : PhysMem}

theorem refl (s : Nat) (mem : PhysMem) : Steps pt top s s mem mem where
  le := le_rfl
  keeps _ _ _ := rfl
  frame _ h := absurd rfl h

theorem trans (h₁ : Steps pt top s₁ s₂ m₁ m₂) (h₂ : Steps pt top s₂ s₃ m₂ m₃) :
    Steps pt top s₁ s₃ m₁ m₃ where
  le := h₂.le.trans h₁.le
  keeps n hn hlt := (h₂.keeps n (h₁.le.trans hn) hlt).trans (h₁.keeps n hn hlt)
  frame pa hpa := by
    by_cases h : m₃ pa = m₂ pa
    · -- the byte changed in the first part
      obtain ⟨v, hv₁, hv₂, hv⟩ := h₁.frame pa (by rwa [h] at hpa)
      exact ⟨v, h₂.le.trans hv₁, hv₂, hv⟩
    · exact h₂.frame pa h

/-- A run the program reads at or above the old pointer is carried over. -/
theorem bytesAt (h : Steps pt top s₁ s₂ m₁ m₂) {a : Nat} {bs : List (BitVec 8)}
    (hb : BytesAt (pt.vread m₁) a bs) (ha : s₁ ≤ a) (hend : a + bs.length ≤ top) :
    BytesAt (pt.vread m₂) a bs :=
  hb.congr fun i hi => h.keeps _ (by omega) (by omega)

/-- A string at or above the old pointer is carried over, and lies above the new one. -/
theorem strAt (h : Steps pt top s₁ s₂ m₁ m₂) {hi : Nat} {p : Usize} {s : List (BitVec 8)}
    (hs : StrAt pt m₁ s₁ hi p s) (hhi : hi ≤ top) : StrAt pt m₂ s₂ hi p s :=
  ⟨h.le.trans hs.1, hs.2.1,
    h.bytesAt hs.2.2 hs.1 (by have := hs.2.1; simp only [List.length_append, List.length_singleton]; omega)⟩

end Steps

section Push

variable {pt : PageTable} {lo top : Nat} (hw : pt.Writable lo top) (hinj : pt.InjOn lo top)
  (htop : top < 2 ^ 64)
include hw hinj htop

variable {w w' : StackWriter} {mem mem' : PhysMem}

/-- **One push.** `push_slice` writes the slice at the pointer it moves to, and is a step down
from the old pointer. -/
theorem push_slice_spec {len size align : Usize} {data : List (BitVec 8)}
    (h : w.push_slice pt mem len size align data = some (w', mem'))
    (hdata : data.length = (len * size).toNat) (halign : 0 < align.toNat)
    (hlo : lo + (len * size).toNat + (align.toNat - 1) ≤ w.sp.toNat) (hsp : w.sp.toNat ≤ top) :
    w'.sp.toNat = w.sp.toNat - (len * size).toNat - (w.sp.toNat - (len * size).toNat) % align.toNat ∧
      Steps pt top w.sp.toNat w'.sp.toNat mem mem' ∧ BytesAt (pt.vread mem') w'.sp.toNat data := by
  obtain ⟨mem₁, hwrite, hpair⟩ := Option.map_eq_some_iff.mp h
  obtain ⟨rfl, rfl⟩ := Prod.mk.inj hpair
  have hsp' := push_slice_sp_toNat w.sp (len * size) align (by omega)
  have hlt : (w.sp.toNat - (len * size).toNat) % align.toNat < align.toNat := Nat.mod_lt _ halign
  have hle : (w.sp.toNat - (len * size).toNat) % align.toNat ≤ w.sp.toNat - (len * size).toNat :=
    Nat.mod_le _ _
  dsimp only
  have hview := vread_write_bytes hw hinj htop data mem mem₁ _ hwrite (by omega) (by omega)
  rw [hsp'] at hview ⊢
  refine ⟨rfl, ⟨by omega, fun n hn hn' => ?_, fun pa hpa => ?_⟩, fun i hi => ?_⟩
  · -- above the old pointer nothing was written
    rw [hview n (by omega) hn', if_neg (by omega)]
  · obtain ⟨i, hi, htr⟩ := write_bytes_frame data mem mem₁ _ hwrite pa hpa
    have hv : (w.sp - len * size - (w.sp - len * size) % align + BitVec.ofNat 64 i).toNat =
        w.sp.toNat - (len * size).toNat - (w.sp.toNat - (len * size).toNat) % align.toNat + i := by
      rw [BitVec.toNat_add, hsp', BitVec.toNat_ofNat, Nat.mod_eq_of_lt (by omega : i < 2 ^ 64)]
      exact Nat.mod_eq_of_lt (by omega)
    exact ⟨_, by omega, by omega, htr⟩
  · rw [hview _ (by omega) (by omega), if_pos (by omega), Nat.add_sub_cancel_left,
      List.getElem?_eq_getElem hi]

theorem push_bytes_spec {bytes : List (BitVec 8)} (h : w.push_bytes pt mem bytes = some (w', mem'))
    (hlo : lo + bytes.length ≤ w.sp.toNat) (hsp : w.sp.toNat ≤ top) :
    w'.sp.toNat + bytes.length = w.sp.toNat ∧ Steps pt top w.sp.toNat w'.sp.toNat mem mem' ∧
      BytesAt (pt.vread mem') w'.sp.toNat bytes := by
  -- the length is below `sp`, so `len * 1` does not wrap
  have hlen := bytes_size_toNat bytes.length (by have := w.sp.isLt; omega)
  obtain ⟨hsp', hst, hb⟩ := push_slice_spec hw hinj htop h hlen.symm (by rw [Usize.toNat_one]; omega)
    (by rw [hlen, Usize.toNat_one]; omega) hsp
  rw [hlen, Usize.toNat_one, Nat.mod_one, Nat.sub_zero] at hsp'
  exact ⟨by omega, hst, hb⟩

theorem push_usizes_spec {vs : List Usize} (h : w.push_usizes pt mem vs = some (w', mem'))
    (hlo : lo + (8 * vs.length + 7) ≤ w.sp.toNat) (hsp : w.sp.toNat ≤ top) :
    w'.sp.toNat = w.sp.toNat - 8 * vs.length - (w.sp.toNat - 8 * vs.length) % 8 ∧
      Steps pt top w.sp.toNat w'.sp.toNat mem mem' ∧
      BytesAt (pt.vread mem') w'.sp.toNat (vs.flatMap usize_bytes) := by
  have h8 : (8 : Usize).toNat = 8 := rfl
  -- the size in bytes is below `sp`, so `len * 8` does not wrap
  have hlen := usizes_size_toNat vs.length (by have := w.sp.isLt; omega)
  obtain ⟨hsp', hst, hb⟩ := push_slice_spec hw hinj htop h
    (by rw [hlen, length_flatMap_usize_bytes]) (by rw [h8]; omega) (by rw [hlen, h8]; omega) hsp
  rw [hlen, h8] at hsp'
  exact ⟨hsp', hst, hb⟩

/-- At an aligned pointer, words land right below the words already there and keep them: the
block grows by the new words in front. -/
theorem push_usizes_block {vs ws : List Usize} (h : w.push_usizes pt mem vs = some (w', mem'))
    (halign : w.sp.toNat % 8 = 0) (hlo : lo + (8 * vs.length + 7) ≤ w.sp.toNat)
    (hend : w.sp.toNat + 8 * ws.length ≤ top)
    (hblock : BytesAt (pt.vread mem) w.sp.toNat (ws.flatMap usize_bytes)) :
    w'.sp.toNat + 8 * vs.length = w.sp.toNat ∧ Steps pt top w.sp.toNat w'.sp.toNat mem mem' ∧
      BytesAt (pt.vread mem') w'.sp.toNat ((vs ++ ws).flatMap usize_bytes) := by
  obtain ⟨hsp', hst, hb⟩ := push_usizes_spec hw hinj htop h hlo (by omega)
  -- at an aligned pointer the rounding takes nothing
  have hsp'' : w'.sp.toNat + 8 * vs.length = w.sp.toNat := by omega
  refine ⟨hsp'', hst, bytesAt_words_append.mpr ⟨hb, ?_⟩⟩
  rw [hsp'']
  exact hst.bytesAt hblock le_rfl (by rw [length_flatMap_usize_bytes]; omega)

theorem push_str_spec {str : List (BitVec 8)} (h : w.push_str pt mem str = some (w', mem'))
    (hlo : lo + (str.length + 1) ≤ w.sp.toNat) (hsp : w.sp.toNat ≤ top) :
    w'.sp.toNat + (str.length + 1) = w.sp.toNat ∧ Steps pt top w.sp.toNat w'.sp.toNat mem mem' ∧
      BytesAt (pt.vread mem') w'.sp.toNat (str ++ [0]) := by
  simp only [push_str, Option.bind_eq_bind, Option.bind_eq_some_iff, Prod.exists] at h
  obtain ⟨w₁, mem₁, h₁, h₂⟩ := h
  obtain ⟨hsp₁, hst₁, hb₁⟩ := push_bytes_spec hw hinj htop h₁ (by simp only [List.length_singleton]; omega) hsp
  rw [List.length_singleton] at hsp₁
  obtain ⟨hsp₂, hst₂, hb₂⟩ := push_bytes_spec hw hinj htop h₂ (by omega) (by omega)
  -- the zero, written first, lies right above the string
  have hzero := hst₂.bytesAt hb₁ le_rfl (by simp only [List.length_singleton]; omega)
  refine ⟨by omega, hst₁.trans hst₂, bytesAt_append.mpr ⟨hb₂, ?_⟩⟩
  rwa [hsp₂]

/-- **The strings.** `push_strs` puts the strings one below the other, each with its zero, and
each pointer it returns leads to its string. -/
theorem push_strs_spec {ss : List (List (BitVec 8))} {sps : List Usize}
    (h : w.push_strs pt mem ss = some (w', mem', sps)) (hlo : lo + strs_size ss ≤ w.sp.toNat)
    (hsp : w.sp.toNat ≤ top) :
    w'.sp.toNat + strs_size ss = w.sp.toNat ∧ Steps pt top w.sp.toNat w'.sp.toNat mem mem' ∧
      List.Forall₂ (StrAt pt mem' w'.sp.toNat w.sp.toNat) sps ss := by
  -- the invariant: the strings done lie between the pointer and the start, each reached
  refine Fold.foldlM_inv _ (fun done (t : StackWriter × PhysMem × List Usize) =>
      t.1.sp.toNat + strs_size done = w.sp.toNat ∧ Steps pt top w.sp.toNat t.1.sp.toNat mem t.2.1 ∧
      List.Forall₂ (StrAt pt t.2.1 t.1.sp.toNat w.sp.toNat) t.2.2 done) ?_
    ⟨by simp [strs_size], Steps.refl _ _, .nil⟩ h
  intro done x rest t t' hl ht hstep
  obtain ⟨w₁, mem₁, sps₁⟩ := t
  obtain ⟨hsp₁, hst₁, hps₁⟩ := ht
  dsimp only at hsp₁ hst₁ hps₁ hstep
  simp only [Option.bind_eq_bind, Option.bind_eq_some_iff, Prod.exists, Option.some.injEq] at hstep
  obtain ⟨w₂, mem₂, hpush, rfl⟩ := hstep
  have hsize : strs_size ss = strs_size done + (x.length + 1) + strs_size rest := by
    rw [← hl]
    simp only [strs_size, List.map_append, List.sum_append, List.map_cons, List.sum_cons]
    omega
  have hdone : strs_size (done ++ [x]) = strs_size done + (x.length + 1) := by
    simp [strs_size]
  obtain ⟨hsp₂, hst₂, hb₂⟩ := push_str_spec hw hinj htop hpush (by omega) (by omega)
  dsimp only
  -- the strings done are above the pointer the push started from
  refine ⟨by rw [hdone]; omega, hst₁.trans hst₂,
    List.rel_append (hps₁.imp fun _ _ h => hst₂.strAt h hsp) (.cons ⟨le_rfl, by omega, hb₂⟩ .nil)⟩

/-- **The auxiliary vector.** From an aligned pointer each pair lands right below the one pushed
before it, so the pairs read upwards in the reverse of the map's order. -/
theorem push_auxv_block {auxv : List (BitVec 8 × Usize)} {ws : List Usize}
    (h : w.push_auxv pt mem auxv = some (w', mem')) (halign : w.sp.toNat % 8 = 0)
    (hlo : lo + 23 * auxv.length ≤ w.sp.toNat) (hend : w.sp.toNat + 8 * ws.length ≤ top)
    (hblock : BytesAt (pt.vread mem) w.sp.toNat (ws.flatMap usize_bytes)) :
    w'.sp.toNat + 16 * auxv.length = w.sp.toNat ∧ Steps pt top w.sp.toNat w'.sp.toNat mem mem' ∧
      BytesAt (pt.vread mem') w'.sp.toNat ((auxv_words auxv.reverse ++ ws).flatMap usize_bytes) := by
  -- the invariant: the pairs done, latest first, in front of the block
  refine Fold.foldlM_inv _ (fun done (t : StackWriter × PhysMem) =>
      t.1.sp.toNat + 16 * done.length = w.sp.toNat ∧ Steps pt top w.sp.toNat t.1.sp.toNat mem t.2 ∧
      BytesAt (pt.vread t.2) t.1.sp.toNat ((auxv_words done.reverse ++ ws).flatMap usize_bytes)) ?_
    ⟨by simp, Steps.refl _ _, by simpa [auxv_words] using hblock⟩ h
  intro done x rest t t' hl ht hstep
  obtain ⟨w₁, mem₁⟩ := t
  obtain ⟨hsp₁, hst₁, hb₁⟩ := ht
  dsimp only at hsp₁ hst₁ hb₁ hstep
  have hlen : auxv.length = done.length + 1 + rest.length := by
    rw [← hl]
    simp only [List.length_append, List.length_cons]
    omega
  have hwords : (auxv_words done.reverse).length = 2 * done.length := by simp
  obtain ⟨hsp₂, hst₂, hb₂⟩ := push_usizes_block hw hinj htop hstep (by omega)
    (by simp only [List.length_cons, List.length_nil]; omega)
    (by rw [List.length_append, hwords]; omega) hb₁
  refine ⟨?_, hst₁.trans hst₂, ?_⟩
  · rw [← hsp₁, ← hsp₂, List.length_append, List.length_singleton]
    simp only [List.length_cons, List.length_nil]
    omega
  · simpa [auxv_words, List.reverse_append] using hb₂

/-- **The strings of `push_at`**: the program name, the environment and the arguments, one below
the other, each pointer leading to its string. -/
theorem push_strings_spec {w₀ w₁ w₂ w₃ : StackWriter} {mem₀ mem₁ mem₂ mem₃ : PhysMem}
    {name : List (BitVec 8)} {envs args : List (List (BitVec 8))} {envp argv : List Usize}
    (h₁ : w₀.push_str pt mem₀ name = some (w₁, mem₁))
    (h₂ : w₁.push_strs pt mem₁ envs = some (w₂, mem₂, envp))
    (h₃ : w₂.push_strs pt mem₂ args = some (w₃, mem₃, argv))
    (hlo : lo + (name.length + 1 + strs_size envs + strs_size args) ≤ w₀.sp.toNat)
    (hsp : w₀.sp.toNat ≤ top) :
    w₃.sp.toNat + (name.length + 1 + strs_size envs + strs_size args) = w₀.sp.toNat ∧
      Steps pt top w₀.sp.toNat w₃.sp.toNat mem₀ mem₃ ∧
      List.Forall₂ (StrAt pt mem₃ w₃.sp.toNat w₀.sp.toNat) argv args ∧
      List.Forall₂ (StrAt pt mem₃ w₃.sp.toNat w₀.sp.toNat) envp envs := by
  obtain ⟨hs₁, st₁, -⟩ := push_str_spec hw hinj htop h₁ (by omega) hsp
  obtain ⟨hs₂, st₂, henv⟩ := push_strs_spec hw hinj htop h₂ (by omega) (by omega)
  obtain ⟨hs₃, st₃, harg⟩ := push_strs_spec hw hinj htop h₃ (by omega) (by omega)
  refine ⟨by omega, st₁.trans (st₂.trans st₃), harg.imp fun _ _ h => h.mono le_rfl (by omega), ?_⟩
  -- the environment, pushed before the arguments, is carried over them
  exact henv.imp fun _ _ h => (st₃.strAt h (by omega)).mono le_rfl (by omega)

/-- **The words of `push_at`**, from the pointer the strings left: `[0, 0]` aligns it, and from
there each push lands right below the last, so the words lie in the order of `entry_words`. -/
theorem push_words_spec {w₃ w₄ w₅ w₆ w₇ w₈ w₉ w₁₀ : StackWriter}
    {mem₃ mem₄ mem₅ mem₆ mem₇ mem₈ mem₉ mem₁₀ : PhysMem} {auxv : List (BitVec 8 × Usize)}
    {envp argv : List Usize}
    (h₄ : w₃.push_usizes pt mem₃ [0, 0] = some (w₄, mem₄))
    (h₅ : w₄.push_auxv pt mem₄ auxv = some (w₅, mem₅))
    (h₆ : w₅.push_usizes pt mem₅ [0] = some (w₆, mem₆))
    (h₇ : w₆.push_usizes pt mem₆ envp = some (w₇, mem₇))
    (h₈ : w₇.push_usizes pt mem₇ [0] = some (w₈, mem₈))
    (h₉ : w₈.push_usizes pt mem₈ argv = some (w₉, mem₉))
    (h₁₀ : w₉.push_usizes pt mem₉ [BitVec.ofNat 64 argv.length] = some (w₁₀, mem₁₀))
    (hlo : lo + (23 * auxv.length + 8 * envp.length + 8 * argv.length + 82) ≤ w₃.sp.toNat)
    (hsp : w₃.sp.toNat ≤ top) :
    w₁₀.sp.toNat % 8 = 0 ∧ lo ≤ w₁₀.sp.toNat ∧ Steps pt top w₃.sp.toNat w₁₀.sp.toNat mem₃ mem₁₀ ∧
      BytesAt (pt.vread mem₁₀) w₁₀.sp.toNat ((entry_words argv envp auxv.reverse).flatMap usize_bytes) := by
  obtain ⟨hs₄, st₄, hb₄⟩ := push_usizes_spec hw hinj htop h₄ (by simp; omega) hsp
  simp only [List.length_cons, List.length_nil] at hs₄
  -- `[0, 0]` aligns the pointer, 16 to 23 bytes down; from there on every push is exact
  have halign : w₄.sp.toNat % 8 = 0 := by omega
  have hdown : w₄.sp.toNat + 16 ≤ w₃.sp.toNat ∧ w₃.sp.toNat ≤ w₄.sp.toNat + 23 := by omega
  clear hs₄
  obtain ⟨hs₅, st₅, hb₅⟩ := push_auxv_block hw hinj htop h₅ halign (by omega) (by simp; omega) hb₄
  obtain ⟨hs₆, st₆, hb₆⟩ := push_usizes_block hw hinj htop h₆ (by omega) (by simp; omega)
    (by simp; omega) hb₅
  simp only [List.length_cons, List.length_nil] at hs₆
  obtain ⟨hs₇, st₇, hb₇⟩ := push_usizes_block hw hinj htop h₇ (by omega) (by omega) (by simp; omega) hb₆
  obtain ⟨hs₈, st₈, hb₈⟩ := push_usizes_block hw hinj htop h₈ (by omega) (by simp; omega)
    (by simp; omega) hb₇
  simp only [List.length_cons, List.length_nil] at hs₈
  obtain ⟨hs₉, st₉, hb₉⟩ := push_usizes_block hw hinj htop h₉ (by omega) (by omega) (by simp; omega) hb₈
  obtain ⟨hs₁₀, st₁₀, hb₁₀⟩ := push_usizes_block hw hinj htop h₁₀ (by omega) (by simp; omega)
    (by simp; omega) hb₉
  simp only [List.length_cons, List.length_nil] at hs₁₀
  refine ⟨by omega, by omega, st₄.trans (st₅.trans (st₆.trans (st₇.trans (st₈.trans (st₉.trans st₁₀))))), ?_⟩
  simpa [entry_words, List.append_assoc] using hb₁₀

end Push

end StackWriter

/-! ## The initial stack -/

open StackWriter Queen.Memory.PageTable

variable {pt : PageTable} {lo : Nat}

/-- **What `push_at` writes.** Below the strings, from an aligned `sp`, the words of the
layout one after another, with the pointers leading to the arguments and the environment; and
every byte it changed is behind `[sp, stack_top)`. -/
theorem push_at_writes {info : ProcInitInfo} {mem mem' : PhysMem} {stack_top sp : Usize}
    (hw : pt.Writable lo stack_top.toNat) (hinj : pt.InjOn lo stack_top.toNat)
    (hlo : lo + info.stack_bytes ≤ stack_top.toNat) (h : info.push_at pt mem stack_top = some (sp, mem')) :
    ∃ argv envp, sp.toNat % 8 = 0 ∧ lo ≤ sp.toNat ∧
      BytesAt (pt.vread mem') sp.toNat ((entry_words argv envp info.auxv.reverse).flatMap usize_bytes) ∧
      List.Forall₂ (StrAt pt mem' sp.toNat stack_top.toNat) argv info.args ∧
      List.Forall₂ (StrAt pt mem' sp.toNat stack_top.toNat) envp info.envs ∧
      Steps pt stack_top.toNat stack_top.toNat sp.toNat mem mem' := by
  obtain ⟨args, envs, auxv⟩ := info
  simp only [ProcInitInfo.push_at, Option.bind_eq_bind, Option.bind_eq_some_iff, Prod.exists,
    Option.some.injEq, Prod.mk.injEq] at h
  obtain ⟨name, hname, w₁, mem₁, h₁, w₂, mem₂, envp, h₂, w₃, mem₃, argv, h₃, w₄, mem₄, h₄, w₅, mem₅,
    h₅, w₆, mem₆, h₆, w₇, mem₇, h₇, w₈, mem₈, h₈, w₉, mem₉, h₉, w₁₀, mem₁₀, h₁₀, rfl, rfl⟩ := h
  have hname_len : (args.head?.map List.length).getD 0 = name.length := by simp [hname]
  simp only [ProcInitInfo.stack_bytes, hname_len] at hlo
  obtain ⟨hs₃, st₃, harg, henv⟩ :=
    push_strings_spec hw hinj stack_top.isLt h₁ h₂ h₃ (by dsimp only; omega) le_rfl
  dsimp only at hs₃ st₃ harg henv
  have hlen₂ := henv.length_eq
  have hlen₃ := harg.length_eq
  obtain ⟨halign, hlo', st_words, hwords⟩ :=
    push_words_spec hw hinj stack_top.isLt h₄ h₅ h₆ h₇ h₈ h₉ h₁₀ (by omega) (by omega)
  -- the strings lie above the words, which keep them
  exact ⟨argv, envp, halign, hlo', hwords, harg.imp fun _ _ h => st_words.strAt h le_rfl,
    henv.imp fun _ _ h => st_words.strAt h le_rfl, st₃.trans st_words⟩

/-- **The initial stack decodes back to the process's arguments.** With a program name, strings
without a zero byte and room for `stack_bytes` below the top, in a range the program can write
and whose addresses reach distinct bytes, `push_at` goes through, and the layout at the `sp` it
returns reads back as the arguments, the environment and the auxiliary vector (in the reverse of
the map's order): `argc` at `sp`, the pointers, the null words and the `(0, 0)` pair, every word
aligned and every pointer into `[sp, stack_top)`. No byte but one behind `[sp, stack_top)` was
written. -/
theorem push_at_decodes (info : ProcInitInfo) (mem : PhysMem) (stack_top : Usize)
    (hw : pt.Writable lo stack_top.toNat) (hinj : pt.InjOn lo stack_top.toNat)
    (hargs : info.args ≠ []) (hnul : ∀ s ∈ info.args ++ info.envs, (0 : BitVec 8) ∉ s)
    (hlo : lo + info.stack_bytes ≤ stack_top.toNat) :
    ∃ sp mem', info.push_at pt mem stack_top = some (sp, mem') ∧ lo ≤ sp.toNat ∧
      decode_entry (pt.vread mem') stack_top.toNat sp.toNat info.envs.length info.auxv.length =
        some (info.args, info.envs, info.auxv.reverse.map fun e => (e.1.toNat, e.2.toNat)) ∧
      ∀ pa, mem' pa ≠ mem pa → ∃ v : VirtAddr, sp.toNat ≤ v.toNat ∧ v.toNat < stack_top.toNat ∧
        pt.translate true v = some pa := by
  obtain ⟨sp, mem', h, hsp, -⟩ :=
    ProcInitInfo.push_at_exists info hw stack_top.isLt.le mem stack_top hargs hlo le_rfl
  obtain ⟨argv, envp, halign, -, hwords, hargv, henvp, hst⟩ := push_at_writes hw hinj hlo h
  -- the argument count fits in a word: the pointers alone take `8 * argc` bytes of the stack
  have hlen : argv.length < 2 ^ 64 := by
    have := stack_top.isLt
    rw [hargv.length_eq]
    simp only [ProcInitInfo.stack_bytes] at hlo
    omega
  refine ⟨sp, mem', h, hsp, ?_, hst.frame⟩
  rw [show info.auxv.length = info.auxv.reverse.length from List.length_reverse.symm]
  exact decode_entry_of_bytesAt halign hlen hwords
    (read_strs hargv fun s hs => hnul s (List.mem_append_left _ hs))
    (read_strs henvp fun s hs => hnul s (List.mem_append_right _ hs))

/-- One writable user page below `0x9000`: the arguments `ls`, `-la` and `/`, the environment
`A=1` and `PATH=/bin`, and two auxiliary entries, all of different lengths, decode back. -/
theorem push_at_decodes_one_page :
    let pt : PageTable :=
      ⟨(∅ : AList fun _ : Usize => Entry).insert 8#64 ⟨0x40000000#64, true, true, true, false, 0⟩⟩
    let info : ProcInitInfo := ⟨[[0x6c#8, 0x73#8], [0x2d#8, 0x6c#8, 0x61#8], [0x2f#8]],
      [[0x41#8, 0x3d#8, 0x31#8], [0x50#8, 0x41#8, 0x54#8, 0x48#8, 0x3d#8, 0x2f#8, 0x62#8, 0x69#8, 0x6e#8]],
      [(AT_PAGESZ, PAGE_SIZE), (AT_ENTRY, 0x400000#64)]⟩
    ∃ sp mem', info.push_at pt (fun _ => 0) 0x9000#64 = some (sp, mem') ∧ 0x8000 ≤ sp.toNat ∧
      decode_entry (pt.vread mem') (0x9000#64).toNat sp.toNat info.envs.length info.auxv.length =
        some (info.args, info.envs, info.auxv.reverse.map fun e => (e.1.toNat, e.2.toNat)) ∧
      ∀ pa, mem' pa ≠ 0 → ∃ v : VirtAddr, sp.toNat ≤ v.toNat ∧ v.toNat < (0x9000#64).toNat ∧
        pt.translate true v = some pa :=
  push_at_decodes ⟨[[0x6c#8, 0x73#8], [0x2d#8, 0x6c#8, 0x61#8], [0x2f#8]],
      [[0x41#8, 0x3d#8, 0x31#8], [0x50#8, 0x41#8, 0x54#8, 0x48#8, 0x3d#8, 0x2f#8, 0x62#8, 0x69#8, 0x6e#8]],
      [(AT_PAGESZ, PAGE_SIZE), (AT_ENTRY, 0x400000#64)]⟩ (fun _ => 0) 0x9000#64
    (writable_of_lookup (AList.lookup_insert _) rfl rfl (by decide) (by decide))
    (injOn_of_lookup (AList.lookup_insert _) (by decide) (by decide) (by decide)) (by decide) (by decide)
    (by decide)

end Queen.Process
