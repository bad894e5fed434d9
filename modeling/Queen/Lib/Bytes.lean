/-
Machine words and reading a byte-addressed memory: runs of cells, little-endian words and
zero-terminated strings.

`usize` is `BitVec 64`: `+`, `-` and `*` wrap around instead of panicking, which is what
the release profile compiles them to. `x as isize` reads the same bits signed, which is
`BitVec.toInt`. The `Usize` lemmas are the facts about wrapping arithmetic that the models
use by name.

A reader is `Nat → Option β`, `none` where a read faults, and `BytesAt rd a bs` says it finds
`bs` from the address `a` on. A run splits where its list does (`bytesAt_append`) and depends
only on the cells it covers (`BytesAt.congr`). The little-endian bytes of a number read back as
the number modulo the width (`read_les_of_bytesAt`), and a string with no zero byte, followed
by one, reads back as itself (`read_cstr_of_bytesAt`).

Nothing here names the kernel.
-/
import Mathlib

set_option autoImplicit false

namespace Queen

/-- `usize` on a 64-bit target. -/
abbrev Usize := BitVec 64

namespace Usize

/-- The literal `0 : usize`, which `BitVec.toNat_zero` (stated for `0#w`) does not rewrite. -/
theorem toNat_zero : (0 : Usize).toNat = 0 := rfl

theorem toNat_one : (1 : Usize).toNat = 1 := rfl

/-- Subtraction without wrap-around. -/
theorem toNat_sub_of_le {a b : Usize} (h : b ≤ a) : (a - b).toNat = a.toNat - b.toNat := by
  bv_omega

/-- Addition without wrap-around. -/
theorem toNat_add_of_lt {a b : Usize} (h : a.toNat + b.toNat < 2 ^ 64) :
    (a + b).toNat = a.toNat + b.toNat := by
  bv_omega

/-- **The half-range window.** Two words at most `2 ^ 63 - 1` above a common start `w`,
wrapping: their wrapping difference, read signed, is the difference of their distances from
`w`. Over all of `usize` the signed difference is no order; on one such window it is. -/
theorem toInt_sub_of_window {w a b : Usize} (ha : (a - w).toNat < 2 ^ 63)
    (hb : (b - w).toNat < 2 ^ 63) : (a - b).toInt = ((a - w).toNat : Int) - (b - w).toNat := by
  -- measure both from `w`, then split on the sign bit of the difference
  rw [← sub_sub_sub_cancel_right a b w, BitVec.toInt_eq_toNat_cond, BitVec.toNat_sub]
  split <;> omega

end Usize

end Queen

namespace Queen.Bytes

/-! ## Runs of cells -/

section Runs

variable {β : Type*} {rd rd' : Nat → Option β}

/-- The reader finds `bs` from `a` on. -/
def BytesAt (rd : Nat → Option β) (a : Nat) (bs : List β) : Prop :=
  ∀ i (h : i < bs.length), rd (a + i) = some bs[i]

@[simp] theorem bytesAt_nil (a : Nat) : BytesAt rd a [] :=
  fun _ h => absurd h (Nat.not_lt_zero _)

theorem bytesAt_append {a : Nat} {l₁ l₂ : List β} :
    BytesAt rd a (l₁ ++ l₂) ↔ BytesAt rd a l₁ ∧ BytesAt rd (a + l₁.length) l₂ := by
  constructor
  · intro h
    refine ⟨fun i hi => ?_, fun i hi => ?_⟩
    · rw [h i (by simp only [List.length_append]; omega), List.getElem_append_left hi]
    · rw [Nat.add_assoc, h (l₁.length + i) (by simp only [List.length_append]; omega),
        List.getElem_append_right (by omega)]
      simp
  · rintro ⟨h₁, h₂⟩ i hi
    by_cases hlt : i < l₁.length
    · rw [h₁ i hlt, List.getElem_append_left hlt]
    · -- past `l₁`, the cell is one of `l₂`
      have h := h₂ (i - l₁.length) (by simp only [List.length_append] at hi; omega)
      rw [show a + l₁.length + (i - l₁.length) = a + i by omega] at h
      rw [h, List.getElem_append_right (by omega)]

theorem bytesAt_cons {a : Nat} {b : β} {l : List β} :
    BytesAt rd a (b :: l) ↔ rd a = some b ∧ BytesAt rd (a + 1) l := by
  rw [← List.singleton_append, bytesAt_append]
  refine and_congr_left fun _ => ⟨fun h => h 0 (Nat.zero_lt_one), fun h i hi => ?_⟩
  obtain rfl : i = 0 := by simpa using hi
  exact h

/-- A run depends only on the cells it covers. -/
theorem BytesAt.congr {a : Nat} {bs : List β} (h : BytesAt rd a bs)
    (hagree : ∀ i < bs.length, rd' (a + i) = rd (a + i)) : BytesAt rd' a bs :=
  fun i hi => (hagree i hi).trans (h i hi)

/-- Read `n` cells from `a` on. -/
def read_bytes (rd : Nat → Option β) (a : Nat) : Nat → Option (List β)
  | 0 => some []
  | n + 1 => do
    let b ← rd a
    let bs ← read_bytes rd (a + 1) n
    some (b :: bs)

theorem read_bytes_of_bytesAt : ∀ {a : Nat} {bs : List β},
    BytesAt rd a bs → read_bytes rd a bs.length = some bs
  | _, [], _ => rfl
  | _, _ :: _, h => by
    obtain ⟨hb, hbs⟩ := bytesAt_cons.mp h
    simp [read_bytes, hb, read_bytes_of_bytesAt hbs]

end Runs

/-! ## Little-endian words -/

section LittleEndian

variable {rd : Nat → Option (BitVec 8)}

/-- The `n` little-endian bytes of `x`. -/
def le_bytes : Nat → Nat → List (BitVec 8)
  | 0, _ => []
  | n + 1, x => BitVec.ofNat 8 x :: le_bytes n (x / 256)

/-- The number little-endian bytes stand for. -/
def le_value (bs : List (BitVec 8)) : Nat := bs.foldr (fun b acc => b.toNat + 256 * acc) 0

@[simp] theorem length_le_bytes : ∀ (n x : Nat), (le_bytes n x).length = n
  | 0, _ => rfl
  | n + 1, x => by rw [le_bytes, List.length_cons, length_le_bytes n]

theorem le_value_le_bytes : ∀ (n x : Nat), le_value (le_bytes n x) = x % 256 ^ n
  | 0, x => by simp [le_value, le_bytes, Nat.mod_one]
  | n + 1, x => by
    have ih := le_value_le_bytes n (x / 256)
    simp only [le_value, le_bytes, List.foldr_cons] at ih ⊢
    rw [ih, BitVec.toNat_ofNat, show (2 : Nat) ^ 8 = 256 from rfl,
      show 256 ^ (n + 1) = 256 * 256 ^ n from Nat.pow_succ', Nat.mod_mul]

/-- Byte `k` of `x` is `x / 256 ^ k`, cut to a byte. -/
theorem le_bytes_eq_map_range : ∀ (n x : Nat),
    le_bytes n x = (List.range n).map fun k => BitVec.ofNat 8 (x / 256 ^ k)
  | 0, _ => rfl
  | n + 1, x => by
    rw [le_bytes, le_bytes_eq_map_range n, List.range_succ_eq_map, List.map_cons, List.map_map]
    congr 1
    · simp
    · refine List.map_congr_left fun k _ => ?_
      simp only [Function.comp_apply, Nat.div_div_eq_div_mul, Nat.pow_succ']

/-- Read an `n`-byte little-endian word at `a`. -/
def read_le (rd : Nat → Option (BitVec 8)) (n a : Nat) : Option Nat :=
  (read_bytes rd a n).map le_value

/-- Read `count` words of `n` bytes each, from `a` on. -/
def read_les (rd : Nat → Option (BitVec 8)) (n a : Nat) : Nat → Option (List Nat)
  | 0 => some []
  | count + 1 => do
    let x ← read_le rd n a
    let xs ← read_les rd n (a + n) count
    some (x :: xs)

theorem read_le_of_bytesAt {n a x : Nat} (h : BytesAt rd a (le_bytes n x)) :
    read_le rd n a = some (x % 256 ^ n) := by
  have hread := read_bytes_of_bytesAt h
  rw [length_le_bytes] at hread
  rw [read_le, hread, Option.map_some, le_value_le_bytes]

/-- **Words read back.** The words laid out one after another read back, each modulo the
width. -/
theorem read_les_of_bytesAt {n : Nat} : ∀ {a : Nat} {xs : List Nat},
    BytesAt rd a (xs.flatMap (le_bytes n)) → read_les rd n a xs.length = some (xs.map (· % 256 ^ n))
  | _, [], _ => rfl
  | _, x :: xs, h => by
    rw [List.flatMap_cons, bytesAt_append, length_le_bytes] at h
    simp [read_les, read_le_of_bytesAt h.1, read_les_of_bytesAt h.2]

end LittleEndian

/-! ## Zero-terminated strings -/

section CStr

variable {rd rd' : Nat → Option (BitVec 8)}

/-- The zero-terminated string at `a`, looking at no more than `fuel` bytes. -/
def read_cstr (rd : Nat → Option (BitVec 8)) : Nat → Nat → Option (List (BitVec 8))
  | 0, _ => none
  | fuel + 1, a => do
    let b ← rd a
    if b = 0 then some [] else (read_cstr rd fuel (a + 1)).map (b :: ·)

/-- **Strings read back.** A string with no zero byte, followed by one, reads back as itself
given the room to reach the zero. -/
theorem read_cstr_of_bytesAt : ∀ {s : List (BitVec 8)} {fuel a : Nat},
    BytesAt rd a (s ++ [0]) → 0 ∉ s → s.length < fuel → read_cstr rd fuel a = some s
  | [], fuel + 1, a, h, _, _ => by
    have h0 : rd a = some 0 := (bytesAt_cons.mp h).1
    simp [read_cstr, h0]
  | b :: s, fuel + 1, a, h, hs, hfuel => by
    rw [List.cons_append, bytesAt_cons] at h
    have hb : b ≠ 0 := fun hb => hs (hb ▸ List.mem_cons_self)
    have ih : read_cstr rd fuel (a + 1) = some s :=
      read_cstr_of_bytesAt h.2 (fun h0 => hs (List.mem_cons_of_mem _ h0))
        (by simp only [List.length_cons] at hfuel; omega)
    simp only [read_cstr, h.1, Option.bind_eq_bind, Option.bind_some]
    rw [if_neg hb, ih, Option.map_some]

end CStr

end Queen.Bytes
