/-
The arithmetic of the CFS executor, `kernel/src/task/executor/mod.rs`: virtual runtimes
compared across wrap-around, `LoadWeight` with its inverse, the nice-to-weight table,
`calc_delta`, `sched_period` and the scheduler feature flags.

Every `usize` is a `Usize` (`BitVec 64`) and wraps as the release build does. `VRuntime`'s
order is the source's: the sign of the wrapped difference read as an `isize`, so it is a
total order only on values less than half the word apart. Rust's `Ord::max`/`Ord::min`
are spelled out (`max` keeps the second argument on a tie, `min` the first), because the
executor places tasks with them.

`calc_delta`'s two `while` loops shift a 64-bit word right until its top half is clear;
`calc_delta.shift_down` runs the loop with 64 rounds of fuel, and
`shift_down_done` shows the fuel never runs out, so the bounded loop is the source's loop.
-/
import Queen.Lib.Bytes

set_option autoImplicit false

namespace Queen.Executor

/-! ## Constants -/

/-- `SCHED_LATENCY`: targeted preemption latency, 6 ms. -/
def SCHED_LATENCY : Usize := 6000000#64

/-- `SCHED_MIN_GRANULARITY`: minimal preemption granularity, 0.75 ms. -/
def SCHED_MIN_GRANULARITY : Usize := 750000#64

/-- `SCHED_NR_LATENCY`. -/
def SCHED_NR_LATENCY : Usize := 8#64

/-- `SCHED_CHILD_RUNS_FIRST`. -/
def SCHED_CHILD_RUNS_FIRST : Bool := false

/-- `MAX_NICE`. -/
def MAX_NICE : Int := 19

/-- `MIN_NICE`. -/
def MIN_NICE : Int := -20

/-! ## Scheduler features (`features.rs`) -/

/-- `SchedFeatures`, a `bitflags` set over `u32`. -/
abbrev SchedFeatures := BitVec 32

/-- `SchedFeatures::GENTLE_FAIR_SLEEPERS`. -/
def GENTLE_FAIR_SLEEPERS : SchedFeatures := 0b0000_0001#32
/-- `SchedFeatures::START_DEBIT`. -/
def START_DEBIT : SchedFeatures := 0b0000_0010#32
/-- `SchedFeatures::LAST_BUDDY`. -/
def LAST_BUDDY : SchedFeatures := 0b0000_1000#32
/-- `SchedFeatures::CACHE_HOT_BUDDY`. -/
def CACHE_HOT_BUDDY : SchedFeatures := 0b0001_0000#32
/-- `SchedFeatures::WAKEUP_PREEMPTION`. -/
def WAKEUP_PREEMPTION : SchedFeatures := 0b0010_0000#32

/-- `SchedFeatures::contains`. -/
def SchedFeatures.contains (s other : SchedFeatures) : Bool := s &&& other == other

/-- `SchedFeatures::new()`, the value of `SCHED_FEAT`. -/
def SCHED_FEAT : SchedFeatures :=
  GENTLE_FAIR_SLEEPERS ||| START_DEBIT ||| LAST_BUDDY ||| CACHE_HOT_BUDDY ||| WAKEUP_PREEMPTION

/-! ## Virtual runtime -/

/-- `struct VRuntime(usize)`: virtual runtime, dealing with overflow. -/
structure VRuntime where
  val : Usize
deriving DecidableEq, Repr, Inhabited

namespace VRuntime

/-- `VRuntime::delta`: `self.0 as isize - other.0 as isize`, wrapping. -/
def delta (a b : VRuntime) : Int := (a.val - b.val).toInt

/-- `Ord for VRuntime`: `(self.0 as isize - other.0 as isize).cmp(&0)`. -/
instance : Ord VRuntime := ⟨fun a b => compare (a.delta b) 0⟩

/-- `Ord::max`: `other` unless `self` is greater. -/
def max (a b : VRuntime) : VRuntime := if compare a b = .gt then a else b

/-- `Ord::min`: `self` unless it is greater. -/
def min (a b : VRuntime) : VRuntime := if compare a b = .gt then b else a

/-- `VRuntime + usize`, `VRuntime += usize`. -/
def add (a : VRuntime) (d : Usize) : VRuntime := ⟨a.val + d⟩

/-- `VRuntime - usize`, `VRuntime -= usize`. -/
def sub (a : VRuntime) (d : Usize) : VRuntime := ⟨a.val - d⟩

end VRuntime

/-! ## Load weights -/

/-- `struct LoadWeight`. Every value the executor builds comes from `LoadWeight::new`, so
`inv_weight` stays `None`; it is kept because `inv_weight()` reads it. -/
structure LoadWeight where
  weight : Usize
  inv_weight : Option (BitVec 32)
deriving DecidableEq, Repr, Inhabited

namespace LoadWeight

/-- `LoadWeight::WMULT_CONST`: `!0u32`. -/
def WMULT_CONST : BitVec 32 := BitVec.allOnes 32

/-- `LoadWeight::WMULT_SHIFT`. -/
def WMULT_SHIFT : Usize := 32#64

/-- `LoadWeight::new`. -/
def new (weight : Usize) : LoadWeight := ⟨weight, none⟩

/-- `LoadWeight + LoadWeight`, also `+=`: a new weight, the inverse dropped. -/
instance : Add LoadWeight := ⟨fun a b => new (a.weight + b.weight)⟩

/-- `LoadWeight - LoadWeight`, also `-=`, wrapping below zero. -/
instance : Sub LoadWeight := ⟨fun a b => new (a.weight - b.weight)⟩

@[simp] theorem add_weight (a b : LoadWeight) : (a + b).weight = a.weight + b.weight := rfl

@[simp] theorem sub_weight (a b : LoadWeight) : (a - b).weight = a.weight - b.weight := rfl

/-- `LoadWeight::inv_weight()`: the cached inverse, else `WMULT_CONST / weight`. -/
def inv_weight_of (lw : LoadWeight) : BitVec 32 :=
  match lw.inv_weight with
  | some inv => inv
  | none =>
    if lw.weight = 0 then WMULT_CONST
    else if lw.weight ≤ WMULT_CONST.setWidth 64 then WMULT_CONST / lw.weight.setWidth 32
    else 1

end LoadWeight

/-- A nice level, `MIN_NICE ≤ nice ≤ MAX_NICE`. `nice_to_weight` indexes a 40-entry table
with `nice + 20` and panics outside that range; every spawn in the kernel passes `0` or
`MAX_NICE`, so the type keeps the range and the table lookup is total. -/
structure Nice where
  val : Int
  ge : MIN_NICE ≤ val
  le : val ≤ MAX_NICE
deriving DecidableEq

/-- Nice `0` is in range. -/
theorem MIN_NICE_le_zero : MIN_NICE ≤ 0 := by decide

theorem zero_le_MAX_NICE : 0 ≤ MAX_NICE := by decide

/-- `NICE_TO_WEIGHT`, from nice `-20` to `19`. -/
def NICE_TO_WEIGHT : List Nat :=
  [88761, 71755, 56483, 46273, 36291,
   29154, 23254, 18705, 14949, 11916,
   9548, 7620, 6100, 4904, 3906,
   3121, 2501, 1991, 1586, 1277,
   1024, 820, 655, 526, 423,
   335, 272, 215, 172, 137,
   110, 87, 70, 56, 45,
   36, 29, 23, 18, 15]

/-- `nice_to_weight`: `NICE_TO_WEIGHT[(nice + 20) as usize]`. -/
def nice_to_weight (nice : Nice) : Usize := BitVec.ofNat 64 (NICE_TO_WEIGHT.getD (nice.val + 20).toNat 0)

/-- `NICE_0_WEIGHT = nice_to_weight(0)`. -/
def NICE_0_WEIGHT : Usize := 1024#64

example : nice_to_weight ⟨0, by decide, by decide⟩ = NICE_0_WEIGHT := by decide

/-! ## `calc_delta` -/

/-- One `while (fact >> 32) != 0 { fact >>= 1; shift -= 1; }` loop of `calc_delta`, with
`n` rounds of fuel. -/
def calc_delta.shift_down : Nat → Usize → Usize → Usize × Usize
  | 0, fact, shift => (fact, shift)
  | n + 1, fact, shift =>
    if fact >>> 32 ≠ 0 then calc_delta.shift_down n (fact >>> 1) (shift - 1) else (fact, shift)

/-- The loop leaves the top half clear: a 64-bit word needs at most 32 right shifts, so
64 rounds of fuel are never used up and the bounded loop exits where the source's does. -/
theorem shift_down_done : ∀ (n : Nat) (fact shift : Usize), fact.toNat < 2 ^ (32 + n) →
    (calc_delta.shift_down n fact shift).1 >>> 32 = 0
  | 0, fact, shift, h => by
    simp only [calc_delta.shift_down]
    bv_omega
  | n + 1, fact, shift, h => by
    simp only [calc_delta.shift_down]
    split
    · apply shift_down_done n
      rw [BitVec.toNat_ushiftRight, Nat.shiftRight_eq_div_pow, pow_one]
      rw [show 32 + (n + 1) = (32 + n) + 1 by ring, pow_succ] at h
      omega
    · rename_i hz
      simpa using hz

/-- `calc_delta(delta_exec, weight, lw)`: `delta_exec * weight / lw.weight` computed as
`(delta_exec * (weight * lw.inv_weight())) >> WMULT_SHIFT` with the factor kept below
`2^32`. The product is taken in `u128`; the shift of a `u128` by a `usize` wraps its count
to the low seven bits in release mode; `as usize` keeps the low 64 bits. -/
def calc_delta (delta_exec weight : Usize) (lw : LoadWeight) : Usize :=
  let (fact, shift) := calc_delta.shift_down 64 weight LoadWeight.WMULT_SHIFT
  let fact := fact * (lw.inv_weight_of).setWidth 64
  let (fact, shift) := calc_delta.shift_down 64 fact shift
  ((delta_exec.setWidth 128 * fact.setWidth 128) >>> (shift.toNat % 128)).setWidth 64

/-- `sched_period(nr_running)`: `SCHED_LATENCY`, stretched to `nr * SCHED_MIN_GRANULARITY`
past `SCHED_NR_LATENCY` tasks. -/
def sched_period (nr_running : Usize) : Usize :=
  if nr_running > SCHED_NR_LATENCY then nr_running * SCHED_MIN_GRANULARITY else SCHED_LATENCY

end Queen.Executor
