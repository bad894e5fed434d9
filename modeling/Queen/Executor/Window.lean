/-
Where the wrap-around order of `VRuntime` is an order, `kernel/src/task/executor/mod.rs`.

`VRuntime::cmp` subtracts the two words as `isize`, wrapping, and compares the difference
with zero. Over all of `usize` that is no order: `0 < 2^62 < 2^63`, yet `2^63 < 0`, since
`0 - 2^63` wraps to `isize::MIN`. On the words of one half-range window
`{w, w + 1, …, w + 2^63 - 1}`, wrapping, it is the order of their distances from `w`
(`Usize.toInt_sub_of_window`), wherever the window straddles `0` or `2^63`.

`ReadyTask` reverses that order, so on a run queue whose vruntimes share a window, the
priority queue's `peek` (an item of greatest priority) finds a ready task of least distance
from the window's start: the least virtual runtime.
-/
import Queen.Executor.RunQueue

set_option autoImplicit false

namespace Queen.Executor

open PriorityQueue

/-- `a` lies in the window of `2 ^ 63` words from `w`, wrapping. -/
def InWindow (w : Usize) (a : VRuntime) : Prop := (a.val - w).toNat < 2 ^ 63

instance (w : Usize) (a : VRuntime) : Decidable (InWindow w a) :=
  inferInstanceAs (Decidable (_ < _))

namespace VRuntime

/-- How far `a` is above `w`, wrapping. -/
def dist (w : Usize) (a : VRuntime) : Nat := (a.val - w).toNat

/-- Comparing a difference with zero compares its two sides. -/
theorem compare_natCast_sub_zero (x y : Nat) : compare ((x : Int) - y) 0 = compare x y := by
  rcases lt_trichotomy x y with h | rfl | h
  · rw [compare_lt_iff_lt.2 h, compare_lt_iff_lt.2 (by omega)]
  · simp
  · rw [compare_gt_iff_gt.2 h, compare_gt_iff_gt.2 (by omega)]

variable {w : Usize} {a b : VRuntime}

/-- In a window, `delta a b` is the signed distance from `b` to `a`. -/
theorem delta_of_window (ha : InWindow w a) (hb : InWindow w b) :
    a.delta b = (dist w a : Int) - dist w b :=
  Usize.toInt_sub_of_window ha hb

theorem compare_of_window (ha : InWindow w a) (hb : InWindow w b) :
    compare a b = compare (dist w a) (dist w b) := by
  change compare (a.delta b) 0 = _
  rw [delta_of_window ha hb, compare_natCast_sub_zero]

/-- Two vruntimes at the same distance from one start are the same. -/
theorem eq_of_dist_eq (h : dist w a = dist w b) : a = b := by
  have hsub : a.val - w = b.val - w := BitVec.eq_of_toNat_eq h
  cases a
  cases b
  simpa using hsub

theorem comparesBy_window : ComparesBy (InWindow w) compare (dist w) :=
  fun ha hb => compare_of_window ha hb

end VRuntime

namespace ReadyTask

open VRuntime

variable {w : Usize} {r s : ReadyTask}

theorem compare_of_window (hr : InWindow w r.vruntime) (hs : InWindow w s.vruntime) :
    compare r s = compare (dist w s.vruntime) (dist w r.vruntime) := by
  change (compare r.vruntime s.vruntime).swap = _
  rw [VRuntime.compare_of_window hr hs, Nat.compare_swap]

/-- Ready tasks compare by the distance of their vruntimes, reversed: the order dual. -/
theorem comparesBy_window :
    ComparesBy (fun r : ReadyTask => InWindow w r.vruntime) compare
      (fun r => OrderDual.toDual (dist w r.vruntime)) :=
  fun hr hs => compare_of_window hr hs

end ReadyTask

open VRuntime

/-- **`RunQueue::peek` finds the least virtual runtime.** When every queued ready task's
vruntime lies in one window, `peek` gives one of least distance from the window's start. -/
theorem RunQueue.peek_least_of_window {w : Usize} (rq : RunQueue)
    (hrq : ∀ t r, get rq.ready_tasks t = some r → InWindow w r.vruntime)
    {e : Tid × ReadyTask} (he : rq.peek = some e) :
    ∀ t r, get rq.ready_tasks t = some r → dist w e.2.vruntime ≤ dist w r.vruntime := by
  intro t r hr
  exact OrderDual.toDual_le_toDual.mp (peek_greatest ReadyTask.comparesBy_window hrq he t r hr)

theorem vruntime_window_order (w : Usize) (a b : VRuntime) (ha : InWindow w a)
    (hb : InWindow w b) :
    TotalCmpOn (InWindow w) (compare : VRuntime → VRuntime → Ordering) ∧
    TotalCmpOn (fun r : ReadyTask => InWindow w r.vruntime) compare ∧
    compare a b = compare (dist w a) (dist w b) ∧
    (compare a b = .eq ↔ a = b) ∧
    (∀ ra rb : Runnable,
      compare (⟨a, ra⟩ : ReadyTask) ⟨b, rb⟩ = compare (dist w b) (dist w a)) ∧
    a.delta b = (dist w a : Int) - dist w b ∧
    ∀ rq : RunQueue, (∀ t r, get rq.ready_tasks t = some r → InWindow w r.vruntime) →
      ∀ e, rq.peek = some e →
        ∀ t r, get rq.ready_tasks t = some r → dist w e.2.vruntime ≤ dist w r.vruntime := by
  have hab := VRuntime.compare_of_window ha hb
  refine ⟨comparesBy_window.totalCmpOn, ReadyTask.comparesBy_window.totalCmpOn, hab,
    ?_, fun ra rb => ReadyTask.compare_of_window ha hb, delta_of_window ha hb,
    fun rq hrq e he => rq.peek_least_of_window hrq he⟩
  rw [hab, compare_eq_iff_eq]
  exact ⟨eq_of_dist_eq, fun h => h ▸ rfl⟩

/-- The window from `2 ^ 63 - 2` straddles the sign boundary: `2 ^ 63 + 7` is nine above
`2 ^ 63 - 2` and compares greater, though as `isize` it is negative and the other positive. -/
theorem vruntime_window_order_across_sign :
    let w : Usize := 0x7FFFFFFFFFFFFFFE
    let a : VRuntime := ⟨0x8000000000000007⟩
    let b : VRuntime := ⟨w⟩
    InWindow w a ∧ InWindow w b ∧ compare a b = .gt ∧ a.delta b = 9 := by
  intro w a b
  have ha : InWindow w a := by decide
  have hb : InWindow w b := by decide
  obtain ⟨-, -, hab, -, -, hdelta, -⟩ := vruntime_window_order w a b ha hb
  refine ⟨ha, hb, ?_, ?_⟩
  · rw [hab]
    decide
  · rw [hdelta]
    decide

end Queen.Executor
