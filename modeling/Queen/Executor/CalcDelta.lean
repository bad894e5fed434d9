/-
How close `calc_delta`, `kernel/src/task/executor/mod.rs`, comes to
`delta_exec * weight / lw.weight`.

`calc_delta` multiplies by `weight * inv` with `inv = WMULT_CONST / lw.weight`, a 32-bit
reciprocal, and shifts by `WMULT_SHIFT = 32`; its two loops halve the factor and lower the
shift until the factor fits in 32 bits. For a weight below `2 ^ 32` the first loop does
nothing, and the second halves `k ≤ 32` times, so the shift ends at `32 - k` and never wraps
(`calc_delta.factor_spec`). The two shifts compose to one division by `2 ^ 32`, so the result
is at most `delta_exec * weight * inv / 2 ^ 32`, which is below the exact quotient because
`inv * lw.weight ≤ 2 ^ 32` (`calc_delta.inv_weight_of_mul_le_pow`).

That last step needs `lw.weight ≤ 2 ^ 32`: up to `WMULT_CONST` by the division, and at
`2 ^ 32` because `inv_weight()` is then `1`. Past it the result is still
`delta_exec * weight / 2 ^ 32`, above the exact quotient (`calc_delta_exceeds_heavy_queue`). When also `weight ≤ lw.weight`, the factor already fits
and `inv * lw.weight > WMULT_CONST - lw.weight` bounds the result from below
(`calc_delta.mul_le_wide`).
-/
import Queen.Executor.Weight

set_option autoImplicit false

namespace Queen.Executor

namespace calc_delta

/-! ## The loops -/

/-- A word whose top half is clear leaves the loop as it is. -/
theorem shift_down_of_lt {fact : Usize} (h : fact.toNat < 2 ^ 32) :
    ∀ (n : Nat) (shift : Usize), shift_down n fact shift = (fact, shift)
  | 0, _ => rfl
  | n + 1, shift => by
    have hz : fact >>> 32 = 0 := by bv_omega
    simp only [shift_down, hz, ne_eq, not_true_eq_false, if_false]

/-- What the loop does to a word below `2 ^ (32 + j)`, with fuel and shift for `j` rounds:
`k ≤ j` halvings, the shift lowered by `k` without wrapping, and the top half clear. -/
theorem shift_down_spec :
    ∀ (n j : Nat) (fact shift : Usize), fact.toNat < 2 ^ (32 + j) → j ≤ n → j ≤ shift.toNat →
      ∃ k ≤ j, (shift_down n fact shift).1.toNat = fact.toNat / 2 ^ k ∧
        (shift_down n fact shift).2.toNat = shift.toNat - k ∧ fact.toNat / 2 ^ k < 2 ^ 32
  | 0, j, fact, shift, hfact, hj, _ => by
    obtain rfl : j = 0 := by omega
    exact ⟨0, le_rfl, by simp [shift_down], by simp [shift_down], by simpa using hfact⟩
  | n + 1, j, fact, shift, hfact, hj, hs => by
    by_cases htop : fact.toNat < 2 ^ 32
    · refine ⟨0, Nat.zero_le _, ?_, ?_, by simpa using htop⟩ <;>
        simp [shift_down_of_lt htop]
    · -- the top half is set: one halving, and `j - 1` rounds left for the rest
      have hz : fact >>> 32 ≠ 0 := by bv_omega
      have hj0 : 0 < j := by
        by_contra h0
        rw [Nat.eq_zero_of_not_pos h0, Nat.add_zero] at hfact
        exact htop hfact
      have hhalf : (fact >>> 1).toNat = fact.toNat / 2 := by
        rw [BitVec.toNat_ushiftRight, Nat.shiftRight_eq_div_pow, pow_one]
      have hdec : (shift - 1).toNat = shift.toNat - 1 := Usize.toNat_sub_of_le (by bv_omega)
      have hfact' : (fact >>> 1).toNat < 2 ^ (32 + (j - 1)) := by
        rw [hhalf, Nat.div_lt_iff_lt_mul (by norm_num), ← pow_succ]
        rwa [show 32 + (j - 1) + 1 = 32 + j by omega]
      obtain ⟨k, hk, h₁, h₂, h₃⟩ :=
        shift_down_spec n (j - 1) (fact >>> 1) (shift - 1) hfact' (by omega) (by omega)
      simp only [shift_down, ne_eq, hz, not_false_eq_true, if_true]
      rw [hhalf, Nat.div_div_eq_div_mul, ← pow_succ'] at h₁ h₃
      exact ⟨k + 1, by omega, h₁, by rw [h₂, hdec]; omega, h₃⟩


/-! ## The factor and the product -/

/-- The factor and the shift `calc_delta` multiplies and shifts by: both loops, with the
reciprocal between them. -/
def factor (weight : Usize) (lw : LoadWeight) : Usize × Usize :=
  let (fact, shift) := shift_down 64 weight LoadWeight.WMULT_SHIFT
  shift_down 64 (fact * (lw.inv_weight_of).setWidth 64) shift

/-- The `u128` value `calc_delta` casts to `usize`. -/
def wide (delta_exec weight : Usize) (lw : LoadWeight) : BitVec 128 :=
  let (fact, shift) := factor weight lw
  (delta_exec.setWidth 128 * fact.setWidth 128) >>> (shift.toNat % 128)

theorem eq_setWidth_wide (delta_exec weight : Usize) (lw : LoadWeight) :
    calc_delta delta_exec weight lw = (wide delta_exec weight lw).setWidth 64 := rfl

variable {delta_exec weight : Usize} {lw : LoadWeight}

/-- `inv_weight()` of a weight in `[1, WMULT_CONST]` with no cached inverse. -/
theorem inv_weight_of_toNat (hinv : lw.inv_weight = none) (hlw : 1 ≤ lw.weight.toNat)
    (hlw32 : lw.weight.toNat < 2 ^ 32) :
    lw.inv_weight_of.toNat = (2 ^ 32 - 1) / lw.weight.toNat := by
  have hconst : LoadWeight.WMULT_CONST.toNat = 2 ^ 32 - 1 := by decide
  have hne : lw.weight ≠ 0 := by bv_omega
  have hle : lw.weight ≤ LoadWeight.WMULT_CONST.setWidth 64 := by
    rw [BitVec.le_def, BitVec.toNat_setWidth, hconst]
    omega
  simp only [LoadWeight.inv_weight_of, hinv, hne, if_false, if_pos hle, BitVec.toNat_udiv, hconst,
    BitVec.toNat_setWidth, Nat.mod_eq_of_lt hlw32]

/-- The product of the weight and the reciprocal, taken in a `usize`, does not wrap. -/
theorem toNat_mul_inv_weight_of (hw : weight.toNat < 2 ^ 32) :
    (weight * lw.inv_weight_of.setWidth 64).toNat = weight.toNat * lw.inv_weight_of.toNat := by
  have hinv := lw.inv_weight_of.isLt
  rw [BitVec.toNat_mul, BitVec.toNat_setWidth,
    Nat.mod_eq_of_lt (show lw.inv_weight_of.toNat < 2 ^ 64 by omega), Nat.mod_eq_of_lt]
  calc weight.toNat * lw.inv_weight_of.toNat < 2 ^ 32 * 2 ^ 32 :=
        Nat.mul_lt_mul'' hw hinv
    _ = 2 ^ 64 := by norm_num

/-- **The loops of `calc_delta`.** For a weight below `2 ^ 32` the first loop does nothing,
and the second halves `weight * inv` some `k ≤ 32` times and leaves the shift at `32 - k`. -/
theorem factor_spec (lw : LoadWeight) (hw : weight.toNat < 2 ^ 32) :
    ∃ k ≤ 32, (factor weight lw).1.toNat = weight.toNat * lw.inv_weight_of.toNat / 2 ^ k ∧
      (factor weight lw).2.toNat = 32 - k ∧ weight.toNat * lw.inv_weight_of.toNat / 2 ^ k < 2 ^ 32 := by
  have hF : (weight * lw.inv_weight_of.setWidth 64).toNat = weight.toNat * lw.inv_weight_of.toNat :=
    toNat_mul_inv_weight_of hw
  have hlt : (weight * lw.inv_weight_of.setWidth 64).toNat < 2 ^ (32 + 32) := by
    simpa using (weight * lw.inv_weight_of.setWidth 64).isLt
  obtain ⟨k, hk, h₁, h₂, h₃⟩ := shift_down_spec 64 32 _ LoadWeight.WMULT_SHIFT hlt (by norm_num) le_rfl
  simp only [factor, shift_down_of_lt hw]
  rw [hF] at h₁ h₃
  exact ⟨k, hk, h₁, h₂, h₃⟩

/-- The product of `delta_exec` and a 32-bit factor fits in the `u128`, so `wide` is the
product shifted. -/
theorem wide_toNat (h₁ : (factor weight lw).1.toNat < 2 ^ 32) (h₂ : (factor weight lw).2.toNat < 128) :
    (wide delta_exec weight lw).toNat =
      delta_exec.toNat * (factor weight lw).1.toNat / 2 ^ (factor weight lw).2.toNat := by
  rcases hp : factor weight lw with ⟨fact, shift⟩
  rw [hp] at h₁ h₂
  dsimp only at h₁ h₂ ⊢
  have hd := delta_exec.isLt
  have hprod : delta_exec.toNat * fact.toNat < 2 ^ 128 :=
    calc delta_exec.toNat * fact.toNat < 2 ^ 64 * 2 ^ 32 := Nat.mul_lt_mul'' hd h₁
      _ ≤ 2 ^ 128 := by norm_num
  simp only [wide, hp, BitVec.toNat_ushiftRight, BitVec.toNat_mul, BitVec.toNat_setWidth,
    Nat.shiftRight_eq_div_pow, Nat.mod_eq_of_lt (show delta_exec.toNat < 2 ^ 128 by omega),
    Nat.mod_eq_of_lt (show fact.toNat < 2 ^ 128 by omega), Nat.mod_eq_of_lt hprod,
    Nat.mod_eq_of_lt h₂]

/-- Two shifts adding up to `32` divide by `2 ^ 32`, rounding down no higher. -/
theorem div_div_pow_le (d F k : Nat) (hk : k ≤ 32) :
    d * (F / 2 ^ k) / 2 ^ (32 - k) ≤ d * F / 2 ^ 32 :=
  calc d * (F / 2 ^ k) / 2 ^ (32 - k) ≤ d * F / 2 ^ k / 2 ^ (32 - k) :=
        Nat.div_le_div_right (Nat.mul_div_le_mul_div_assoc d F _)
    _ = d * F / 2 ^ 32 := by rw [Nat.div_div_eq_div_mul, ← pow_add, Nat.add_sub_cancel' hk]

/-- With the loops' bounds, `wide` is at most `delta_exec * weight * inv / 2 ^ 32`. -/
theorem wide_le (hw : weight.toNat < 2 ^ 32) :
    (wide delta_exec weight lw).toNat ≤ delta_exec.toNat * (weight.toNat * lw.inv_weight_of.toNat) / 2 ^ 32 := by
  obtain ⟨k, hk, h₁, h₂, h₃⟩ := factor_spec lw hw
  rw [wide_toNat (by omega) (by omega), h₁, h₂]
  exact div_div_pow_le _ _ _ hk

/-! ## The reciprocal -/

section Reciprocal

variable (hinv : lw.inv_weight = none) (hlw : 1 ≤ lw.weight.toNat) (hlw32 : lw.weight.toNat < 2 ^ 32)
include hinv hlw hlw32

/-- The reciprocal times the weight stays within `WMULT_CONST`. -/
theorem inv_weight_of_mul_le : lw.inv_weight_of.toNat * lw.weight.toNat ≤ 2 ^ 32 - 1 := by
  rw [inv_weight_of_toNat hinv hlw hlw32]
  exact Nat.div_mul_le_self _ _

/-- The reciprocal times the weight falls short of `2 ^ 32` by at most the weight. -/
theorem le_inv_weight_of_mul_add : 2 ^ 32 ≤ lw.inv_weight_of.toNat * lw.weight.toNat + lw.weight.toNat := by
  have h := Nat.lt_div_mul_add (a := 2 ^ 32 - 1) hlw
  rw [inv_weight_of_toNat hinv hlw hlw32]
  omega

end Reciprocal

/-- For every weight in `[1, 2 ^ 32]` the reciprocal times the weight stays within `2 ^ 32`:
below `WMULT_CONST` by the division, and at `2 ^ 32`, past `WMULT_CONST`, where `inv_weight()`
is `1`. -/
theorem inv_weight_of_mul_le_pow (hinv : lw.inv_weight = none) (hlw : 1 ≤ lw.weight.toNat)
    (hlw32 : lw.weight.toNat ≤ 2 ^ 32) : lw.inv_weight_of.toNat * lw.weight.toNat ≤ 2 ^ 32 := by
  by_cases hlt : lw.weight.toNat < 2 ^ 32
  · have := inv_weight_of_mul_le hinv hlw hlt
    omega
  · have hconst : (LoadWeight.WMULT_CONST.setWidth 64).toNat = 2 ^ 32 - 1 := by decide
    have hne : lw.weight ≠ 0 := by bv_omega
    have hgt : ¬ lw.weight ≤ LoadWeight.WMULT_CONST.setWidth 64 := by
      rw [BitVec.le_def, hconst]
      omega
    have hone : lw.inv_weight_of = 1 := by
      unfold LoadWeight.inv_weight_of
      rw [hinv]
      simp only [hne, if_false, hgt]
    have h1 : (1 : BitVec 32).toNat = 1 := rfl
    rw [hone, h1, one_mul]
    exact hlw32

/-! ## The bounds -/

/-- The cast to `usize` only lowers the value. -/
theorem toNat_le_wide : (calc_delta delta_exec weight lw).toNat ≤ (wide delta_exec weight lw).toNat := by
  rw [eq_setWidth_wide, BitVec.toNat_setWidth]
  exact Nat.mod_le _ _

/-- **Upper bound, at `Nat` level**: `wide * lw.weight ≤ delta_exec * weight`, for every
weight up to `2 ^ 32`. -/
theorem wide_mul_le (delta_exec : Usize) (hw : weight.toNat < 2 ^ 32) (hinv : lw.inv_weight = none)
    (hlw : 1 ≤ lw.weight.toNat) (hlw32 : lw.weight.toNat ≤ 2 ^ 32) :
    (wide delta_exec weight lw).toNat * lw.weight.toNat ≤ delta_exec.toNat * weight.toNat := by
  have hmul := inv_weight_of_mul_le_pow hinv hlw hlw32
  have hwide : (wide delta_exec weight lw).toNat * 2 ^ 32 ≤
      delta_exec.toNat * (weight.toNat * lw.inv_weight_of.toNat) :=
    (Nat.le_div_iff_mul_le (by norm_num)).mp (wide_le hw)
  refine Nat.le_of_mul_le_mul_right ?_ (show 0 < 2 ^ 32 by norm_num)
  calc (wide delta_exec weight lw).toNat * lw.weight.toNat * 2 ^ 32
      = (wide delta_exec weight lw).toNat * 2 ^ 32 * lw.weight.toNat := by ring
    _ ≤ delta_exec.toNat * (weight.toNat * lw.inv_weight_of.toNat) * lw.weight.toNat :=
        Nat.mul_le_mul_right _ hwide
    _ = delta_exec.toNat * weight.toNat * (lw.inv_weight_of.toNat * lw.weight.toNat) := by ring
    _ ≤ delta_exec.toNat * weight.toNat * 2 ^ 32 := Nat.mul_le_mul_left _ hmul

section RunQueue

variable (hw : weight.toNat < 2 ^ 32) (hinv : lw.inv_weight = none) (hlw : 1 ≤ lw.weight.toNat)
  (hlw32 : lw.weight.toNat < 2 ^ 32) (hle : weight.toNat ≤ lw.weight.toNat)
include hw hinv hlw hlw32 hle

omit hw in
/-- With `weight ≤ lw.weight`, `weight * inv` already fits in 32 bits. -/
theorem mul_inv_weight_of_lt : weight.toNat * lw.inv_weight_of.toNat < 2 ^ 32 := by
  have hmul := inv_weight_of_mul_le hinv hlw hlw32
  calc weight.toNat * lw.inv_weight_of.toNat ≤ lw.weight.toNat * lw.inv_weight_of.toNat :=
        Nat.mul_le_mul_right _ hle
    _ < 2 ^ 32 := by rw [Nat.mul_comm]; omega

/-- So neither loop runs. -/
theorem factor_of_le :
    factor weight lw = (weight * lw.inv_weight_of.setWidth 64, LoadWeight.WMULT_SHIFT) := by
  have hfits : (weight * lw.inv_weight_of.setWidth 64).toNat < 2 ^ 32 := by
    rw [toNat_mul_inv_weight_of hw]
    exact mul_inv_weight_of_lt hinv hlw hlw32 hle
  simp only [factor, shift_down_of_lt hw, shift_down_of_lt hfits]

/-- There `wide` is `delta_exec * weight * inv / 2 ^ 32`, rounded down once. -/
theorem wide_toNat_of_le :
    (wide delta_exec weight lw).toNat =
      delta_exec.toNat * (weight.toNat * lw.inv_weight_of.toNat) / 2 ^ 32 := by
  have hfactor := factor_of_le hw hinv hlw hlw32 hle
  have hfits := mul_inv_weight_of_lt hinv hlw hlw32 hle
  have hshift : LoadWeight.WMULT_SHIFT.toNat = 32 := rfl
  rw [wide_toNat (by rw [hfactor, toNat_mul_inv_weight_of hw]; exact hfits)
    (by rw [hfactor, hshift]; norm_num), hfactor, toNat_mul_inv_weight_of hw, hshift]
/-- **Lower bound, at `Nat` level**: `wide` falls short of `delta_exec * weight / lw.weight`
by at most `delta_exec * weight / 2 ^ 32` (the reciprocal's rounding) and `1` (the shift's). -/
theorem mul_le_wide (delta_exec : Usize) :
    delta_exec.toNat * weight.toNat * 2 ^ 32 ≤
      ((wide delta_exec weight lw).toNat + 1) * lw.weight.toNat * 2 ^ 32 +
        delta_exec.toNat * weight.toNat * lw.weight.toNat := by
  have hlow := le_inv_weight_of_mul_add hinv hlw hlw32
  have hfloor := Nat.lt_div_mul_add (a := delta_exec.toNat * (weight.toNat * lw.inv_weight_of.toNat))
    (show 0 < 2 ^ 32 by norm_num)
  rw [← wide_toNat_of_le hw hinv hlw hlw32 hle] at hfloor
  calc delta_exec.toNat * weight.toNat * 2 ^ 32
      ≤ delta_exec.toNat * weight.toNat * (lw.inv_weight_of.toNat * lw.weight.toNat + lw.weight.toNat) :=
        Nat.mul_le_mul_left _ hlow
    _ = delta_exec.toNat * (weight.toNat * lw.inv_weight_of.toNat) * lw.weight.toNat +
          delta_exec.toNat * weight.toNat * lw.weight.toNat := by ring
    _ ≤ ((wide delta_exec weight lw).toNat * 2 ^ 32 + 2 ^ 32) * lw.weight.toNat +
          delta_exec.toNat * weight.toNat * lw.weight.toNat :=
        Nat.add_le_add_right (Nat.mul_le_mul_right _ hfloor.le) _
    _ = ((wide delta_exec weight lw).toNat + 1) * lw.weight.toNat * 2 ^ 32 +
          delta_exec.toNat * weight.toNat * lw.weight.toNat := by ring

/-- `wide` is at most `delta_exec`, so the cast to `usize` keeps it. -/
theorem wide_le_delta_exec : (wide delta_exec weight lw).toNat ≤ delta_exec.toNat := by
  have hfits := mul_inv_weight_of_lt hinv hlw hlw32 hle
  rw [wide_toNat_of_le hw hinv hlw hlw32 hle]
  refine Nat.div_le_of_le_mul ?_
  calc delta_exec.toNat * (weight.toNat * lw.inv_weight_of.toNat) ≤ delta_exec.toNat * 2 ^ 32 :=
        Nat.mul_le_mul_left _ hfits.le
    _ = 2 ^ 32 * delta_exec.toNat := Nat.mul_comm _ _

theorem toNat_eq_wide :
    (calc_delta delta_exec weight lw).toNat = (wide delta_exec weight lw).toNat := by
  have hle' : (wide delta_exec weight lw).toNat ≤ delta_exec.toNat :=
    wide_le_delta_exec hw hinv hlw hlw32 hle
  rw [eq_setWidth_wide, BitVec.toNat_setWidth, Nat.mod_eq_of_lt (by omega)]

end RunQueue

end calc_delta

/-- **`calc_delta` under-approximates `delta_exec * weight / lw.weight`.** For a weight below
`2 ^ 32` and every load weight, the first loop does nothing and the second shifts `k ≤ 32`
times, leaving the shift at `32 - k`: the counter never wraps. With no cached inverse and a
load weight in `[1, 2 ^ 32]` the result is at most the exact quotient. In the run-queue case
`weight ≤ lw.weight < 2 ^ 32` it loses at most `delta_exec * weight / 2 ^ 32 + 1`, is at most
`delta_exec`, and the cast to `usize` keeps the `u128` value. -/
theorem calc_delta_bounds (delta_exec weight : Usize) (lw : LoadWeight)
    (hw : weight.toNat < 2 ^ 32) :
    calc_delta.shift_down 64 weight LoadWeight.WMULT_SHIFT = (weight, LoadWeight.WMULT_SHIFT) ∧
    (∃ k ≤ 32, (calc_delta.factor weight lw).1.toNat = weight.toNat * lw.inv_weight_of.toNat / 2 ^ k ∧
      (calc_delta.factor weight lw).2.toNat = 32 - k) ∧
    (lw.inv_weight = none → 1 ≤ lw.weight.toNat → lw.weight.toNat ≤ 2 ^ 32 →
      ((calc_delta delta_exec weight lw).toNat : ℚ) ≤ delta_exec.toNat * weight.toNat / lw.weight.toNat) ∧
    (lw.inv_weight = none → 1 ≤ lw.weight.toNat → lw.weight.toNat < 2 ^ 32 →
      weight.toNat ≤ lw.weight.toNat →
      (delta_exec.toNat * weight.toNat / lw.weight.toNat : ℚ) - delta_exec.toNat * weight.toNat / 2 ^ 32 - 1 ≤
        (calc_delta delta_exec weight lw).toNat ∧
      (calc_delta delta_exec weight lw).toNat ≤ delta_exec.toNat ∧
      (calc_delta.wide delta_exec weight lw).toNat = (calc_delta delta_exec weight lw).toNat) := by
  refine ⟨calc_delta.shift_down_of_lt hw 64 _, ?_, fun hinv hlw hlw32 => ?_,
    fun hinv hlw hlw32 hle => ⟨?_, ?_, ?_⟩⟩
  · obtain ⟨k, hk, h₁, h₂, -⟩ := calc_delta.factor_spec lw hw
    exact ⟨k, hk, h₁, h₂⟩
  · -- the cast lowers the value, and `wide` is below the quotient
    have hW : (0 : ℚ) < lw.weight.toNat := by exact_mod_cast hlw
    have hnat := (Nat.mul_le_mul_right lw.weight.toNat calc_delta.toNat_le_wide).trans
      (calc_delta.wide_mul_le delta_exec hw hinv hlw hlw32)
    rw [le_div_iff₀ hW]
    exact_mod_cast hnat
  · have hW : (0 : ℚ) < lw.weight.toNat := by exact_mod_cast hlw
    have hnat := calc_delta.mul_le_wide hw hinv hlw hlw32 hle delta_exec
    rw [calc_delta.toNat_eq_wide hw hinv hlw hlw32 hle]
    have hq : ((delta_exec.toNat * weight.toNat * 2 ^ 32 : ℕ) : ℚ) ≤
        (((calc_delta.wide delta_exec weight lw).toNat + 1) * lw.weight.toNat * 2 ^ 32 +
          delta_exec.toNat * weight.toNat * lw.weight.toNat : ℕ) := by
      exact_mod_cast hnat
    push_cast at hq
    rw [div_sub_div _ _ hW.ne' (by norm_num), sub_le_iff_le_add, div_le_iff₀ (by positivity)]
    linarith
  · rw [calc_delta.toNat_eq_wide hw hinv hlw hlw32 hle]
    exact calc_delta.wide_le_delta_exec hw hinv hlw hlw32 hle
  · exact (calc_delta.toNat_eq_wide hw hinv hlw hlw32 hle).symm

/-- One of three nice-`0` tasks on a run queue: its share of `SCHED_LATENCY` comes out one
nanosecond short of a third. -/
theorem calc_delta_bounds_three_tasks :
    let lw := LoadWeight.new 3072#64
    (calc_delta SCHED_LATENCY NICE_0_WEIGHT lw).toNat = 1999999 ∧ NICE_0_WEIGHT.toNat < 2 ^ 32 ∧
    (calc_delta.shift_down 64 NICE_0_WEIGHT LoadWeight.WMULT_SHIFT = (NICE_0_WEIGHT, LoadWeight.WMULT_SHIFT) ∧
    (∃ k ≤ 32, (calc_delta.factor NICE_0_WEIGHT lw).1.toNat =
        NICE_0_WEIGHT.toNat * lw.inv_weight_of.toNat / 2 ^ k ∧
      (calc_delta.factor NICE_0_WEIGHT lw).2.toNat = 32 - k) ∧
    (lw.inv_weight = none → 1 ≤ lw.weight.toNat → lw.weight.toNat ≤ 2 ^ 32 →
      ((calc_delta SCHED_LATENCY NICE_0_WEIGHT lw).toNat : ℚ) ≤
        SCHED_LATENCY.toNat * NICE_0_WEIGHT.toNat / lw.weight.toNat) ∧
    (lw.inv_weight = none → 1 ≤ lw.weight.toNat → lw.weight.toNat < 2 ^ 32 →
      NICE_0_WEIGHT.toNat ≤ lw.weight.toNat →
      (SCHED_LATENCY.toNat * NICE_0_WEIGHT.toNat / lw.weight.toNat : ℚ) -
          SCHED_LATENCY.toNat * NICE_0_WEIGHT.toNat / 2 ^ 32 - 1 ≤
        (calc_delta SCHED_LATENCY NICE_0_WEIGHT lw).toNat ∧
      (calc_delta SCHED_LATENCY NICE_0_WEIGHT lw).toNat ≤ SCHED_LATENCY.toNat ∧
      (calc_delta.wide SCHED_LATENCY NICE_0_WEIGHT lw).toNat =
        (calc_delta SCHED_LATENCY NICE_0_WEIGHT lw).toNat)) :=
  ⟨by decide, by decide, calc_delta_bounds SCHED_LATENCY NICE_0_WEIGHT (LoadWeight.new 3072#64)
    (by decide)⟩

/-- Past `WMULT_CONST` the reciprocal is `1` and nothing divides by `lw.weight`: for a weight
of `1` against `lw.weight = 2 ^ 40`, `calc_delta(2 ^ 32, 1, lw)` is `1`, where the quotient
is `1 / 256`. -/
theorem calc_delta_exceeds_heavy_queue :
    let lw : LoadWeight := ⟨BitVec.ofNat 64 (2 ^ 40), none⟩
    (1#64 : Usize).toNat < 2 ^ 32 ∧ 1 ≤ lw.weight.toNat ∧ lw.inv_weight = none ∧
      (calc_delta (BitVec.ofNat 64 (2 ^ 32)) 1#64 lw).toNat = 1 ∧
      ¬ ((calc_delta (BitVec.ofNat 64 (2 ^ 32)) 1#64 lw).toNat : ℚ) ≤
        (BitVec.ofNat 64 (2 ^ 32) : Usize).toNat * (1#64 : Usize).toNat / lw.weight.toNat := by
  intro lw
  have hone : (calc_delta (BitVec.ofNat 64 (2 ^ 32)) 1#64 lw).toNat = 1 := by decide
  refine ⟨by decide, by decide, rfl, hone, ?_⟩
  rw [hone]
  norm_num [lw]

end Queen.Executor
