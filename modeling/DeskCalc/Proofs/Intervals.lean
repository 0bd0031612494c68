import DeskCalc.Decimal.Shortest
import DeskCalc.Proofs.Nearest

/-!
# The interval of a pattern

**Theorem (`holds_iff_within`).** The interval of a pattern holds exactly the numbers that are rounded to
its double.

The search for the shortest decimal compares whole numbers, in units of `2 ^ -1076 * 10 ^ -324`. Counted
in these, an end of the interval is the middle towards the neighbour on that side, also below a power of
two, where the neighbour is only half as far away. The grids of the search are those of the powers of
ten.
-/

namespace DeskCalc

namespace Binary64

open Shortest (Holds gridStep)

/-- The unit that the intervals are counted in. -/
def grain : ℚ := smallest / (4 * 10 ^ 324)

theorem grain_pos : 0 < grain := div_pos smallest_pos (by positivity)

theorem mul_ten_pow_grain (n : ℕ) : ((n * 10 ^ 324 : ℕ) : ℚ) * grain = n * smallest / 4 := by
  have hscale (k : ℕ) : ((n * 10 ^ k : ℕ) : ℚ) * (smallest / (4 * 10 ^ k)) = n * smallest / 4 := by
    push_cast
    field_simp
  exact hscale 324

/-- The points of a grid are the multiples of its power of ten. -/
theorem mul_gridStep_grain (c j : ℕ) :
    ((c * gridStep j : ℕ) : ℚ) * grain = c * 10 ^ ((j : ℤ) - 324) := by
  have hquarters : 2 ^ 1076 = 4 * 2 ^ 1074 := by decide +kernel
  have hunit (k : ℕ) : ((c * 4 * 10 ^ j : ℕ) : ℚ) / (4 * 10 ^ k) = c * 10 ^ ((j : ℤ) - k) := by
    rw [zpow_sub₀ (by norm_num), zpow_natCast, zpow_natCast]
    push_cast
    field_simp
  have hstep : c * gridStep j = c * 4 * 10 ^ j * 2 ^ 1074 := by
    rw [gridStep, hquarters]
    generalize 2 ^ 1074 = scale
    ring
  rw [hstep, grain, mul_div_assoc', natCast_mul_smallest]
  exact hunit 324

/-- The last grid is about five times as fine as the doubles are at zero. -/
theorem finest_bounds :
    2024 * smallest ≤ 10000 * 10 ^ (-324 : ℤ) ∧ 10000 * 10 ^ (-324 : ℤ) ≤ 2025 * smallest := by
  have hgrid (k : ℕ) : (10000 * 10 ^ (-(k + 4 : ℕ) : ℤ) * (10 ^ k : ℕ) : ℚ) = 1 := by
    rw [zpow_neg, zpow_natCast, pow_add]
    push_cast
    field_simp
    norm_num
  have hunit := (hgrid 320).trans two_pow_mul_smallest.symm
  have hpos (k : ℕ) : (0 : ℚ) < (10 ^ k : ℕ) := by positivity
  replace hpos := hpos 320
  have hlow : 2024 * 10 ^ 320 ≤ 2 ^ 1074 := by decide +kernel
  have hhigh : 2 ^ 1074 ≤ 2025 * 10 ^ 320 := by decide +kernel
  have hscale := smallest_pos.le
  generalize 2 ^ 1074 = n at hunit hlow hhigh
  generalize 10 ^ 320 = d at hunit hpos hlow hhigh
  constructor
  · refine le_of_mul_le_mul_right (le_trans ?_ hunit.ge) hpos
    rw [mul_right_comm]
    exact mul_le_mul_of_nonneg_right (by exact_mod_cast hlow) hscale
  · refine le_of_mul_le_mul_right (hunit.le.trans ?_) hpos
    rw [mul_right_comm]
    exact mul_le_mul_of_nonneg_right (by exact_mod_cast hhigh) hscale

section Ends

variable {p : ℕ}

/-- How far the interval of a pattern reaches down, in quarters of its step. -/
def reach (p : ℕ) : ℕ := if p % 2 ^ 52 = 0 ∧ 2 ^ 53 ≤ p then 1 else 2

/-- That is half a step of the pattern below. -/
theorem reach_succ (p : ℕ) : reach (p + 1) * 2 ^ stepExponent (p + 1) = 2 * 2 ^ stepExponent p := by
  unfold reach
  by_cases hbottom : (p + 1) % 2 ^ 52 = 0 ∧ 2 ^ 53 ≤ p + 1
  · have hstep : stepExponent (p + 1) = stepExponent p + 1 := by
      unfold stepExponent
      omega
    rw [if_pos hbottom, hstep]
    ring
  · have hstep : stepExponent (p + 1) = stepExponent p := by
      unfold stepExponent
      omega
    rw [if_neg hbottom, hstep]

theorem interval_value (p : ℕ) : (interval p).value = 4 * scaled p * 10 ^ 324 := by
  simp only [interval, scaled, Nat.mul_assoc]

theorem interval_high (p : ℕ) :
    (interval p).high = 2 * (scaled p + scaled (p + 1)) * 10 ^ 324 := by
  have hend : (4 * significand p + 2) * 2 ^ stepExponent p = 2 * (scaled p + scaled (p + 1)) := by
    rw [scaled_succ, scaled]
    ring
  rw [← hend]
  rfl

theorem interval_low (p : ℕ) :
    (interval (p + 1)).low = 2 * (scaled p + scaled (p + 1)) * 10 ^ 324 := by
  have hnext := scaled_succ p
  have hreach := reach_succ p
  have hend : (4 * significand (p + 1) - reach (p + 1)) * 2 ^ stepExponent (p + 1)
      = 2 * (scaled p + scaled (p + 1)) := by
    rw [Nat.sub_mul, hreach, Nat.mul_assoc, ← scaled]
    omega
  rw [← hend]
  rfl

theorem interval_closed (p : ℕ) : (interval p).closed = true ↔ p % 2 = 0 := by
  have hpattern := pattern_eq p
  show (significand p % 2 == 0) = true ↔ _
  rw [beq_iff_eq]
  omega

theorem value_grain (p : ℕ) : (interval p).value * grain = value p := by
  rw [interval_value, mul_ten_pow_grain, value]
  push_cast
  ring

theorem middle_grain (p : ℕ) :
    ((2 * (scaled p + scaled (p + 1)) * 10 ^ 324 : ℕ) : ℚ) * grain = middle p := by
  rw [mul_ten_pow_grain, middle, value, value]
  push_cast
  ring

/-- **The interval.** It holds exactly the numbers between the middles around its pattern. -/
theorem holds_iff_within (hpos : 0 < p) (x : ℕ) : Holds (interval p) x ↔ Within p (x * grain) := by
  obtain ⟨m, rfl⟩ := Nat.exists_eq_add_one_of_ne_zero hpos.ne'
  have hlow : middle m = (interval (m + 1)).low * grain := by rw [interval_low, middle_grain]
  have hhigh : middle (m + 1) = (interval (m + 1)).high * grain := by
    rw [interval_high, middle_grain]
  have hbelow (r : ℕ) : m + 1 = r + 1 ↔ r = m := by omega
  simp only [Within, hbelow, forall_eq, hlow, hhigh, mul_lt_mul_iff_left₀ grain_pos,
    mul_left_inj' grain_pos.ne', Nat.cast_lt, Nat.cast_inj, ← interval_closed]
  unfold Holds
  split
  · next hclosed => simp only [hclosed, true_and, ← Nat.le_iff_lt_or_eq]
  · next hopen => simp [hopen]

end Ends

end Binary64

end DeskCalc
