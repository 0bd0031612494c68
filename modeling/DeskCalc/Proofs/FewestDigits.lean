import DeskCalc.Proofs.Grids

/-!
# The shortest decimal against all others

**Theorems (`count_le`, `shortest_closest`).** No decimal that is rounded to a double has fewer digits than
the shortest one, and of those with as many digits none is nearer to the double.

A decimal on the grid of the shortest one was seen by the search, and one on a coarser grid is not rounded
to the double. What the search did not see are decimals on finer grids. With as many digits or fewer these
lie below the power of ten that the shortest decimal begins at. That power is then between two numbers that
are rounded to the double, so it is rounded to it, too. Unless the shortest decimal has a single digit,
this power is on a coarser grid, which cannot be.

With a single digit it can be only among the smallest doubles: `1e-323` is rounded to twice the smallest
one, and so are decimals with one digit below it. They are further away.
-/

namespace DeskCalc.Shortest

open Binary64

/-- The number of digits. -/
def Decimal.count (d : Decimal) : ℕ := (Nat.toDigits 10 d.digits).length

section Count

variable (d : Decimal)

theorem Decimal.count_pos : 0 < d.count := Nat.length_toDigits_pos

theorem Decimal.digits_lt : d.digits < 10 ^ d.count :=
  (Nat.length_toDigits_le_iff (by decide) d.count_pos).1 le_rfl

theorem Decimal.le_digits (hd : 0 < d.digits) : 10 ^ (d.count - 1) ≤ d.digits := by
  rcases Nat.eq_zero_or_pos (d.count - 1) with hzero | hpos
  · rwa [hzero]
  · have hcount := d.count_pos
    refine Nat.le_of_not_lt fun hlt => ?_
    have hle := (Nat.length_toDigits_le_iff (by decide) hpos).2 hlt
    rw [← Decimal.count] at hle
    omega

end Count

section Pattern

variable {p s a : ℕ} {k : ℤ} {r : ℚ}

theorem digits_shortest_pos (hpos : 0 < p) : 0 < (shortest p).digits := by
  refine Nat.pos_of_ne_zero fun hzero => ?_
  have hvalue := (shortest_within hpos).pos hpos
  simp [Decimal.value, hzero] at hvalue

/-- The power of ten that the shortest decimal begins at. -/
theorem leading_le (hpos : 0 < p) :
    10 ^ ((shortest p).count - 1) * 10 ^ (shortest p).place
      ≤ (shortest p).value := by
  have hdigits := (shortest p).le_digits (digits_shortest_pos hpos)
  exact mul_le_mul_of_nonneg_right (by exact_mod_cast hdigits) (by positivity)

/-- Only below a single digit is there room for a number that is rounded to the double. -/
theorem count_eq_one (hpos : 0 < p) (hp : p < infinity) (hr : Within p r)
    (hle : r ≤ 10 ^ ((shortest p).count - 1) * 10 ^ (shortest p).place) :
    (shortest p).count = 1 := by
  by_contra hcount
  have hone := (shortest p).count_pos
  have hpower := hr.between (shortest_within hpos) hle (leading_le hpos)
  have hcoarser : (shortest p).place
      < ((shortest p).count - 1 : ℕ) + (shortest p).place := by omega
  refine not_within_of_coarser hpos hp hcoarser 1 ?_
  rwa [zpow_add₀ (by norm_num), zpow_natCast, Nat.cast_one, one_mul]

/-- A decimal on a finer grid, with no more digits, lies below that power. -/
theorem finer_le (ha : a < 10 ^ s)
    (hk : (s : ℤ) + k < (shortest p).count + (shortest p).place) :
    (a * 10 ^ k : ℚ) ≤ 10 ^ ((shortest p).count - 1) * 10 ^ (shortest p).place := by
  have hcount := (shortest p).count_pos
  have hbelow : (a : ℚ) ≤ 10 ^ s := by exact_mod_cast ha.le
  calc (a * 10 ^ k : ℚ) ≤ 10 ^ s * 10 ^ k := mul_le_mul_of_nonneg_right hbelow (by positivity)
    _ = 10 ^ (s + k) := by rw [zpow_add₀ (by norm_num), zpow_natCast]
    _ ≤ 10 ^ (((shortest p).count - 1 : ℕ) + (shortest p).place) :=
      zpow_le_zpow_right₀ (by norm_num) (by omega)
    _ = _ := by rw [zpow_add₀ (by norm_num), zpow_natCast]

/-- **Fewest digits.** A decimal that is rounded to the double has at least as many digits. -/
theorem count_le (hpos : 0 < p) (hp : p < infinity) (ha : a < 10 ^ s)
    (h : Within p (a * 10 ^ k)) : (shortest p).count ≤ s := by
  by_contra hfew
  rcases lt_or_ge (shortest p).place k with hcoarser | hfiner
  · exact not_within_of_coarser hpos hp hcoarser a h
  · have hone := count_eq_one hpos hp h (finer_le ha (by omega))
    obtain rfl : s = 0 := by omega
    obtain rfl : a = 0 := by omega
    simpa using h.pos hpos

/-! ## A single digit -/

/-- Before the first binade the doubles are the multiples of the smallest one. -/
theorem value_of_lt (hsmall : p < 2 ^ 52) : value p = p * smallest := by
  have hstep : stepExponent p = 0 := by
    unfold stepExponent
    omega
  rw [value, scaled, significand, if_pos hsmall, hstep, Nat.pow_zero, Nat.mul_one]

/-- If a power of ten and a number a tenth below it are both rounded to a double, the double is one of the
smallest. -/
theorem small_of_wide (hpos : 0 < p) (hr : Within p r) (hk : Within p (10 ^ k))
    (hle : r ≤ 9 / 10 * 10 ^ k) : p < 10 := by
  have hlow := (hr.near hpos).1
  have hhigh := (hk.near hpos).2
  have hfew : significand p * step p < 10 * step p := by
    rw [← value_eq_mul_step]
    linarith [step_pos p]
  have hsmall : significand p < 10 := by
    exact_mod_cast lt_of_mul_lt_mul_right hfew (step_pos p).le
  have hpattern := pattern_eq p
  have hbinade := le_significand (p := p)
  omega

/-- **A single digit.** If a power of ten and a number a tenth below it are both rounded to a double, the
power is nearer. -/
theorem power_is_nearer (hpos : 0 < p) (hr : Within p r) (hk : Within p (10 ^ k))
    (hle : r ≤ 9 / 10 * 10 ^ k) (hgrid : -324 ≤ k) : |10 ^ k - value p| ≤ |r - value p| := by
  have hsmall := small_of_wide hpos hr hk hle
  rw [abs_sub_comm, abs_sub_comm r, dist_ge_iff (by linarith [hk.pos hpos])]
  by_contra hfar
  obtain ⟨m, rfl⟩ := Nat.exists_eq_add_one_of_ne_zero hpos.ne'
  have hlow := hr.middle_le
  have hhigh := hk.le_middle
  rw [middle, value_of_lt (by omega), value_of_lt (by omega)] at hlow hhigh
  rw [value_of_lt (by omega)] at hfar
  obtain ⟨hfine, hcoarse⟩ := finest_bounds
  have hscale := smallest_pos
  obtain ⟨j, rfl⟩ : ∃ j : ℕ, k = j + -324 := ⟨(k + 324).toNat, by omega⟩
  rw [zpow_add₀ (by norm_num), zpow_natCast] at hle hhigh hfar
  have hunit : (0 : ℚ) < 10 ^ (-324 : ℤ) := by positivity
  generalize (10 : ℚ) ^ (-324 : ℤ) = unit at *
  push_cast at hlow hhigh hfar
  -- The power is past half of the smallest double and below ten times it, so it is the second one.
  obtain rfl : j = 1 := by
    rcases Nat.lt_trichotomy j 1 with hzero | hone | hlarge
    · obtain rfl : j = 0 := by omega
      have hm := mul_nonneg (Nat.cast_nonneg m) hscale.le
      linarith
    · exact hone
    · have hpow : (10 : ℚ) ^ 2 ≤ 10 ^ j := pow_le_pow_right₀ (by norm_num) hlarge
      have hfew : (m : ℚ) ≤ 8 := by exact_mod_cast Nat.le_of_lt_succ (Nat.lt_of_succ_lt_succ hsmall)
      have hm := mul_le_mul_of_nonneg_right hfew hscale.le
      have hten := mul_le_mul_of_nonneg_right hpow hunit.le
      linarith
  rw [pow_one] at hle hhigh hfar
  have hm : m < 9 := by omega
  interval_cases m <;> norm_num at hlow hhigh hfar <;> linarith

/-- **Nearest.** Of the decimals that are rounded to the double, none with as many digits is nearer. -/
theorem shortest_closest (hpos : 0 < p) (hp : p < infinity) (ha : a < 10 ^ (shortest p).count)
    (h : Within p (a * 10 ^ k)) : |(shortest p).value - value p| ≤ |a * 10 ^ k - value p| := by
  rcases lt_trichotomy k (shortest p).place with hfiner | rfl | hcoarser
  · have hbelow := finer_le (p := p) (k := k) ha (by omega)
    have hone := count_eq_one hpos hp h hbelow
    have hleading := leading_le hpos
    rw [hone, Nat.sub_self, pow_zero, one_mul] at hbelow hleading
    have hpower := h.between (shortest_within hpos) hbelow hleading
    have hnear := shortest_nearest hpos (c := 1) (by rwa [Nat.cast_one, one_mul])
    rw [Nat.cast_one, one_mul] at hnear
    refine hnear.trans (power_is_nearer hpos h hpower ?_ (shortest p).le_place)
    rw [hone, pow_one] at ha
    have hdigit : (a : ℚ) ≤ 9 := by exact_mod_cast Nat.le_of_lt_succ ha
    have hpow : (10 : ℚ) ^ k ≤ 10 ^ ((shortest p).place - 1) :=
      zpow_le_zpow_right₀ (by norm_num) (by omega)
    rw [zpow_sub_one₀ (by norm_num)] at hpow
    have hscaled := mul_le_mul_of_nonneg_right hdigit (by positivity : (0 : ℚ) ≤ 10 ^ k)
    linarith
  · exact shortest_nearest hpos h
  · exact absurd h (not_within_of_coarser hpos hp hcoarser a)

end Pattern

end DeskCalc.Shortest
