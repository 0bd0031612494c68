import DeskCalc.Proofs.Doubles

/-!
# Where the rounding passes a double, and where the doubles end

`nearest` passes a finite double half a step above it (`lt_nearest_iff`): at that half if the double is
odd, behind it if it is even. So it yields infinity exactly from `threshold` on, half a step above the
largest double, which is odd (`nearest_eq_infinity_iff`).

Whether the double is passed depends on the step that the rounding works at. At the double's own step it
is a question of whole numbers (`lt_roundDiv_iff`). At a smaller step the fraction lies below the double,
and even a carry does not take it further; at a wider one it lies above the double and its half step.
-/

namespace DeskCalc

/-! ## Rounding to whole numbers -/

section RoundDiv

variable {n d m : Nat}

theorem div_le_roundDiv (n d : Nat) : n / d ≤ roundDiv n d := by
  unfold roundDiv
  dsimp only
  split
  · exact Nat.le_refl _
  · split <;> omega

theorem roundDiv_le_div_succ (n d : Nat) : roundDiv n d ≤ n / d + 1 := by
  unfold roundDiv
  dsimp only
  split
  · omega
  · split <;> omega

theorem roundDiv_mul_self (hd : 0 < d) (m : Nat) : roundDiv (m * d) d = m := by
  rw [roundDiv, Nat.mul_mod_left, Nat.mul_div_cancel m hd]
  exact if_pos hd

theorem le_roundDiv (hd : 0 < d) (h : m * d ≤ n) : m ≤ roundDiv n d :=
  Nat.le_trans ((Nat.le_div_iff_mul_le hd).2 h) (div_le_roundDiv n d)

theorem roundDiv_le (hd : 0 < d) (h : n ≤ m * d) : roundDiv n d ≤ m := by
  rcases Nat.lt_or_eq_of_le h with hlt | rfl
  · exact Nat.le_trans (roundDiv_le_div_succ n d) ((Nat.div_lt_iff_lt_mul hd).2 hlt)
  · exact Nat.le_of_eq (roundDiv_mul_self hd m)

/-- Rounding depends on the fraction alone. -/
theorem roundDiv_mul_left {c : Nat} (hc : 0 < c) (n d : Nat) :
    roundDiv (c * n) (c * d) = roundDiv n d := by
  have hlt (a b : Nat) : c * a < c * b ↔ a < b := Nat.mul_lt_mul_left hc
  simp only [roundDiv, Nat.mul_div_mul_left n d hc, Nat.mul_mod_mul_left, Nat.mul_left_comm 2, hlt]

/-- The rounding passes a number at the half above it: at the half if the number is odd, behind it if
it is even. -/
theorem lt_roundDiv_iff (hd : 0 < d) :
    m < roundDiv n d ↔ (2 * m + 1) * d < 2 * n ∨ m % 2 = 1 ∧ (2 * m + 1) * d = 2 * n := by
  obtain ⟨q, r, hq, hr, hlt, rfl⟩ : ∃ q r, n / d = q ∧ n % d = r ∧ r < d ∧ n = q * d + r :=
    ⟨n / d, n % d, rfl, rfl, Nat.mod_lt n hd, (Nat.div_add_mod' n d).symm⟩
  have hle := div_le_roundDiv (q * d + r) d
  have hge := roundDiv_le_div_succ (q * d + r) d
  rw [hq] at hle hge
  -- Only with the number itself as quotient does the remainder decide.
  rcases Nat.lt_trichotomy q m with hlow | rfl | hhigh
  · have hstep : (2 * q + 3) * d ≤ (2 * m + 1) * d := Nat.mul_le_mul_right d (by omega)
    rw [Nat.add_mul, Nat.mul_assoc] at hstep
    refine iff_of_false ?_ ?_
    · omega
    · omega
  · rw [Nat.add_mul, Nat.mul_assoc, Nat.one_mul, roundDiv, hq, hr]
    split
    · omega
    · split <;> omega
  · have hstep : (2 * m + 1) * d + d ≤ 2 * (q * d) := by
      rw [← Nat.succ_mul, ← Nat.mul_assoc]
      exact Nat.mul_le_mul_right d (by omega)
    refine iff_of_true ?_ ?_
    · omega
    · omega

end RoundDiv

namespace Binary64

/-- The end of the doubles, half a step above the largest one. -/
def threshold : Nat := 2 ^ 1024 - 2 ^ 970

/-! ## The step of the rounding, from either side -/

section Step

variable (num : Nat) {d den n : Nat}

/-- A fraction lies below the top of the binade of the step that the rounding works at. -/
theorem lt_top_binade (hd : 0 < d) : n < 2 ^ 53 * (d * 2 ^ ((n / d).log2 - 52)) := by
  have hlog : n / d < 2 ^ (53 + ((n / d).log2 - 52)) :=
    Nat.lt_of_lt_of_le Nat.lt_log2_self (Nat.pow_le_pow_right (by decide) (by omega))
  rw [Nat.div_lt_iff_lt_mul hd, Nat.pow_add] at hlog
  refine Nat.lt_of_lt_of_eq hlog ?_
  ac_rfl

/-- It does not lie below the bottom of that binade, unless the step is the smallest. -/
theorem bottom_binade_le (hd : 0 < d) (hstep : 0 < (n / d).log2 - 52) :
    2 ^ 52 * (d * 2 ^ ((n / d).log2 - 52)) ≤ n := by
  have hne : n / d ≠ 0 := by
    intro hzero
    rw [hzero] at hstep
    exact absurd hstep (by decide)
  have hlog : 2 ^ (52 + ((n / d).log2 - 52)) ≤ n / d :=
    Nat.le_trans (Nat.pow_le_pow_right (by decide) (by omega)) (Nat.log2_self_le hne)
  rw [Nat.le_div_iff_mul_le hd, Nat.pow_add] at hlog
  refine Nat.le_trans (Nat.le_of_eq ?_) hlog
  ac_rfl

theorem nearest_le_infinity (num den : Nat) : nearest num den ≤ infinity := Nat.min_le_right _ _

theorem step_le_step (den : Nat) {a b : Nat} (h : a ≤ b) : den * 2 ^ a ≤ den * 2 ^ b :=
  Nat.mul_le_mul_left den (Nat.pow_le_pow_right (by decide) h)

/-- A step is twice as wide one binade up. -/
theorem two_steps_le (den : Nat) {a b : Nat} (h : a < b) : 2 * (den * 2 ^ a) ≤ den * 2 ^ b := by
  refine Nat.le_trans (Nat.le_of_eq ?_) (step_le_step den h)
  rw [Nat.pow_succ']
  exact Nat.mul_left_comm ..

/-- **Where the rounding passes a double.** It does so half a step above the double: at that half if the
double is odd, behind it if it is even. -/
theorem lt_nearest_iff {p : Nat} (hden : 0 < den) (hp : p < infinity) :
    p < nearest num den ↔
      (2 * significand p + 1) * (den * 2 ^ stepExponent p) < 2 * (num * 2 ^ 1074) ∨
        p % 2 = 1 ∧ (2 * significand p + 1) * (den * 2 ^ stepExponent p) = 2 * (num * 2 ^ 1074) := by
  have htop := lt_top_binade (n := num * 2 ^ 1074) hden
  have hbottom := bottom_binade_le (n := num * 2 ^ 1074) hden
  rw [← stepExponentOf] at htop hbottom
  have hnearest : p < nearest num den ↔ p < stepExponentOf num den * 2 ^ 52
      + roundDiv (num * 2 ^ 1074) (den * 2 ^ stepExponentOf num den) := by
    rw [nearest]
    exact lt_min_iff.trans (and_iff_left hp)
  have hpattern := pattern_eq p
  have hlt := significand_lt p
  have hle := le_significand (p := p)
  rw [hnearest]
  generalize stepExponentOf num den = e at htop hbottom ⊢
  generalize num * 2 ^ 1074 = n at htop hbottom ⊢
  generalize significand p = f at hpattern hlt hle ⊢
  generalize stepExponent p = s at hpattern hle ⊢
  have hunit : 0 < den * 2 ^ e := Nat.mul_pos hden (Nat.two_pow_pos e)
  rcases Nat.lt_trichotomy e s with hlow | rfl | hhigh
  -- Below the step of the double even a carry stays below it.
  · have hround : roundDiv n (den * 2 ^ e) ≤ 2 ^ 53 := roundDiv_le hunit (Nat.le_of_lt htop)
    have hstep := two_steps_le den hlow
    have hhalf : 2 ^ 53 * (den * 2 ^ s) ≤ (2 * f + 1) * (den * 2 ^ s) :=
      Nat.mul_le_mul_right _ (by omega)
    refine iff_of_false ?_ ?_
    · omega
    · omega
  · have hround := lt_roundDiv_iff (n := n) (m := f) hunit
    have hparity : p % 2 = f % 2 := by omega
    rw [hparity, ← hround]
    omega
  -- Above it the fraction is past the half step already.
  · have hround : 2 ^ 52 ≤ roundDiv n (den * 2 ^ e) := le_roundDiv hunit (hbottom (by omega))
    have hbottom := hbottom (by omega)
    have hstep := two_steps_le den hhigh
    have hhalf : (2 * f + 1) * (den * 2 ^ s) < 2 ^ 54 * (den * 2 ^ s) :=
      Nat.mul_lt_mul_of_pos_right (by omega) (Nat.mul_pos hden (Nat.two_pow_pos s))
    refine iff_of_true ?_ ?_
    · omega
    · omega

theorem nearest_zero (hden : 0 < den) : nearest 0 den = 0 := by
  refine Nat.eq_zero_of_not_pos fun hpos => ?_
  have hpass := (lt_nearest_iff 0 hden (by decide)).1 hpos
  omega

/-- The threshold in smallest steps, counted by the step of the last binade but one. -/
theorem threshold_le_iff :
    threshold * den ≤ num ↔ (2 ^ 54 - 1) * (den * 2 ^ 2044) ≤ num * 2 ^ 1074 := by
  obtain ⟨c, hthreshold, hstep⟩ : ∃ c, threshold = (2 ^ 54 - 1) * c ∧ 2 ^ 2044 = c * 2 ^ 1074 :=
    ⟨2 ^ 970, by decide +kernel, by decide +kernel⟩
  have hmove (a scale : Nat) : a * (den * (c * scale)) = a * c * den * scale := by ac_rfl
  rw [hthreshold, hstep, hmove]
  exact (Nat.mul_le_mul_right_iff (Nat.two_pow_pos 1074)).symm

/-- **The end of the doubles.** Exactly the fractions from the threshold on round to infinity. -/
theorem nearest_eq_infinity_iff (hden : 0 < den) :
    nearest num den = infinity ↔ threshold * den ≤ num := by
  have hlast := lt_nearest_iff num (p := infinity - 1) hden (by decide)
  have hsignificand : significand (infinity - 1) = 2 ^ 53 - 1 := by decide
  have hstep : stepExponent (infinity - 1) = 2044 + 1 := by decide
  have hodd : (infinity - 1) % 2 = 1 := by decide
  have hle := nearest_le_infinity num den
  have hpos : 0 < infinity := by decide
  have hdouble (k : Nat) : den * 2 ^ (k + 1) = 2 * (den * 2 ^ k) := by
    rw [Nat.pow_succ', Nat.mul_left_comm]
  rw [hsignificand, hstep, hdouble 2044] at hlast
  rw [threshold_le_iff num]
  omega

end Step

end Binary64

end DeskCalc
