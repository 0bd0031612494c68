import DeskCalc.Decimal.Numeral
import DeskCalc.Proofs.Sums

/-!
# The nearest double

**Theorem (`nearest_eq_iff_roundsTo`).** `nearest` yields a finite pattern exactly if its double is the
one that the fraction is rounded to: no finite double is nearer, of two that are equally near it is the
even one, and the fraction is in range.

What a number is rounded to is said by `RoundsTo` with distances between rationals, for either sign. For
numbers that are not negative it comes down to the two middles around a double (`Within`): the numbers
between them are rounded to it, and the middles themselves if its pattern is even. `nearest` passes a
double at the middle above it, which is what `lt_nearest_iff` says in whole numbers.
-/

namespace DeskCalc

namespace Binary64

open Float.Model Float.Model.UnpackedFloat

/-! ## Values and middles -/

/-- The smallest positive double. -/
def smallest : ℚ := (2 ^ 1074)⁻¹

/-- The value of a pattern. -/
def value (p : ℕ) : ℚ := scaled p * smallest

/-- The distance from a pattern to the next one. -/
def step (p : ℕ) : ℚ := 2 ^ stepExponent p * smallest

/-- The middle between a pattern and the next one. -/
def middle (p : ℕ) : ℚ := (value p + value (p + 1)) / 2

section Middles

variable {p r : ℕ}

theorem smallest_pos : 0 < smallest := inv_pos.2 (pow_pos two_pos 1074)

theorem two_pow_mul_smallest : ((2 ^ 1074 : ℕ) : ℚ) * smallest = 1 := by
  have hscale (k : ℕ) : ((2 ^ k : ℕ) : ℚ) * (2 ^ k)⁻¹ = 1 := by
    push_cast
    field_simp
  exact hscale 1074

theorem natCast_mul_smallest (n : ℕ) : ((n * 2 ^ 1074 : ℕ) : ℚ) * smallest = n := by
  rw [Nat.cast_mul, mul_assoc, two_pow_mul_smallest, mul_one]

/-- Neighbours are a step apart, also from one binade to the next. -/
theorem scaled_succ (p : ℕ) : scaled (p + 1) = scaled p + 2 ^ stepExponent p := by
  have hlt := significand_lt p
  have hbinade := significand_binade p
  have hpattern := pattern_eq p
  unfold scaled
  generalize significand p = f at *
  generalize stepExponent p = s at *
  obtain rfl := hpattern
  by_cases hcarry : f + 1 < 2 ^ 53
  · have hnext : s = 0 ∨ 2 ^ 52 ≤ f + 1 := by omega
    rw [Nat.add_assoc, significand_pattern hcarry hnext, stepExponent_pattern hcarry hnext]
    ring
  · obtain rfl : f = 2 ^ 53 - 1 := by omega
    have hnext : s * 2 ^ 52 + (2 ^ 53 - 1) + 1 = (s + 1) * 2 ^ 52 + 2 ^ 52 := by omega
    rw [hnext, significand_pattern (by decide) (.inr (Nat.le_refl _)),
      stepExponent_pattern (by decide) (.inr (Nat.le_refl _))]
    ring

theorem value_succ (p : ℕ) : value (p + 1) = value p + step p := by
  rw [value, value, step, scaled_succ]
  push_cast
  ring

theorem value_eq_mul_step (p : ℕ) : value p = significand p * step p := by
  rw [value, step, scaled]
  push_cast
  ring

theorem step_pos (p : ℕ) : 0 < step p := mul_pos (by positivity) smallest_pos

theorem step_le_step_succ (p : ℕ) : step p ≤ step (p + 1) := by
  refine mul_le_mul_of_nonneg_right (pow_le_pow_right₀ one_le_two ?_) smallest_pos.le
  unfold stepExponent
  omega

theorem value_strictMono : StrictMono value := by
  refine strictMono_nat_of_lt_succ fun p => ?_
  rw [value_succ]
  exact lt_add_of_pos_right _ (step_pos p)

theorem value_zero : value 0 = 0 := by
  have hscaled : scaled 0 = 0 := by decide
  simp [value, hscaled]

theorem value_nonneg (p : ℕ) : 0 ≤ value p := mul_nonneg (Nat.cast_nonneg _) smallest_pos.le

theorem value_lt_middle (p : ℕ) : value p < middle p := by
  have hnext := value_strictMono (Nat.lt_succ_self p)
  unfold middle
  linarith

theorem middle_lt_value (h : p < r) : middle p < value r := by
  have hnext := value_strictMono (Nat.lt_succ_self p)
  have hle := value_strictMono.monotone (Nat.succ_le_of_lt h)
  unfold middle
  linarith

theorem middle_strictMono : StrictMono middle :=
  fun _ r h => (middle_lt_value h).trans (value_lt_middle r)

/-- Behind the largest finite pattern the middle is the threshold. -/
theorem middle_last : middle (infinity - 1) = threshold := by
  have hscaled : scaled (infinity - 1) + scaled (infinity - 1 + 1) = 2 * threshold * 2 ^ 1074 := by
    decide +kernel
  have hsum := natCast_mul_smallest (2 * threshold)
  rw [← hscaled] at hsum
  push_cast at hsum
  unfold middle value
  linarith

end Middles

/-! ## What a number is rounded to -/

/-- The exact value of a finite double. -/
def rational (x : Float) : ℚ := units x * smallest

/-- A number in range is rounded to a double: no finite double is nearer to it, and only an even one may
have another double at the same distance. -/
structure RoundsTo (q : ℚ) (x : Float) : Prop where
  isFinite : x.isFinite = true
  inRange : |q| < threshold
  nearest : ∀ y : Float, y.isFinite = true → |q - rational x| ≤ |q - rational y|
  even : ∀ y : Float, y.isFinite = true → rational y ≠ rational x →
    |q - rational y| = |q - rational x| → magnitude x % 2 = 0

/-- A number lies between the middles around a pattern. The middles count if the pattern is even. -/
def Within (p : ℕ) (q : ℚ) : Prop :=
  (∀ r, p = r + 1 → middle r < q ∨ p % 2 = 0 ∧ middle r = q) ∧
    (q < middle p ∨ p % 2 = 0 ∧ q = middle p)

section Rounding

variable {p r : ℕ} {q : ℚ} {x : Float}

theorem rational_ofParts (hp : p < infinity) (negative : Bool) :
    rational (ofParts negative p) = if negative then -value p else value p := by
  rw [rational, units_ofParts negative hp, value]
  cases negative
  · rfl
  · show ((-(scaled p : ℤ) : ℤ) : ℚ) * smallest = -(scaled p * smallest)
    push_cast
    ring

theorem isFinite_toFloat (hp : p < infinity) : (toFloat p).isFinite = true := by
  rw [toFloat_eq_ofParts hp]
  exact isFinite_ofParts false hp

theorem magnitude_toFloat (hp : p < infinity) : magnitude (toFloat p) = p := by
  rw [toFloat_eq_ofParts hp]
  exact magnitude_ofParts false hp

theorem rational_toFloat (hp : p < infinity) : rational (toFloat p) = value p := by
  rw [toFloat_eq_ofParts hp, rational_ofParts hp]
  rfl

theorem rational_neg (hx : x.isFinite = true) : rational (-x) = -rational x := by
  rw [rational, rational, units_neg hx]
  push_cast
  ring

theorem magnitude_neg (hx : x.isFinite = true) : magnitude (-x) = magnitude x := by
  obtain ⟨negative, p, hp, rfl⟩ := exists_parts hx
  rw [neg_ofParts negative hp, magnitude_ofParts _ hp, magnitude_ofParts _ hp]

theorem dist_mirror (a b : ℚ) : |-a - -b| = |a - b| := by
  rw [neg_sub_neg, abs_sub_comm]

/-- Rounding does not care for the sign. -/
theorem RoundsTo.neg (h : RoundsTo q x) : RoundsTo (-q) (-x) := by
  have hx := h.isFinite
  have hself : |-q - rational (-x)| = |q - rational x| := by rw [rational_neg hx, dist_mirror]
  have hmirror (y : Float) (hy : y.isFinite = true) : |-q - rational y| = |q - rational (-y)| := by
    rw [rational_neg hy, ← dist_mirror, neg_neg]
  refine ⟨isFinite_neg hx, ?_, fun y hy => ?_, fun y hy hne htie => ?_⟩
  · rw [abs_neg]
    exact h.inRange
  · rw [hself, hmirror y hy]
    exact h.nearest (-y) (isFinite_neg hy)
  · rw [magnitude_neg hx]
    rw [hself, hmirror y hy] at htie
    refine h.even (-y) (isFinite_neg hy) (fun heq => hne ?_) htie
    rw [rational_neg hx, ← heq, rational_neg hy, neg_neg]

theorem roundsTo_neg_iff (hx : x.isFinite = true) : RoundsTo (-q) (-x) ↔ RoundsTo q x := by
  refine ⟨fun h => ?_, RoundsTo.neg⟩
  have hback := h.neg
  obtain ⟨negative, p, hp, rfl⟩ := exists_parts hx
  rwa [neg_neg, neg_ofParts negative hp, neg_ofParts _ hp, Bool.not_not] at hback

/-! ## Between the middles -/

/-- Below the middle of two numbers the lower one is nearer. -/
theorem dist_le_iff {a b : ℚ} (h : a < b) : |q - a| ≤ |q - b| ↔ q ≤ (a + b) / 2 := by
  rw [← sq_le_sq]
  constructor
  · intro hdist
    nlinarith
  · intro hnear
    nlinarith

/-- Above it the upper one is. -/
theorem dist_ge_iff {a b : ℚ} (h : a < b) : |q - b| ≤ |q - a| ↔ (a + b) / 2 ≤ q := by
  rw [← sq_le_sq]
  constructor
  · intro hdist
    nlinarith
  · intro hnear
    nlinarith

theorem within_succ (hlow : middle r < q) (hhigh : q < middle (r + 1)) : Within (r + 1) q := by
  refine ⟨?_, .inl hhigh⟩
  rintro m hm
  obtain rfl : r = m := Nat.succ_injective hm
  exact .inl hlow

/-- A double is rounded to itself. -/
theorem within_value (p : ℕ) : Within p (value p) := by
  refine ⟨?_, .inl (value_lt_middle p)⟩
  rintro r rfl
  exact .inl (middle_lt_value (Nat.lt_succ_self r))

theorem Within.middle_le (h : Within (r + 1) q) : middle r ≤ q := by
  rcases h.1 r rfl with hlt | ⟨-, heq⟩
  · exact hlt.le
  · exact heq.le

theorem Within.le_middle (h : Within p q) : q ≤ middle p := by
  rcases h.2 with hlt | ⟨-, heq⟩
  · exact hlt.le
  · exact heq.le

/-- What is rounded to a pattern is at most half a step away. -/
theorem Within.near (h : Within p q) (hpos : 0 < p) :
    value p - step p / 2 ≤ q ∧ q ≤ value p + step p / 2 := by
  obtain ⟨r, rfl⟩ := Nat.exists_eq_add_one_of_ne_zero hpos.ne'
  have hlow := h.middle_le
  have hhigh := h.le_middle
  have hbelow := value_succ r
  have habove := value_succ (r + 1)
  have hstep := step_le_step_succ r
  unfold middle at hlow hhigh
  constructor
  · linarith
  · linarith

theorem Within.pos (h : Within p q) (hpos : 0 < p) : 0 < q := by
  obtain ⟨r, rfl⟩ := Nat.exists_eq_add_one_of_ne_zero hpos.ne'
  exact (value_nonneg r).trans_lt ((value_lt_middle r).trans_le h.middle_le)

theorem Within.between {a b : ℚ} (ha : Within p a) (hb : Within p b) (haq : a ≤ q) (hqb : q ≤ b) :
    Within p q := by
  refine ⟨fun r hr => ?_, ?_⟩
  · rcases ha.1 r hr with hlt | ⟨heven, rfl⟩
    · exact .inl (hlt.trans_le haq)
    · exact haq.lt_or_eq.imp_right fun heq => ⟨heven, heq⟩
  · rcases hb.2 with hlt | ⟨heven, rfl⟩
    · exact .inl (hqb.trans_lt hlt)
    · exact hqb.lt_or_eq.imp_right fun heq => ⟨heven, heq⟩

/-- Between the middles around a pattern no other one is as near, but for ties of an even pattern. -/
theorem Within.dist (h : Within p q) (hr : r ≠ p) :
    |q - value p| < |q - value r| ∨ p % 2 = 0 ∧ |q - value p| ≤ |q - value r| := by
  rcases Nat.lt_or_gt_of_ne hr with hlow | hhigh
  · obtain ⟨m, rfl⟩ := Nat.exists_eq_add_one_of_ne_zero (Nat.ne_zero_of_lt hlow)
    have hlt := value_strictMono hlow
    have hnext := value_strictMono.monotone (Nat.le_of_lt_succ hlow)
    rw [dist_ge_iff hlt, lt_iff_lt_of_le_iff_le (dist_le_iff hlt)]
    refine (h.1 m rfl).imp (fun hpast => ?_) (And.imp_right fun htie => ?_)
    · unfold middle at hpast
      linarith
    · unfold middle at htie
      linarith
  · have hlt := value_strictMono hhigh
    have hnext := value_strictMono.monotone (Nat.succ_le_of_lt hhigh)
    rw [dist_le_iff hlt, lt_iff_lt_of_le_iff_le (dist_ge_iff hlt)]
    refine h.2.imp (fun hbefore => ?_) (And.imp_right fun htie => ?_)
    · unfold middle at hbefore
      linarith
    · unfold middle at htie
      linarith

/-- Negative doubles are not nearer than zero to a number that is not negative. -/
theorem exists_nearer (hq : 0 ≤ q) {y : Float} (hy : y.isFinite = true) :
    ∃ r, |q - value r| ≤ |q - rational y| ∧ (rational y = value r ∨ r = 0) := by
  obtain ⟨negative, r, hr, rfl⟩ := exists_parts hy
  rw [rational_ofParts hr]
  cases negative with
  | false => exact ⟨r, le_rfl, .inl rfl⟩
  | true =>
    have hvalue := value_nonneg r
    refine ⟨0, ?_, .inr rfl⟩
    rw [value_zero, if_pos rfl, sub_zero, sub_neg_eq_add, abs_of_nonneg hq, abs_of_nonneg (by linarith)]
    linarith

theorem Within.lt_threshold (h : Within p q) (hp : p < infinity) : q < threshold := by
  rw [← middle_last]
  have hle : p ≤ infinity - 1 := by omega
  rcases h.2 with hlt | ⟨heven, rfl⟩
  · exact hlt.trans_le (middle_strictMono.monotone hle)
  · have hodd : (infinity - 1) % 2 = 1 := by decide
    refine middle_strictMono (lt_of_le_of_ne hle ?_)
    rintro rfl
    omega

/-- **Rounding, between the middles.** A number that is not negative is rounded to the double of a
pattern exactly if it lies between the middles around it. -/
theorem roundsTo_iff_within (hp : p < infinity) (hq : 0 ≤ q) :
    RoundsTo q (toFloat p) ↔ Within p q := by
  constructor
  · intro h
    have hdist (r : ℕ) (hr : r < infinity) : |q - value p| ≤ |q - value r| := by
      simpa [rational_toFloat, hp, hr] using h.nearest (toFloat r) (isFinite_toFloat hr)
    have heven (r : ℕ) (hr : r < infinity) (hne : value r ≠ value p)
        (htie : |q - value r| = |q - value p|) : p % 2 = 0 := by
      simpa [rational_toFloat, magnitude_toFloat, hp, hr, hne, htie]
        using h.even (toFloat r) (isFinite_toFloat hr)
    refine ⟨?_, ?_⟩
    · rintro r rfl
      have hlt := value_strictMono (Nat.lt_succ_self r)
      have hle := (dist_ge_iff hlt).1 (hdist r (by omega))
      refine hle.lt_or_eq.imp_right fun heq => ⟨heven r (by omega) hlt.ne ?_, heq⟩
      exact le_antisymm ((dist_le_iff hlt).2 heq.ge) (hdist r (by omega))
    · by_cases hlast : p + 1 < infinity
      · have hlt := value_strictMono (Nat.lt_succ_self p)
        have hle := (dist_le_iff hlt).1 (hdist (p + 1) hlast)
        refine hle.lt_or_eq.imp_right fun heq => ⟨heven (p + 1) hlast hlt.ne' ?_, heq⟩
        exact le_antisymm ((dist_ge_iff hlt).2 heq.ge) (hdist (p + 1) hlast)
      · obtain rfl : p = infinity - 1 := by omega
        rw [middle_last]
        exact .inl ((le_abs_self q).trans_lt h.inRange)
  · intro h
    refine ⟨isFinite_toFloat hp, ?_, fun y hy => ?_, fun y hy hne htie => ?_⟩
    · rw [abs_of_nonneg hq]
      exact h.lt_threshold hp
    · rw [rational_toFloat hp]
      obtain ⟨r, hnear, -⟩ := exists_nearer hq hy
      refine le_trans ?_ hnear
      by_cases hr : r = p
      · rw [hr]
      · exact (h.dist hr).elim le_of_lt And.right
    · rw [rational_toFloat hp] at hne htie
      rw [magnitude_toFloat hp]
      by_contra hodd
      obtain ⟨r, hnear, hvalue⟩ := exists_nearer hq hy
      have hr : r ≠ p := by
        rintro rfl
        rcases hvalue with hvalue | rfl
        · exact hne hvalue
        · exact hodd rfl
      have hfar := (h.dist hr).resolve_right fun htied => hodd htied.1
      exact absurd (hnear.trans htie.le) hfar.not_ge

/-- A number that is rounded to a positive double is positive. -/
theorem RoundsTo.pos (h : RoundsTo q (toFloat p)) (hpos : 0 < p) (hp : p < infinity) : 0 < q := by
  have hvalue := value_strictMono hpos
  have hzero := h.nearest (toFloat 0) (isFinite_toFloat (hpos.trans hp))
  rw [rational_toFloat hp, rational_toFloat (hpos.trans hp), dist_ge_iff hvalue] at hzero
  rw [value_zero] at hvalue hzero
  linarith

theorem roundsTo_toFloat_iff (hpos : 0 < p) (hp : p < infinity) :
    RoundsTo q (toFloat p) ↔ Within p q := by
  constructor
  · intro h
    exact (roundsTo_iff_within hp (h.pos hpos hp).le).1 h
  · intro h
    exact (roundsTo_iff_within hp (h.pos hpos).le).2 h

/-! ## What the rounding computes -/

section Computed

variable {num den num' den' : ℕ}

/-- Where the rounding passes a double, as a question of fractions. -/
theorem lt_nearest_iff_middle (num : ℕ) (hden : 0 < den) (hp : p < infinity) :
    p < nearest num den ↔
      middle p < num / den ∨ p % 2 = 1 ∧ middle p = num / den := by
  have hsum : (2 * significand p + 1) * (den * 2 ^ stepExponent p)
      = (scaled p + scaled (p + 1)) * den := by
    rw [scaled_succ, scaled]
    ring
  have hmiddle : middle p = ((scaled p + scaled (p + 1) : ℕ) : ℚ) * smallest / 2 := by
    unfold middle value
    push_cast
    ring
  have hnum := natCast_mul_smallest num
  rw [lt_nearest_iff num hden hp, hsum, hmiddle, ← hnum]
  generalize num * 2 ^ 1074 = n
  generalize scaled p + scaled (p + 1) = m
  have hscale := smallest_pos
  have hdenpos : (0 : ℚ) < den := Nat.cast_pos.2 hden
  have hlt : (m : ℚ) * smallest / 2 < n * smallest / den ↔ m * den < n * 2 := by
    rw [div_lt_div_iff₀ two_pos hdenpos, mul_right_comm, mul_right_comm (n : ℚ),
      mul_lt_mul_iff_left₀ hscale]
    norm_cast
  have heq : (m : ℚ) * smallest / 2 = n * smallest / den ↔ m * den = n * 2 := by
    rw [div_eq_div_iff two_ne_zero hdenpos.ne', mul_right_comm, mul_right_comm (n : ℚ),
      mul_left_inj' hscale.ne']
    norm_cast
  rw [hlt, heq, Nat.mul_comm 2 n]

theorem nearest_eq_iff_within (hden : 0 < den) (hp : p < infinity) :
    nearest num den = p ↔ Within p (num / den) := by
  have hpass := lt_nearest_iff_middle num hden hp
  rw [le_antisymm_iff, ← not_lt, hpass, Within, and_comm]
  refine and_congr ?_ ?_
  · cases p with
    | zero => simp
    | succ r =>
      have hbelow := lt_nearest_iff_middle num hden (Nat.lt_of_succ_lt hp)
      have hparity : r % 2 = 1 ↔ (r + 1) % 2 = 0 := by omega
      rw [Nat.succ_le_iff, hbelow, hparity]
      simp
  · rcases lt_trichotomy (num / den : ℚ) (middle p) with hlt | heq | hgt
    · simp [hlt, hlt.le, hlt.ne']
    · simp [heq]
    · simp [hgt, hgt.not_gt, hgt.ne']

/-- **The rounding is to the nearest.** It yields a finite pattern exactly if the fraction is rounded to
its double. -/
theorem nearest_eq_iff_roundsTo (hden : 0 < den) (hp : p < infinity) :
    nearest num den = p ↔ RoundsTo (num / den) (toFloat p) := by
  rw [nearest_eq_iff_within hden hp, roundsTo_iff_within hp (by positivity)]

/-- A larger fraction has no smaller pattern. -/
theorem nearest_mono (hden : 0 < den) (hden' : 0 < den') (h : (num / den : ℚ) ≤ num' / den') :
    nearest num den ≤ nearest num' den' := by
  by_contra hgt
  have hlt := Nat.lt_of_not_le hgt
  have hfinite := hlt.trans_le (nearest_le_infinity num den)
  refine lt_irrefl (nearest num' den') ((lt_nearest_iff_middle num' hden' hfinite).2 ?_)
  rcases (lt_nearest_iff_middle num hden hfinite).1 hlt with hpast | ⟨hodd, htie⟩
  · exact .inl (hpast.trans_le h)
  · exact (htie.trans_le h).lt_or_eq.imp_right fun heq => ⟨hodd, heq⟩

end Computed

/-! ## The order of the doubles -/

theorem unpack_toFloat (hp : p < infinity) : (toFloat p).toModel.unpack = unpacked false p := by
  rw [toFloat_eq_ofParts hp, unpack_ofParts false hp]

theorem unpack_infinity : (toFloat infinity).toModel.unpack = .infinity .positive := rfl

/-- Patterns are ordered as their doubles are. -/
theorem toFloat_mono (h : p ≤ r) (hr : r ≤ infinity) : toFloat p ≤ toFloat r := by
  show decide ((toFloat p).toModel.unpack.le (toFloat r).toModel.unpack = true) = true
  rw [decide_eq_true_iff]
  rcases Nat.lt_or_eq_of_le hr with hfin | rfl
  · rw [unpack_toFloat hfin, unpack_toFloat (h.trans_lt hfin)]
    rcases Nat.eq_zero_or_pos p with rfl | hpos
    · rcases Nat.eq_zero_or_pos r with rfl | hpos
      · rfl
      · rw [unpacked_of_pos false hpos]
        rfl
    · rw [unpacked_of_pos false hpos, unpacked_of_pos false (hpos.trans_le h)]
      show ((compare ((stepExponent p : ℤ) - 1074) (stepExponent r - 1074)).then
        (compare (significand p) (significand r))).isLE = true
      have hp := pattern_eq p
      have hr := pattern_eq r
      have hlow := significand_lt p
      have hhigh := le_significand (p := r)
      have hexp : stepExponent p ≤ stepExponent r := by
        unfold stepExponent
        omega
      rcases Nat.lt_or_eq_of_le hexp with hlt | heq
      · rw [compare_lt_iff_lt.2 (by omega)]
        rfl
      · have hsig : significand p ≤ significand r := by omega
        rw [heq, compare_eq_iff_eq.2 rfl]
        simpa [Nat.isLE_compare] using hsig
  · rw [unpack_infinity]
    rcases Nat.lt_or_eq_of_le h with hfin | rfl
    · rw [unpack_toFloat hfin]
      unfold unpacked
      split <;> rfl
    · rfl

end Rounding

end Binary64

/-! ## Numerals -/

namespace Numeral

open Binary64

variable {n m : Numeral} {p : ℕ}

/-- The exact value of a numeral. -/
def value (n : Numeral) : ℚ := n.numerator / n.denominator

theorem denominator_pos (n : Numeral) : 0 < n.denominator := Nat.pow_pos (by decide)

theorem value_nonneg (n : Numeral) : 0 ≤ n.value := by
  unfold value
  positivity

theorem nearest_eq_iff (hp : p < infinity) :
    nearest n.numerator n.denominator = p ↔ Within p n.value :=
  nearest_eq_iff_within n.denominator_pos hp

theorem nearest_lt_infinity_iff :
    nearest n.numerator n.denominator < infinity ↔ n.value < threshold := by
  have hden : (0 : ℚ) < n.denominator := Nat.cast_pos.2 n.denominator_pos
  have hle := nearest_le_infinity n.numerator n.denominator
  rw [hle.lt_iff_ne, Ne, nearest_eq_infinity_iff _ n.denominator_pos, value, div_lt_iff₀ hden,
    ← not_le]
  norm_cast

/-- A numeral has a finite double exactly below the threshold, -/
theorem isFinite_toFloat_iff : n.toFloat.isFinite = true ↔ n.value < threshold := by
  rw [← nearest_lt_infinity_iff]
  constructor
  · intro hfinite
    refine lt_of_le_of_ne (nearest_le_infinity _ _) fun hinf => ?_
    rw [toFloat, hinf] at hfinite
    exact absurd hfinite (by decide)
  · intro hlt
    exact isFinite_toFloat hlt

/-- and otherwise it is read as infinity. -/
theorem toFloat_eq_infinity_iff : n.toFloat = Binary64.toFloat infinity ↔ threshold ≤ n.value := by
  rw [← not_lt]
  constructor
  · intro hinf
    rw [← isFinite_toFloat_iff, hinf]
    decide
  · intro hnot
    rw [← nearest_lt_infinity_iff, not_lt] at hnot
    exact congrArg Binary64.toFloat (le_antisymm (nearest_le_infinity _ _) hnot)

/-- **Reading is correct.** Below the threshold the double of a numeral is the one its value is rounded
to. -/
theorem roundsTo_toFloat (h : n.value < threshold) : RoundsTo n.value n.toFloat := by
  have hp := nearest_lt_infinity_iff.2 h
  exact (roundsTo_iff_within hp n.value_nonneg).2 ((nearest_eq_iff hp).1 rfl)

/-- **Reading is monotone.** -/
theorem toFloat_le_toFloat (h : n.value ≤ m.value) : n.toFloat ≤ m.toFloat :=
  toFloat_mono (nearest_mono n.denominator_pos m.denominator_pos h) (nearest_le_infinity _ _)

/-- Only the value of a numeral counts. -/
theorem toFloat_eq_toFloat (h : n.value = m.value) : n.toFloat = m.toFloat := by
  have hle := nearest_mono n.denominator_pos m.denominator_pos h.le
  have hge := nearest_mono m.denominator_pos n.denominator_pos h.ge
  exact congrArg Binary64.toFloat (le_antisymm hle hge)

end Numeral

end DeskCalc
