import DeskCalc.Proofs.Overflow

/-!
# Sums of doubles

The sum of two finite doubles is the exact sum of their values, rounded by `nearest`
(`toBits_add`). So it is a double unless the exact sum reaches the threshold, where it is infinity
(`isFinite_add_iff`), and never NaN.

The logical model of doubles aligns the significands, adds them as integers and shifts the sum to
the exponent of its binade. Bits shifted out are remembered in two flags, which together with the
quotient are what `roundDiv` makes of the division (`roundedMantissa_shiftRight`). The rounding may
carry into a further bit, and a second shift then takes the sum to the next binade. On patterns
that shift is not seen: the step and the significand add up to the same number (`carried`).
-/

namespace DeskCalc.Binary64

open Float.Model Float.Model.UnpackedFloat

/-! ## Shifting bits out -/

section Shift

variable (m j : Nat)

/-- The flags after a shift: whether what was shifted out is at least a half, and whether it is
neither nothing nor exactly a half. -/
theorem shiftRight_exact :
    ExtendedMantissa.ofMantissaAndAccuracy m .exact >>> j =
      ⟨m / 2 ^ j, decide (2 ^ j ≤ 2 * (m % 2 ^ j)),
        decide (m % 2 ^ j ≠ 0 ∧ 2 * (m % 2 ^ j) ≠ 2 ^ j)⟩ := by
  induction j with
  | zero =>
    show ExtendedMantissa.ofMantissaAndAccuracy m .exact = _
    simp [ExtendedMantissa.ofMantissaAndAccuracy, Nat.mod_one]
  | succ j ih =>
    have hstep : ExtendedMantissa.ofMantissaAndAccuracy m .exact >>> (j + 1) =
        (ExtendedMantissa.ofMantissaAndAccuracy m .exact >>> j).shiftRightOne := rfl
    have hrest := Nat.mod_lt m (Nat.two_pow_pos j)
    rw [hstep, ih, ExtendedMantissa.shiftRightOne, Nat.pow_succ, Nat.mod_mul,
      Nat.div_div_eq_div_mul]
    generalize 2 ^ j = d at hrest ⊢
    -- The first flag is the bit shifted out last, the other one joins those before it.
    have hbit := Nat.mod_two_eq_zero_or_one (m / d)
    congr 1
    · rw [Bool.eq_iff_iff]
      rcases hbit with hbit | hbit <;> simp [hbit] <;> omega
    · rw [Bool.eq_iff_iff]
      rcases hbit with hbit | hbit <;> simp [hbit] <;> omega

/-- Rounding what was shifted is rounding the division. -/
theorem roundedMantissa_shiftRight :
    (ExtendedMantissa.ofMantissaAndAccuracy m .exact >>> j).roundedMantissa =
      roundDiv m (2 ^ j) := by
  have hpos := Nat.two_pow_pos j
  rw [shiftRight_exact, ExtendedMantissa.roundedMantissa, roundDiv]
  generalize 2 ^ j = d at hpos ⊢
  dsimp only
  rcases Nat.lt_trichotomy (2 * (m % d)) d with hlow | htie | hhigh
  · have hround : ¬ d ≤ 2 * (m % d) := by omega
    rw [if_pos hlow, decide_eq_false hround]
    cases decide (m % d ≠ 0 ∧ 2 * (m % d) ≠ d) <;> rfl
  · have hsticky : ¬ (m % d ≠ 0 ∧ 2 * (m % d) ≠ d) := by omega
    rw [if_neg (by omega), if_neg (by omega), decide_eq_true (Nat.le_of_eq htie.symm),
      decide_eq_false hsticky]
    rfl
  · have hsticky : m % d ≠ 0 ∧ 2 * (m % d) ≠ d := by omega
    rw [if_neg (by omega), if_pos hhigh, decide_eq_true (Nat.le_of_lt hhigh),
      decide_eq_true hsticky]
    rfl

end Shift

/-! ## Exponents -/

section Exponents

variable {f m r s t : Nat}

theorem log2_mul_two_pow (hm : 0 < m) (k : Nat) : (m * 2 ^ k).log2 = m.log2 + k := by
  have hpos : 0 < m * 2 ^ k := Nat.mul_pos hm (Nat.two_pow_pos k)
  rw [Nat.log2_eq_iff (Nat.ne_of_gt hpos), Nat.add_right_comm, Nat.pow_add, Nat.pow_add]
  exact ⟨Nat.mul_le_mul_right _ (Nat.log2_self_le (Nat.ne_of_gt hm)),
    Nat.mul_lt_mul_of_pos_right Nat.lt_log2_self (Nat.two_pow_pos k)⟩

/-- The exponent a significand is shifted to, all exponents counted from `2 ^ -1074`. -/
theorem targetExponent_eq (m k : Nat) :
    Format.binary64.targetExponent (totalExponent m ((k : Int) - 1074)) =
      ((m.log2 + k - 52 : Nat) : Int) - 1074 := by
  show max ((m.log2 : Int) + 1 + (k - 1074) - 53) (-1074) = _
  omega

theorem shiftToTargetExponent_eq (m k : Nat) :
    shiftToTargetExponent Format.binary64 m ((k : Int) - 1074) .exact =
      (ExtendedMantissa.ofMantissaAndAccuracy m .exact >>> (m.log2 + k - 52 - k),
        ((max k (m.log2 + k - 52) : Nat) : Int) - 1074) := by
  have hshift : (((m.log2 + k - 52 : Nat) : Int) - 1074 - (k - 1074)).toNat
      = m.log2 + k - 52 - k := by omega
  rw [shiftToTargetExponent, targetExponent_eq, shiftToExponent, hshift]
  congr 1
  omega

/-- Decreasing an exponent moves the significand to the left, and increasing it does nothing. -/
theorem decreaseExponent_eq (m e k : Nat) :
    decreaseExponent m ((e : Int) - 1074) ((k : Int) - 1074) =
      (m * 2 ^ (e - k), ((min e k : Nat) : Int) - 1074) := by
  have hby : ((e : Int) - 1074 - (k - 1074)).toNat = e - k := by omega
  rw [decreaseExponent, hby, Nat.shiftLeft_eq]
  congr 1
  omega

/-- A significand in its binade stays where it is. -/
theorem log2_binade (hf : f < 2 ^ 53) (hbinade : s = 0 ∨ 2 ^ 52 ≤ f) : f.log2 + s - 52 = s := by
  rcases Nat.eq_zero_or_pos f with rfl | hpos
  · have hzero : Nat.log2 0 = 0 := by decide
    omega
  · have hne := Nat.ne_of_gt hpos
    have hlt := (Nat.log2_lt hne).2 hf
    have hle := (Nat.le_log2 hne (k := 52)).2
    omega

/-- The second shift takes a carry to the next binade, which on patterns is the same number. -/
theorem carried (hr : r ≤ 2 ^ 53) (hbinade : t = 0 ∨ 2 ^ 52 ≤ r) :
    ∃ f s, f < 2 ^ 53 ∧ (s = 0 ∨ 2 ^ 52 ≤ f) ∧ s * 2 ^ 52 + f = t * 2 ^ 52 + r ∧
      shiftToTargetExponent Format.binary64 r ((t : Int) - 1074) .exact =
        (ExtendedMantissa.ofMantissaAndAccuracy f .exact, (s : Int) - 1074) := by
  rcases Nat.lt_or_eq_of_le hr with hlt | rfl
  · refine ⟨r, t, hlt, hbinade, rfl, ?_⟩
    rw [shiftToTargetExponent_eq, log2_binade hlt hbinade, Nat.sub_self, Nat.max_self]
    rfl
  · refine ⟨2 ^ 52, t + 1, by decide, .inr (Nat.le_refl _), by omega, ?_⟩
    have hnext : 53 + t - 52 - t = 1 := by omega
    have hmax : max t (53 + t - 52) = t + 1 := by omega
    rw [shiftToTargetExponent_eq, Nat.log2_two_pow, hnext, hmax]
    rfl

/-! ## Packing -/

theorem unpacked_of_pos {p : Nat} (negative : Bool) (hp : 0 < p) :
    unpacked negative p =
      .finite (signOf negative) (significand p) (stepExponent p - 1074) (significand_pos hp) :=
  dif_pos (significand_pos hp)

theorem significand_pattern (hf : f < 2 ^ 53) (hbinade : s = 0 ∨ 2 ^ 52 ≤ f) :
    significand (s * 2 ^ 52 + f) = f := by
  unfold significand
  split <;> omega

theorem stepExponent_pattern (hf : f < 2 ^ 53) (hbinade : s = 0 ∨ 2 ^ 52 ≤ f) :
    stepExponent (s * 2 ^ 52 + f) = s := by
  unfold stepExponent
  omega

/-- A significand in its binade is packed to its pattern, and past the last binade to infinity. -/
theorem pack_binade (negative : Bool) (hf : f < 2 ^ 53) (hbinade : s = 0 ∨ 2 ^ 52 ≤ f) :
    UnpackedFloat.pack Format.binary64
        (if h : f = 0 then .zero (signOf negative)
          else .finite (signOf negative) f ((s : Int) - 1074) (Nat.pos_of_ne_zero h)) =
      word negative (min (s * 2 ^ 52 + f) infinity) := by
  have hlast : infinity = 2047 * 2 ^ 52 := rfl
  rcases Nat.eq_zero_or_pos f with rfl | hpos
  · obtain rfl : s = 0 := by omega
    cases negative <;> rfl
  rw [dif_neg (Nat.ne_of_gt hpos)]
  rcases Nat.lt_or_ge (s * 2 ^ 52 + f) infinity with hfin | hinf
  · have hunpacked : unpacked negative (s * 2 ^ 52 + f) =
        .finite (signOf negative) f ((s : Int) - 1074) hpos := by
      unfold unpacked
      simp only [significand_pattern hf hbinade, stepExponent_pattern hf hbinade, dif_pos hpos]
    rw [← hunpacked, pack_unpacked negative hfin, Nat.min_eq_left (Nat.le_of_lt hfin)]
  · have hfull : 2 ^ 11 ≤ ((s : Int) - 1074 + (1023 : Nat) + (52 : Nat)).toNat + 1 := by omega
    rw [Nat.min_eq_right hinf]
    refine (if_pos hfull).trans ?_
    cases negative <;> rfl

/-! ## Rounding -/

theorem stepExponentOf_two_pow (n : Nat) : stepExponentOf n (2 ^ 1074) = n.log2 - 52 := by
  rw [stepExponentOf, Nat.mul_div_cancel n (Nat.two_pow_pos 1074)]

/-- Rounding a whole number of smallest steps. -/
theorem nearest_two_pow (n : Nat) :
    nearest n (2 ^ 1074) =
      min ((n.log2 - 52) * 2 ^ 52 + roundDiv n (2 ^ (n.log2 - 52))) infinity := by
  have hround := roundDiv_mul_left (Nat.two_pow_pos 1074) n (2 ^ (n.log2 - 52))
  rw [nearest, stepExponentOf_two_pow, Nat.mul_comm n, hround]

/-- What needs no rounding is its own nearest double, unless it is past the last one. -/
theorem nearest_binade (hf : f < 2 ^ 53) (hbinade : s = 0 ∨ 2 ^ 52 ≤ f) :
    nearest (f * 2 ^ s) (2 ^ 1074) = min (s * 2 ^ 52 + f) infinity := by
  have hstep : (f * 2 ^ s).log2 - 52 = s := by
    rcases Nat.eq_zero_or_pos f with rfl | hpos
    · obtain rfl : s = 0 := by omega
      decide
    · rw [log2_mul_two_pow hpos, log2_binade hf hbinade]
  rw [nearest_two_pow, hstep, roundDiv_mul_self (Nat.two_pow_pos s)]

/-- The significand of a pattern is in its binade. -/
theorem significand_binade (p : Nat) : stepExponent p = 0 ∨ 2 ^ 52 ≤ significand p :=
  (Nat.eq_zero_or_pos _).imp_right le_significand

theorem nearest_scaled {p : Nat} (hp : p < infinity) : nearest (scaled p) (2 ^ 1074) = p := by
  rw [scaled, nearest_binade (significand_lt p) (significand_binade p), pattern_eq]
  exact Nat.min_eq_left (Nat.le_of_lt hp)

theorem roundDiv_le_carry (n : Nat) : roundDiv n (2 ^ (n.log2 - 52)) ≤ 2 ^ 53 := by
  have htop := lt_top_binade (n := n) Nat.one_pos
  rw [Nat.div_one, Nat.one_mul] at htop
  exact roundDiv_le (Nat.two_pow_pos _) (Nat.le_of_lt htop)

theorem le_roundDiv_binade (n : Nat) :
    n.log2 - 52 = 0 ∨ 2 ^ 52 ≤ roundDiv n (2 ^ (n.log2 - 52)) := by
  have hbottom := bottom_binade_le (n := n) Nat.one_pos
  rw [Nat.div_one, Nat.one_mul] at hbottom
  exact (Nat.eq_zero_or_pos _).imp_right fun hstep =>
    le_roundDiv (Nat.two_pow_pos _) (hbottom hstep)

/-- A shift to the left and one to the right together divide by the step. -/
theorem roundDiv_shifted (m k t : Nat) :
    roundDiv (m * 2 ^ (k - t)) (2 ^ (t - min k t)) = roundDiv (m * 2 ^ k) (2 ^ t) := by
  have hk : min k t + (k - t) = k := by omega
  have ht : min k t + (t - min k t) = t := by omega
  rw [← roundDiv_mul_left (Nat.two_pow_pos (min k t)), Nat.mul_left_comm, ← Nat.pow_add,
    ← Nat.pow_add, hk, ht]

/-- A significand is rounded to the pattern nearest to its value. -/
theorem pack_round (negative : Bool) (hm : 0 < m) (k : Nat) :
    UnpackedFloat.pack Format.binary64
        (round Format.binary64 (signOf negative) m ((k : Int) - 1074)) =
      word negative (nearest (m * 2 ^ k) (2 ^ 1074)) := by
  have hlog := log2_mul_two_pow hm k
  have hupper := roundDiv_le_carry (m * 2 ^ k)
  have hlower := le_roundDiv_binade (m * 2 ^ k)
  obtain ⟨t, ht⟩ : ∃ t, t = m.log2 + k - 52 := ⟨_, rfl⟩
  rw [hlog, ← ht] at hupper hlower
  have hshift : shiftToTargetExponent Format.binary64 (m * 2 ^ (k - t))
        (((min k t : Nat) : Int) - 1074) .exact =
      (ExtendedMantissa.ofMantissaAndAccuracy (m * 2 ^ (k - t)) .exact >>> (t - min k t),
        (t : Int) - 1074) := by
    have htarget : (m * 2 ^ (k - t)).log2 + min k t - 52 = t := by
      rw [log2_mul_two_pow hm]
      omega
    rw [shiftToTargetExponent_eq, htarget, Nat.max_eq_right (Nat.min_le_right k t)]
  obtain ⟨f, s, hf, hbinade, hsum, hcarried⟩ := carried hupper hlower
  rw [nearest_two_pow, hlog, ← ht, ← hsum, ← pack_binade negative hf hbinade]
  simp only [UnpackedFloat.round, targetExponent_eq, ← ht, decreaseExponent_eq,
    roundWithAccuracy, hshift, roundedMantissa_shiftRight, roundDiv_shifted, hcarried]
  rfl

end Exponents

/-! ## Exact values -/

/-- The exact value of a finite double, in units of the smallest step. -/
def units (x : Float) : Int := (signOf (signBit x)).apply (scaled (magnitude x))

/-- The end of the doubles, in these units. -/
def thresholdUnits : Nat := threshold * 2 ^ 1074

section Units

variable {p q : Nat} {x y : Float}

theorem units_ofParts (negative : Bool) (hp : p < infinity) :
    units (ofParts negative p) = (signOf negative).apply (scaled p) := by
  rw [units, signBit_ofParts negative hp, magnitude_ofParts negative hp]

theorem units_neg (hx : x.isFinite = true) : units (-x) = -units x := by
  obtain ⟨negative, p, hp, rfl⟩ := exists_parts hx
  rw [neg_ofParts negative hp, units_ofParts _ hp, units_ofParts _ hp]
  cases negative
  · rfl
  · exact (Int.neg_neg _).symm

theorem scaled_pos (hp : 0 < p) : 0 < scaled p :=
  Nat.mul_pos (significand_pos hp) (Nat.two_pow_pos _)

/-! ## Addition -/

/-- An integer is rounded to the pattern nearest to its value, with its sign. -/
theorem pack_normalize (w : Int) (k : Nat) :
    UnpackedFloat.pack Format.binary64
        (UnpackedFloat.normalize Format.binary64 w ((k : Int) - 1074) .positive) =
      word (decide (w < 0)) (nearest (w.natAbs * 2 ^ k) (2 ^ 1074)) := by
  rcases Int.lt_trichotomy w 0 with hneg | rfl | hpos
  · have habs : (-w).toNat = w.natAbs := by omega
    rw [UnpackedFloat.normalize, compare_lt_iff_lt.2 hneg, decide_eq_true hneg]
    dsimp only
    rw [habs]
    exact pack_round true (by omega) k
  · rw [Int.natAbs_zero, Nat.zero_mul, nearest_zero (Nat.two_pow_pos 1074)]
    rfl
  · have habs : w.toNat = w.natAbs := by omega
    rw [UnpackedFloat.normalize, compare_gt_iff_gt.2 hpos,
      decide_eq_false (Int.not_lt.2 (Int.le_of_lt hpos))]
    dsimp only
    rw [habs]
    exact pack_round false (by omega) k

/-- Aligning a significand leaves its value as it is. -/
theorem aligned (sign : Sign) (m : Nat) {e k : Nat} (hk : k ≤ e) :
    sign.apply ((m * 2 ^ (e - k) : Nat) : Int) * 2 ^ k = sign.apply ((m * 2 ^ e : Nat) : Int) := by
  have hvalue : ((m * 2 ^ (e - k) : Nat) : Int) * 2 ^ k = ((m * 2 ^ e : Nat) : Int) := by
    rw [← Nat.sub_add_cancel hk, Nat.add_sub_cancel, Nat.pow_add]
    push_cast
    ring
  rw [← hvalue]
  cases sign
  · exact Int.neg_mul _ _
  · rfl

/-- The sum of two doubles that are not zero. -/
theorem pack_add_of_pos (a b : Bool) (hp : 0 < p) (hq : 0 < q) :
    UnpackedFloat.pack Format.binary64
        (UnpackedFloat.add Format.binary64 (unpacked a p) (unpacked b q)) =
      word (decide ((signOf a).apply (scaled p) + (signOf b).apply (scaled q) < 0))
        (nearest ((signOf a).apply (scaled p) + (signOf b).apply (scaled q)).natAbs (2 ^ 1074)) := by
  obtain ⟨k, hk⟩ : ∃ k, k = min (stepExponent p) (stepExponent q) := ⟨_, rfl⟩
  have hkp : k ≤ stepExponent p := by omega
  have hkq : k ≤ stepExponent q := by omega
  have hmin : min ((stepExponent p : Int) - 1074) (stepExponent q - 1074) = (k : Int) - 1074 := by
    omega
  rw [scaled, scaled, ← aligned _ _ hkp, ← aligned _ _ hkq, ← Int.add_mul, Int.natAbs_mul]
  rw [unpacked_of_pos a hp, unpacked_of_pos b hq]
  simp only [UnpackedFloat.add, hmin, decreaseExponent_eq, Nat.min_eq_right hkp,
    Nat.min_eq_right hkq, pack_normalize]
  have hscale : 0 < (2 ^ k : Int) := Int.pow_pos (by decide)
  have habs : (2 ^ k : Int).natAbs = 2 ^ k := Int.natAbs_pow 2 k
  have hsign (w : Int) : w * 2 ^ k < 0 ↔ w < 0 :=
    ⟨fun h => neg_of_mul_neg_left h (Int.le_of_lt hscale),
      fun h => Int.mul_neg_of_neg_of_pos h hscale⟩
  simp only [habs, hsign]

theorem signed_zero (negative : Bool) : (signOf negative).apply (scaled 0) = 0 := by
  cases negative <;> decide

/-- A sum of zero is negative only as the sum of negative zeros. -/
theorem sum_sign (a b : Bool) {m n : Nat} (hpos : 0 < m + n) :
    ((signOf a).apply m + (signOf b).apply n < 0 ∨
        (signOf a).apply m + (signOf b).apply n = 0 ∧ a ∧ b) ↔
      (signOf a).apply m + (signOf b).apply n < 0 := by
  refine or_iff_left ?_
  rintro ⟨hzero, rfl, rfl⟩
  change -(m : Int) + -(n : Int) = 0 at hzero
  omega

/-- A double that is not zero is its own value rounded. -/
theorem word_eq_nearest (negative : Bool) (hp : p < infinity) (hpos : 0 < p) :
    word negative p =
      word (decide ((signOf negative).apply (scaled p) < 0))
        (nearest ((signOf negative).apply (scaled p)).natAbs (2 ^ 1074)) := by
  have hscaled := scaled_pos hpos
  have hsign : (signOf negative).apply (scaled p) < 0 ↔ negative = true := by
    cases negative
    · exact iff_of_false (by simp [signOf, Sign.apply]) Bool.false_ne_true
    · exact iff_of_true (Int.neg_neg_of_pos (Int.natCast_pos.2 hscaled)) rfl
  have habs : ((signOf negative).apply (scaled p)).natAbs = scaled p := by
    cases negative <;> simp [signOf, Sign.apply]
  simp only [habs, nearest_scaled hp, hsign, Bool.decide_eq_true]

/-- **Addition.** The sum of two finite doubles is the exact sum rounded to the nearest double, ties
to even. A sum of zero is negative only if both summands are. -/
theorem toBits_add (hx : x.isFinite = true) (hy : y.isFinite = true) :
    (x + y).toBits.toBitVec =
      word (decide (units x + units y < 0 ∨ units x + units y = 0 ∧ signBit x ∧ signBit y))
        (nearest (units x + units y).natAbs (2 ^ 1074)) := by
  obtain ⟨a, p, hp, rfl⟩ := exists_parts hx
  obtain ⟨b, q, hq, rfl⟩ := exists_parts hy
  show UnpackedFloat.pack Format.binary64 (UnpackedFloat.add Format.binary64
    (ofParts a p).toModel.unpack (ofParts b q).toModel.unpack) = _
  rw [unpack_ofParts a hp, unpack_ofParts b hq, units_ofParts a hp, units_ofParts b hq,
    signBit_ofParts a hp, signBit_ofParts b hq]
  by_cases hzero : p = 0 ∧ q = 0
  · obtain ⟨rfl, rfl⟩ := hzero
    rw [signed_zero, signed_zero, Int.add_zero, Int.natAbs_zero,
      nearest_zero (Nat.two_pow_pos 1074)]
    cases a <;> cases b <;> rfl
  rcases Nat.eq_zero_or_pos p with rfl | hppos
  · have hqpos : 0 < q := by omega
    simp only [sum_sign a b (Nat.add_pos_right _ (scaled_pos hqpos))]
    rw [signed_zero, Int.zero_add, ← word_eq_nearest b hq hqpos, ← pack_unpacked b hq,
      unpacked_of_pos b hqpos]
    rfl
  · simp only [sum_sign a b (Nat.add_pos_left (scaled_pos hppos) _)]
    rcases Nat.eq_zero_or_pos q with rfl | hqpos
    · rw [signed_zero, Int.add_zero, ← word_eq_nearest a hp hppos, ← pack_unpacked a hp,
        unpacked_of_pos a hppos]
      rfl
    · exact pack_add_of_pos a b hppos hqpos

/-! ## Sums that are no doubles -/

/-- What the bits of a sign and a pattern make, infinity included. -/
theorem isFinite_of_toBits {negative : Bool} (hbits : x.toBits.toBitVec = word negative p)
    (hp : p ≤ infinity) : (x.isFinite = true ↔ p < infinity) ∧ x.isNaN = false := by
  rcases Nat.lt_or_eq_of_le hp with hlt | rfl
  · have hx : x = ofParts negative p := by
      refine Float.toBits_inj.1 (UInt64.toBitVec_inj.1 (hbits.trans ?_))
      exact (pack_unpacked negative hlt).symm
    rw [hx]
    exact ⟨iff_of_true (isFinite_ofParts negative hlt) hlt, isNaN_ofParts negative hlt⟩
  · have hunpack : x.toModel.unpack = .infinity (signOf negative) := by
      show UnpackedFloat.unpack Format.binary64 x.toBits.toBitVec = _
      rw [hbits]
      cases negative <;> rfl
    have hfin : x.isFinite = x.toModel.unpack.isFinite := rfl
    have hnan : x.isNaN = x.toModel.unpack.isNaN := rfl
    rw [hfin, hnan, hunpack]
    exact ⟨iff_of_false Bool.false_ne_true (Nat.lt_irrefl _), rfl⟩

/-- **Overflow.** A sum of finite doubles is finite exactly if the exact sum is below the
threshold. -/
theorem isFinite_add_iff (hx : x.isFinite = true) (hy : y.isFinite = true) :
    (x + y).isFinite = true ↔ (units x + units y).natAbs < thresholdUnits := by
  rw [(isFinite_of_toBits (toBits_add hx hy) (nearest_le_infinity _ _)).1,
    Nat.lt_iff_le_and_ne, Ne, nearest_eq_infinity_iff _ (Nat.two_pow_pos 1074), Nat.not_le,
    ← thresholdUnits]
  exact and_iff_right (nearest_le_infinity _ _)

/-- Infinity and NaN stay what they are. -/
theorem add_of_not_isFinite (hx : x.isFinite = false) (hy : y.isFinite = true) : x + y = x := by
  obtain ⟨b, q, hq, rfl⟩ := exists_parts hy
  have hadd : (x + ofParts b q).toBits.toBitVec = UnpackedFloat.pack Format.binary64
      (UnpackedFloat.add Format.binary64 x.toModel.unpack (unpacked b q)) := by
    rw [← unpack_ofParts b hq]
    rfl
  have hself : UnpackedFloat.pack Format.binary64 x.toModel.unpack = x.toBits.toBitVec :=
    pack_unpack_of_valid x.toModel.valid
  have hfin : x.toModel.unpack.isFinite = false := hx
  refine Float.toBits_inj.1 (UInt64.toBitVec_inj.1 (hadd.trans (Eq.trans ?_ hself)))
  generalize x.toModel.unpack = u at hfin ⊢
  unfold unpacked
  cases u with
  | infinity sign => split <;> rfl
  | notANumber => rfl
  | zero sign => cases hfin
  | finite sign m e hm => cases hfin

theorem isNaN_add (hx : x.isNaN = false) (hy : y.isFinite = true) : (x + y).isNaN = false := by
  cases hfin : x.isFinite with
  | true => exact (isFinite_of_toBits (toBits_add hfin hy) (nearest_le_infinity _ _)).2
  | false => rwa [add_of_not_isFinite hfin hy]

/-! ## Subtraction -/

theorem unpackedSub_eq (spec : Format) (u v : UnpackedFloat) :
    UnpackedFloat.sub spec u v = UnpackedFloat.add spec u v.neg := by
  cases u with
  | notANumber => rfl
  | infinity s => cases v <;> rfl
  | zero s => cases v <;> rfl
  | finite s m e hm =>
    cases v with
    | finite s' m' e' hm' =>
      cases s'
      · show UnpackedFloat.normalize spec (_ - -_) _ _ = UnpackedFloat.normalize spec (_ + _) _ _
        rw [Int.sub_neg]
        rfl
      · show UnpackedFloat.normalize spec (_ - _) _ _ = UnpackedFloat.normalize spec (_ + -_) _ _
        rw [Int.sub_eq_add_neg]
        rfl
    | _ => rfl

/-- Subtracting is adding the negative. -/
theorem sub_eq_add_neg (x : Float) (hy : y.isFinite = true) : x - y = x + -y := by
  obtain ⟨b, q, hq, rfl⟩ := exists_parts hy
  have hneg : (unpacked b q).neg = unpacked (!b) q := by
    unfold unpacked
    split <;> cases b <;> rfl
  rw [neg_ofParts b hq]
  show Float.ofModel (Float.Model.pack (UnpackedFloat.sub Format.binary64 x.toModel.unpack
    (ofParts b q).toModel.unpack)) = Float.ofModel (Float.Model.pack (UnpackedFloat.add
      Format.binary64 x.toModel.unpack (ofParts (!b) q).toModel.unpack))
  rw [unpack_ofParts b hq, unpack_ofParts _ hq, unpackedSub_eq, hneg]

theorem isFinite_sub_iff (hx : x.isFinite = true) (hy : y.isFinite = true) :
    (x - y).isFinite = true ↔ (units x - units y).natAbs < thresholdUnits := by
  rw [sub_eq_add_neg x hy, isFinite_add_iff hx (isFinite_neg hy), units_neg hy, Int.sub_eq_add_neg]

theorem sub_of_not_isFinite (hx : x.isFinite = false) (hy : y.isFinite = true) : x - y = x := by
  rw [sub_eq_add_neg x hy, add_of_not_isFinite hx (isFinite_neg hy)]

theorem isNaN_sub (hx : x.isNaN = false) (hy : y.isFinite = true) : (x - y).isNaN = false := by
  rw [sub_eq_add_neg x hy]
  exact isNaN_add hx (isFinite_neg hy)

end Units

end DeskCalc.Binary64
