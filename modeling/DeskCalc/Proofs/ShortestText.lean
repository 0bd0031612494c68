import DeskCalc.Proofs.FewestDigits
import DeskCalc.Proofs.RoundTrip

/-!
# Numbers are written with the fewest digits

**Theorem (`formatNumber_shortest`).** A finite double that is not zero is written as a neat numeral behind
its sign, with a fraction exactly if it is no integer. The numeral is rounded to the double. No decimal
that is has fewer significant digits, and none with as many is nearer to it.

The layout of a decimal adds zeros up to the point only, so the significant digits of the numeral are the
digits of the shortest decimal, provided that these neither begin nor end with a zero
(`Decimal.significant_numeral`). They do not end with one because the search takes the coarsest grid. For
the same reason an integer has no places behind the point; and if there are none, the numeral is an integer
half a step or less away from the double, which is then an integer as well (`place_nonneg_iff`).
-/

namespace DeskCalc

/-! ## Zeros that count for nothing -/

/-- Some digits from the first to the last one that is not zero. -/
def strippedZeros (cs : List Char) : List Char :=
  (cs.dropWhile (· == '0')).rdropWhile (· == '0')

/-- The significant digits of a numeral. -/
def Numeral.significant (n : Numeral) : List Char := strippedZeros (n.whole ++ n.fraction)

/-- A numeral without superfluous zeros: there are digits in front of the point, the first one zero only if
it stands alone, and those behind the point do not end in a zero. -/
structure Numeral.Neat (n : Numeral) : Prop where
  whole_digits : Digits n.whole
  fraction_digits : Digits n.fraction
  whole_ne_nil : n.whole ≠ []
  lone_zero : n.whole.head? = some '0' → n.whole = ['0']
  last_ne_zero : n.fraction.getLast? ≠ some '0'

section Zeros

variable {cs : List Char} {n : ℕ}

theorem dropWhile_zeros (hcs : cs ≠ []) (hhead : cs.head? ≠ some '0') (k : ℕ) (rest : List Char) :
    (List.replicate k '0' ++ (cs ++ rest)).dropWhile (· == '0') = cs ++ rest := by
  rw [List.dropWhile_append_of_pos (by simp)]
  cases cs with
  | nil => exact absurd rfl hcs
  | cons c cs =>
    have hc : (c == '0') = false := by simpa using hhead
    simp [hc]

/-- Zeros around do not count. -/
theorem strippedZeros_padded (hcs : cs ≠ []) (hhead : cs.head? ≠ some '0')
    (hlast : cs.getLast? ≠ some '0') (j k : ℕ) :
    strippedZeros (List.replicate j '0' ++ (cs ++ List.replicate k '0')) = cs := by
  have hreverse := dropWhile_zeros (List.reverse_ne_nil_iff.2 hcs) (by simpa using hlast) k []
  rw [List.append_nil] at hreverse
  rw [strippedZeros, dropWhile_zeros hcs hhead, List.rdropWhile, List.reverse_append,
    List.reverse_replicate, hreverse, List.reverse_reverse]

theorem getLast?_toDigits (n : ℕ) : (Nat.toDigits 10 n).getLast? = some (n % 10).digitChar := by
  rcases Nat.lt_or_ge n 10 with hlt | hge
  · rw [Nat.toDigits_of_lt_base hlt, Nat.mod_eq_of_lt hlt]
    rfl
  · rw [Nat.toDigits_of_base_le (by decide) hge, List.getLast?_concat]

theorem digitChar_eq_zero {d : ℕ} (hd : d < 10) : d.digitChar = '0' ↔ d = 0 := by
  interval_cases d <;> decide

/-- The last digit is zero only in a multiple of ten. -/
theorem getLast?_toDigits_eq_zero : (Nat.toDigits 10 n).getLast? = some '0' ↔ n % 10 = 0 := by
  rw [getLast?_toDigits, Option.some_inj, digitChar_eq_zero (Nat.mod_lt n (by decide))]

/-- The first digit is zero only in zero. -/
theorem head?_toDigits (hn : 0 < n) : (Nat.toDigits 10 n).head? ≠ some '0' := by
  induction n using Nat.strong_induction_on with
  | _ n ih =>
    rcases Nat.lt_or_ge n 10 with hlt | hge
    · rw [Nat.toDigits_of_lt_base hlt, List.head?_cons, Ne, Option.some_inj, digitChar_eq_zero hlt]
      omega
    · have hfirst := ih (n / 10) (by omega) (by omega)
      rw [Nat.toDigits_of_base_le (by decide) hge, List.head?_append_of_ne_nil _ Nat.toDigits_ne_nil]
      exact hfirst

end Zeros

/-! ## The layout of the shortest decimal -/

namespace Shortest

open Binary64

section Layout

variable {d : Decimal} {p : ℕ}

/-- The digits in front of the point begin with a zero only if they are filled up to one. -/
theorem Decimal.lone_zero (hpos : 0 < d.digits) (hzero : d.numeral.whole.head? = some '0') :
    d.numeral.whole = ['0'] := by
  have hplaces := d.places_lt
  have hlength : d.padded.length = 324 - d.exponent + 1 - (Nat.toDigits 10 d.digits).length
      + ((Nat.toDigits 10 d.digits).length + (d.exponent - 324)) := by
    simp [padded]
  rcases Nat.eq_zero_or_pos (324 - d.exponent + 1 - (Nat.toDigits 10 d.digits).length)
    with hnone | hsome
  · have hfront : d.padded.length - (324 - d.exponent) ≠ 0 := by omega
    rw [numeral, List.head?_take, if_neg hfront, padded, hnone, List.replicate_zero,
      List.nil_append, List.head?_append_of_ne_nil _ Nat.toDigits_ne_nil] at hzero
    exact absurd hzero (head?_toDigits hpos)
  · have hcount : 0 < (Nat.toDigits 10 d.digits).length := Nat.length_toDigits_pos
    have hone : d.padded.length - (324 - d.exponent) = 1 := by omega
    obtain ⟨k, hk⟩ := Nat.exists_eq_add_one_of_ne_zero hsome.ne'
    rw [numeral, hone, padded, hk, List.replicate_succ]
    rfl

/-- The digits behind the point end as those of the decimal do. -/
theorem Decimal.last_ne_zero (hlast : d.digits % 10 ≠ 0) :
    d.numeral.fraction.getLast? ≠ some '0' := by
  have hplaces := d.places_lt
  rw [numeral, List.getLast?_drop]
  split
  · simp
  · have hnone : d.exponent - 324 = 0 := by omega
    rw [padded, hnone, List.replicate_zero, List.append_nil,
      List.getLast?_append_of_ne_nil _ Nat.toDigits_ne_nil, Ne, getLast?_toDigits_eq_zero]
    exact hlast

theorem Decimal.neat_numeral (hpos : 0 < d.digits) (hlast : d.digits % 10 ≠ 0) : d.numeral.Neat := by
  have hdigits := d.digits_padded
  rw [← d.whole_append_fraction] at hdigits
  exact ⟨fun c hc => hdigits c (List.mem_append_left _ hc),
    fun c hc => hdigits c (List.mem_append_right _ hc), d.whole_ne_nil, lone_zero hpos,
    last_ne_zero hlast⟩

theorem Decimal.significant_numeral (hpos : 0 < d.digits) (hlast : d.digits % 10 ≠ 0) :
    d.numeral.significant = Nat.toDigits 10 d.digits := by
  rw [Numeral.significant, d.whole_append_fraction]
  refine strippedZeros_padded Nat.toDigits_ne_nil (head?_toDigits hpos) ?_ _ _
  rwa [Ne, getLast?_toDigits_eq_zero]

/-- The search stops at the coarsest grid, so no zero ends the digits. -/
theorem digits_shortest_mod (hpos : 0 < p) (hp : p < infinity) : (shortest p).digits % 10 ≠ 0 := by
  intro hzero
  have hshorter : (shortest p).value
      = ((shortest p).digits / 10 : ℕ) * 10 ^ ((shortest p).place + 1) := by
    obtain ⟨c, hc⟩ := Nat.dvd_of_mod_eq_zero hzero
    rw [Decimal.value, hc, Nat.mul_div_cancel_left c (by decide), zpow_add_one₀ (by norm_num)]
    push_cast
    ring
  have hwithin := shortest_within hpos
  rw [hshorter] at hwithin
  exact not_within_of_coarser hpos hp (lt_add_one _) _ hwithin

/-! ## Integers -/

/-- The steps of the doubles are whole numbers, or one is a whole number of steps. -/
theorem step_cases (p : ℕ) : (∃ n : ℕ, step p = n) ∨ ∃ n : ℕ, n * step p = 1 := by
  rcases Nat.le_total 1074 (stepExponent p) with hle | hge
  · left
    refine ⟨2 ^ (stepExponent p - 1074), ?_⟩
    have hsplit := Nat.pow_sub_mul_pow 2 hle
    rw [← natCast_mul_smallest, hsplit, step]
    push_cast
    rfl
  · right
    refine ⟨2 ^ (1074 - stepExponent p), ?_⟩
    have hsplit := Nat.pow_sub_mul_pow 2 hge
    rw [← two_pow_mul_smallest, ← hsplit, step]
    push_cast
    ring

/-- The shortest decimal needs no place behind the point exactly if the double is an integer. -/
theorem place_nonneg_iff (hpos : 0 < p) (hp : p < infinity) :
    0 ≤ (shortest p).place ↔ ∃ z : ℤ, value p = z := by
  constructor
  · intro hint
    obtain ⟨n, hn⟩ : ∃ n : ℕ, (shortest p).value = n := by
      obtain ⟨j, hj⟩ := Int.eq_ofNat_of_zero_le hint
      refine ⟨(shortest p).digits * 10 ^ j, ?_⟩
      rw [Decimal.value, hj, zpow_natCast]
      push_cast
      rfl
    have hwithin := shortest_within hpos
    rw [hn] at hwithin
    obtain ⟨hlow, hhigh⟩ := hwithin.near hpos
    have hvalue := value_eq_mul_step p
    rcases step_cases p with ⟨m, hm⟩ | ⟨m, hm⟩
    · refine ⟨significand p * m, ?_⟩
      rw [hvalue, hm]
      push_cast
      rfl
    -- An integer is a whole number of steps, so within half a step it is the double itself.
    · have hunit : (n : ℚ) = (n * m : ℕ) * step p := by
        rw [Nat.cast_mul, mul_assoc, hm, mul_one]
      rw [hunit, hvalue] at hlow hhigh
      have hle : (2 * significand p : ℚ) ≤ 2 * (n * m : ℕ) + 1 :=
        le_of_mul_le_mul_right (by linarith) (step_pos p)
      have hge : (2 * (n * m : ℕ) : ℚ) ≤ 2 * significand p + 1 :=
        le_of_mul_le_mul_right (by linarith) (step_pos p)
      norm_cast at hle hge
      have hself : significand p = n * m := by omega
      refine ⟨n, ?_⟩
      rw [hvalue, hself, ← hunit]
      rfl
  · rintro ⟨z, hz⟩
    by_contra hfraction
    obtain ⟨c, rfl⟩ : ∃ c : ℕ, z = c := by
      refine Int.eq_ofNat_of_zero_le ?_
      have hnonneg := value_nonneg p
      rw [hz] at hnonneg
      exact_mod_cast hnonneg
    refine not_within_of_coarser hpos hp (k := 0) (by omega) c ?_
    rw [zpow_zero, mul_one]
    have hself := within_value p
    rw [hz] at hself
    exact_mod_cast hself

end Layout

end Shortest

/-! ## Decimals with few digits -/

/-- A number can be written with at most so many significant digits. -/
def HasDigits (s : ℕ) (q : ℚ) : Prop := ∃ a k : ℤ, |a| < 10 ^ s ∧ q = a * 10 ^ k

/-- A decimal with so many digits is rounded to a double. None that is rounded to it has fewer digits, and
none with as many digits is nearer to it. -/
structure BestDecimal (x : Float) (s : ℕ) (q : ℚ) : Prop where
  roundsTo : Binary64.RoundsTo q x
  hasDigits : HasDigits s q
  fewest : ∀ t r, Binary64.RoundsTo r x → HasDigits t r → s ≤ t
  nearest : ∀ r, Binary64.RoundsTo r x → HasDigits s r →
    |q - Binary64.rational x| ≤ |r - Binary64.rational x|

section Best

open Binary64 Shortest

variable {p s : ℕ} {q : ℚ} {x : Float}

theorem HasDigits.neg (h : HasDigits s q) : HasDigits s (-q) := by
  obtain ⟨a, k, ha, rfl⟩ := h
  refine ⟨-a, k, by rwa [abs_neg], ?_⟩
  push_cast
  ring

theorem BestDecimal.neg (h : BestDecimal x s q) : BestDecimal (-x) s (-q) := by
  have hx := h.roundsTo.isFinite
  have hback {r : ℚ} (hr : RoundsTo r (-x)) : RoundsTo (-r) x := by
    rw [← roundsTo_neg_iff hx, neg_neg]
    exact hr
  refine ⟨h.roundsTo.neg, h.hasDigits.neg, fun t r hr ht => h.fewest t (-r) (hback hr) ht.neg,
    fun r hr hs => ?_⟩
  have hnear := h.nearest (-r) (hback hr) hs.neg
  rwa [← dist_mirror q, ← dist_mirror (-r), neg_neg, ← rational_neg hx] at hnear

/-- The digits of a positive decimal are a natural number. -/
theorem HasDigits.exists_nat (h : HasDigits s q) (hq : 0 < q) :
    ∃ (a : ℕ) (k : ℤ), a < 10 ^ s ∧ q = a * 10 ^ k := by
  obtain ⟨a, k, ha, rfl⟩ := h
  have hpos : 0 < a := by
    have hscaled := pos_of_mul_pos_left hq (by positivity)
    exact_mod_cast hscaled
  lift a to ℕ using hpos.le
  rw [abs_of_pos hpos] at ha
  exact ⟨a, k, by exact_mod_cast ha, rfl⟩

/-- **The shortest decimal is the best one.** -/
theorem bestDecimal_shortest (hpos : 0 < p) (hp : p < infinity) :
    BestDecimal (toFloat p) (shortest p).count (shortest p).value := by
  have hiff (r : ℚ) : RoundsTo r (toFloat p) ↔ Within p r := roundsTo_toFloat_iff hpos hp
  refine ⟨(hiff _).2 (shortest_within hpos), ?_, fun t r hr ht => ?_, fun r hr hs => ?_⟩
  · refine ⟨(shortest p).digits, (shortest p).place, ?_, by
      rw [Decimal.value, Int.cast_natCast]⟩
    rw [Nat.abs_cast]
    exact_mod_cast (shortest p).digits_lt
  · have hwithin := (hiff r).1 hr
    obtain ⟨a, k, ha, rfl⟩ := ht.exists_nat (hwithin.pos hpos)
    exact count_le hpos hp ha hwithin
  · have hwithin := (hiff r).1 hr
    obtain ⟨a, k, ha, rfl⟩ := hs.exists_nat (hwithin.pos hpos)
    rw [rational_toFloat hp]
    exact shortest_closest hpos hp ha hwithin

/-- **Shortest numbers.** A finite double that is not zero is written as a neat numeral behind its sign,
with a fraction exactly if it is no integer. What is written is rounded to the double; no decimal that is
has fewer significant digits, and none with as many is nearer to it. -/
theorem formatNumber_shortest {x : Float} (hx : x.isFinite = true) (hne : (x == 0) = false) :
    ∃ n : Numeral, n.Neat ∧
      (formatNumber x).toList = (if x < 0 then '-' :: n.text else n.text) ∧
      (n.fraction = [] ↔ ∃ z : ℤ, rational x = z) ∧
      BestDecimal x n.significant.length (if x < 0 then -n.value else n.value) := by
  obtain ⟨negative, p, hp, rfl⟩ := exists_parts hx
  rw [ofParts_beq_zero negative hp] at hne
  have hnonzero : p ≠ 0 := of_decide_eq_false hne
  have hpos : 0 < p := Nat.pos_of_ne_zero hnonzero
  have hdigits := digits_shortest_pos hpos
  have hlast := digits_shortest_mod hpos hp
  have hbest := bestDecimal_shortest hpos hp
  have hint := place_nonneg_iff hpos hp
  have hsign : ofParts negative p < 0 ↔ negative = true := by
    simp [ofParts_lt_zero negative hp, hnonzero]
  refine ⟨(shortest p).numeral, Decimal.neat_numeral hdigits hlast, ?_, ?_, ?_⟩
  · have htext : (magnitudeText p).toList = (shortest p).numeral.text := by
      simp [magnitudeText, hnonzero, hp.ne, Decimal.layout_eq]
    rw [formatNumber_ofParts negative hp, ← htext]
    cases negative <;> simp [hsign, hnonzero]
  · rw [Decimal.fraction_eq_nil_iff, hint, rational_ofParts hp]
    cases negative with
    | false => rfl
    | true => simpa using (neg_surjective.exists (p := fun z : ℤ => -value p = z)).symm
  · rw [Decimal.significant_numeral hdigits hlast, Decimal.value_numeral]
    simp only [hsign]
    rw [toFloat_eq_ofParts hp] at hbest
    cases negative with
    | false => exact hbest
    | true =>
      have hneg := hbest.neg
      rwa [neg_ofParts false hp] at hneg

/-- Twice the smallest double, for which some decimals of one digit below the shortest one would do, too. -/
theorem formatNumber_shortest_tiny :
    let x := Float.ofBits 2
    (x.isFinite = true ∧ (x == 0) = false) ∧
      ∃ n : Numeral, n.Neat ∧ (formatNumber x).toList = n.text ∧
        BestDecimal x n.significant.length n.value := by
  intro x
  have hfinite : x.isFinite = true := by decide
  have hne : (x == 0) = false := by decide
  have hsign : ¬ x < 0 := by decide
  obtain ⟨n, hneat, htext, -, hbest⟩ := formatNumber_shortest hfinite hne
  rw [if_neg hsign] at htext hbest
  exact ⟨⟨hfinite, hne⟩, n, hneat, htext, hbest⟩

end Best

end DeskCalc
