import DeskCalc.Proofs.Intervals

/-!
# The search for the shortest decimal

**Theorems (`shortest_within`, `shortest_nearest`, `not_within_of_coarser`).** The shortest decimal of a
pattern is rounded to its double. No point of its grid that is rounded to it, too, is nearer to it, and
no point of a coarser grid is.

A grid is looked at through the two neighbours of the double on it. An interval is convex and holds its
double, so if any point of the grid lies in it, one of the neighbours does. The search descends from the
grid `10 ^ 309`, and the doubles end before the first positive point of that grid. It comes to its end at
the grid `10 ^ -324`, which is finer than any interval.
-/

namespace DeskCalc.Shortest

open Binary64

/-! ## Picks -/

section Picks

variable {i : Interval} {c d j x y z : ℕ}

theorem Holds.between (hx : Holds i x) (hz : Holds i z) (hxy : x ≤ y) (hyz : y ≤ z) :
    Holds i y := by
  unfold Holds at *
  split
  · next hclosed =>
    rw [if_pos hclosed] at hx hz
    exact ⟨hx.1.trans hxy, hyz.trans hz.2⟩
  · next hopen =>
    rw [if_neg hopen] at hx hz
    exact ⟨hx.1.trans_le hxy, hyz.trans_lt hz.2⟩

theorem gridStep_pos (j : ℕ) : 0 < gridStep j := by
  unfold gridStep
  positivity

/-- The double lies between its neighbours on a grid, and any other point of the grid outside. -/
theorem neighbours (v c j : ℕ) :
    v / gridStep j * gridStep j ≤ v ∧ v < (v / gridStep j + 1) * gridStep j ∧
      (c * gridStep j ≤ v / gridStep j * gridStep j ∨
        (v / gridStep j + 1) * gridStep j ≤ c * gridStep j) := by
  refine ⟨Nat.div_mul_le_self .., ?_, ?_⟩
  · rw [Nat.succ_mul]
    exact Nat.lt_div_mul_add (gridStep_pos j)
  · rcases Nat.lt_or_ge (v / gridStep j) c with hlt | hge
    · exact .inr (Nat.mul_le_mul_right _ hlt)
    · exact .inl (Nat.mul_le_mul_right _ hge)

/-- A pick lies in the interval. -/
theorem holds_of_pick? (h : pick? i j = some d) : Holds i (d * gridStep j) := by
  unfold pick? at h
  simp only at h
  split at h
  · next hlow hhigh =>
    split at h <;> cases h
    · exact of_decide_eq_true hlow
    · exact of_decide_eq_true hhigh
  · next hlow _ =>
    cases h
    exact of_decide_eq_true hlow
  · next _ hhigh =>
    cases h
    exact of_decide_eq_true hhigh
  · cases h

/-- A grid without a pick has no point in the interval. -/
theorem not_holds_of_pick? (hvalue : Holds i i.value) (h : pick? i j = none) (c : ℕ) :
    ¬ Holds i (c * gridStep j) := by
  intro hc
  obtain ⟨hlow, hhigh, hside⟩ := neighbours i.value c j
  unfold pick? at h
  simp only at h
  split at h
  · split at h <;> cases h
  · cases h
  · cases h
  · next hnotlow hnothigh =>
    rcases hside with hside | hside
    · exact of_decide_eq_false hnotlow (hc.between hvalue hside hlow)
    · exact of_decide_eq_false hnothigh (hvalue.between hc hhigh.le hside)

/-- No point of the grid in the interval is nearer to the double than the pick. -/
theorem pick?_nearest (hvalue : Holds i i.value) (h : pick? i j = some d)
    (hc : Holds i (c * gridStep j)) :
    ((d * gridStep j : ℕ) - i.value : ℤ).natAbs ≤ ((c * gridStep j : ℕ) - i.value : ℤ).natAbs := by
  obtain ⟨hlow, hhigh, hside⟩ := neighbours i.value c j
  have hrest := Nat.div_add_mod' i.value (gridStep j)
  have hnext : (i.value / gridStep j + 1) * gridStep j = i.value / gridStep j * gridStep j + gridStep j :=
    Nat.succ_mul ..
  unfold pick? at h
  simp only at h
  split at h
  · split at h <;> cases h <;> omega
  · next hnothigh =>
    cases h
    rcases hside with hside | hside
    · omega
    · exact absurd (hvalue.between hc hhigh.le hside) (of_decide_eq_false hnothigh)
  · next hnotlow _ =>
    cases h
    rcases hside with hside | hside
    · exact absurd (hc.between hvalue hside hlow) (of_decide_eq_false hnotlow)
    · omega
  · cases h

/-- The search stops at the first grid that has a pick. -/
theorem search_stops (hfinest : pick? i 0 ≠ none) (j : ℕ) :
    pick? i (search i j).exponent = some (search i j).digits ∧
      ∀ k, (search i j).exponent < k → k ≤ j → pick? i k = none := by
  induction j with
  | zero =>
    obtain ⟨d, hd⟩ := Option.ne_none_iff_exists'.1 hfinest
    simp only [search, hd, Option.getD_some, true_and]
    omega
  | succ j ih =>
    rw [search]
    split
    · next d hd =>
      refine ⟨hd, fun k hlow hhigh => ?_⟩
      dsimp only at hlow
      omega
    · next hnone =>
      refine ⟨ih.1, fun k hlow hhigh => ?_⟩
      rcases Nat.le_succ_iff.1 hhigh with hle | rfl
      · exact ih.2 k hlow hle
      · exact hnone

end Picks

/-! ## The shortest decimal -/

/-- The power of ten that the last digit of a decimal counts. -/
def Decimal.place (d : Decimal) : ℤ := d.exponent - 324

theorem Decimal.le_place (d : Decimal) : -324 ≤ d.place := by
  unfold place
  omega

/-- The value of a decimal. -/
def Decimal.value (d : Decimal) : ℚ := d.digits * 10 ^ d.place

section Pattern

variable {p : ℕ}

theorem holds_value (hpos : 0 < p) : Holds (interval p) (interval p).value := by
  rw [holds_iff_within hpos, value_grain]
  exact within_value p

/-- Some point of the last grid is rounded to the pattern. -/
theorem finest_pick (hpos : 0 < p) : pick? (interval p) 0 ≠ none := by
  intro hnone
  obtain ⟨r, rfl⟩ := Nat.exists_eq_add_one_of_ne_zero hpos.ne'
  have hgrid : (0 : ℚ) < 10 ^ (-324 : ℤ) := by positivity
  have hfine := finest_bounds.2
  have hsmallest := smallest_pos
  -- The point below the double is not as far away as the middle is.
  have hmiddle : middle r + smallest / 2 ≤ value (r + 1) := by
    have hstep : smallest ≤ step r := le_mul_of_one_le_left hsmallest.le (one_le_pow₀ one_le_two)
    have hnext := value_succ r
    unfold middle
    linarith
  have hbelow := Nat.floor_le (div_nonneg (value_nonneg (r + 1)) hgrid.le)
  have habove := Nat.lt_floor_add_one (value (r + 1) / 10 ^ (-324 : ℤ))
  rw [le_div_iff₀ hgrid] at hbelow
  rw [div_lt_iff₀ hgrid] at habove
  refine not_holds_of_pick? (holds_value hpos) hnone ⌊value (r + 1) / 10 ^ (-324 : ℤ)⌋₊ ?_
  rw [holds_iff_within hpos, mul_gridStep_grain]
  refine within_succ ?_ ((le_of_eq_of_le ?_ hbelow).trans_lt (value_lt_middle _))
  · show _ < _ * 10 ^ (-324 : ℤ)
    linarith
  · rfl

/-- **The shortest decimal** is rounded to its double. -/
theorem shortest_within (hpos : 0 < p) : Within p (shortest p).value := by
  have hholds := holds_of_pick? (search_stops (finest_pick hpos) 633).1
  rwa [holds_iff_within hpos, mul_gridStep_grain] at hholds

/-- No point of its grid that is rounded to the double is nearer. -/
theorem shortest_nearest (hpos : 0 < p) {c : ℕ}
    (h : Within p (c * 10 ^ (shortest p).place)) :
    |(shortest p).value - value p| ≤ |c * 10 ^ (shortest p).place - value p| := by
  rw [Decimal.place, ← mul_gridStep_grain, ← holds_iff_within hpos] at h
  have hpick := (search_stops (finest_pick hpos) 633).1
  have hnear := pick?_nearest (holds_value hpos) hpick h
  have hdist (x : ℕ) : |x * grain - value p| = ((x - (interval p).value : ℤ).natAbs : ℚ) * grain := by
    rw [← value_grain, ← sub_mul, abs_mul, abs_of_pos grain_pos, Nat.cast_natAbs]
    push_cast
    rfl
  rw [Decimal.value, Decimal.place, ← mul_gridStep_grain, ← mul_gridStep_grain, hdist, hdist]
  exact mul_le_mul_of_nonneg_right (by exact_mod_cast hnear) grain_pos.le

/-- No point of a coarser grid is rounded to the double. -/
theorem not_within_of_coarser (hpos : 0 < p) (hp : p < infinity) {k : ℤ}
    (hk : (shortest p).place < k) (c : ℕ) : ¬ Within p (c * 10 ^ k) := by
  intro h
  unfold Decimal.place at hk
  obtain ⟨j, rfl⟩ : ∃ j : ℕ, k = (j : ℤ) - 324 := ⟨(k + 324).toNat, by omega⟩
  rcases Nat.lt_or_ge 633 j with hlarge | hsmall
  · have hend : threshold ≤ 10 ^ 309 := by decide +kernel
    have hpow (n : ℕ) (hn : n + 324 < j) : ((10 ^ n : ℕ) : ℚ) ≤ 10 ^ ((j : ℤ) - 324) := by
      rw [Nat.cast_pow, Nat.cast_ofNat, ← zpow_natCast]
      exact zpow_le_zpow_right₀ (by norm_num) (by omega)
    have hc : (1 : ℚ) ≤ c := by
      refine Nat.one_le_cast.2 (Nat.pos_of_ne_zero ?_)
      rintro rfl
      simpa using h.pos hpos
    have hlarge := le_mul_of_one_le_left (by positivity) hc |>.trans' (hpow 309 hlarge)
    exact absurd (h.lt_threshold hp) (((Nat.cast_le.2 hend).trans hlarge).not_gt)
  · have hnone := (search_stops (finest_pick hpos) 633).2 j (by unfold shortest at hk; omega) hsmall
    rw [← mul_gridStep_grain, ← holds_iff_within hpos] at h
    exact not_holds_of_pick? (holds_value hpos) hnone c h

end Pattern

end DeskCalc.Shortest
