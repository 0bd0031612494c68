import DeskCalc.Proofs.Parsing
import DeskCalc.Proofs.Printing
import DeskCalc.Proofs.Scanning
import DeskCalc.Proofs.Stages

/-!
# Displayed numbers read back

`formatNumber` writes a finite double as a numeral, behind a minus if it is below zero. Read as
tokens this is the number `v.abs` behind at most one sign; as a plain number and as an expression it
is `v` itself, bit for bit, except that negative zero comes back as zero. So two finite doubles with
the same text are equal, or both are zero.
-/

namespace DeskCalc

open Binary64 (ofParts)

/-- The tokens of a displayed number. -/
def displayTokens (v : Float) : List Token :=
  if v < 0 then [.operator .sub, .number v.abs] else [.number v.abs]

/-- The expression of a displayed number. -/
def displayTree (v : Float) : Expr :=
  if v < 0 then .signed .minus (.literal v.abs) else .literal v.abs

/-- The value of a displayed number. -/
def displayValue (v : Float) : Float := if v == 0 then 0 else v

/-! ## The text -/

theorem formatNumber_ofParts {p : Nat} (negative : Bool) (hp : p < Binary64.infinity) :
    formatNumber (ofParts negative p)
      = if negative = true ∧ p ≠ 0 then "-" ++ magnitudeText p else magnitudeText p := by
  unfold formatNumber numberText
  rw [Binary64.ofParts_beq_zero negative hp, Binary64.isNaN_ofParts negative hp,
    Binary64.signBit_ofParts negative hp, Binary64.magnitude_ofParts negative hp]
  by_cases hzero : p = 0
  · subst hzero
    simp [magnitudeText]
  · cases negative <;> simp [hzero]

/-- The characters of a displayed number: a numeral of its magnitude behind the sign. -/
theorem formatNumber_written {v : Float} (hv : v.isFinite = true) :
    ∃ (n : Numeral) (w : List Char), n.Written w ∧ n.toFloat = v.abs ∧
      (formatNumber v).toList = if v < 0 then '-' :: w else w := by
  obtain ⟨negative, p, hp, rfl⟩ := Binary64.exists_parts hv
  obtain ⟨n, written, hvalue⟩ := magnitudeText_reads hp
  refine ⟨n, _, written, ?_, ?_⟩
  · rw [hvalue, Binary64.abs_ofParts negative hp, Binary64.toFloat_eq_ofParts hp]
  · rw [formatNumber_ofParts negative hp]
    simp only [Binary64.ofParts_lt_zero negative hp]
    split
    · rw [String.toList_append]
      rfl
    · rfl

/-! ## The tokens -/

theorem stops_of_front {n : Numeral} {w x : List Char} (h : n.Written w)
    (hx : ∀ c, x.head? = some c → c.isDigit = false ∧ c ≠ '.') : Stops w x :=
  (stops_numeral h).2 fun c hc => ⟨(hx c hc).1, fun hpoint => absurd hpoint (hx c hc).2⟩

/-- A displayed number in front of a text that does not go on with a digit or a point. -/
theorem scan_formatNumber {v : Float} (hv : v.isFinite = true) {x : List Char}
    (hx : ∀ c, x.head? = some c → c.isDigit = false ∧ c ≠ '.') :
    scan ((formatNumber v).toList ++ x) = (displayTokens v ++ (scan x).1, (scan x).2) := by
  obtain ⟨n, w, written, habs, htext⟩ := formatNumber_written hv
  have hnumber := scan_lexeme (.number written) (stops_of_front written hx)
  unfold displayTokens
  rw [htext, ← habs]
  split
  · have hminus := scan_symbol (t := .operator .sub) (c := '-') (by decide) (by decide) (w ++ x)
    rw [List.cons_append, hminus, hnumber]
    rfl
  · rw [hnumber]
    rfl

theorem tokenize_formatNumber {v : Float} (hv : v.isFinite = true) :
    tokenize (formatNumber v) = .ok (displayTokens v) := by
  have hscan := scan_formatNumber hv (x := []) nofun
  rw [List.append_nil, scan_nil, List.append_nil] at hscan
  exact tokenize_eq_ok_iff.2 (scans_of_scan hscan)

/-! ## The value -/

theorem displayTree_spells (v : Float) :
    ∃ n d, Spells .sum (displayTokens v) (displayTree v) n d ∧ n ≤ 1 ∧ d ≤ 1 := by
  unfold displayTokens displayTree
  have hnumber : Spells .signed [.number v.abs] (.literal v.abs) 0 0 :=
    .signedOfAtom (.number v.abs)
  split
  · have hsum := Spells.sumOfProduct (.productOfPower (.powerOfSigned hnumber.minus))
    exact ⟨_, _, hsum, by decide, by decide⟩
  · have hsum := Spells.sumOfProduct (.productOfPower (.powerOfSigned hnumber))
    exact ⟨_, _, hsum, by decide, by decide⟩

theorem parse_displayTokens (v : Float) : parse (displayTokens v) = .ok (displayTree v) := by
  obtain ⟨n, d, h, hn, hd⟩ := displayTree_spells v
  exact parse_of_spells h (by unfold maxNodes; omega) (by unfold maxDepth; omega)

theorem real_of_isFinite {x : Float} (hx : x.isFinite = true) : real x = .ok x := by
  obtain ⟨negative, p, hp, rfl⟩ := Binary64.exists_parts hx
  unfold real
  rw [Binary64.isNaN_ofParts negative hp, Binary64.isInf_ofParts negative hp]
  rfl

/-- The number behind its sign has the value that was displayed. -/
theorem displayValue_eq {v : Float} (hv : v.isFinite = true) :
    displayValue v = if v < 0 then -v.abs else v.abs := by
  obtain ⟨negative, p, hp, rfl⟩ := Binary64.exists_parts hv
  unfold displayValue
  rw [Binary64.ofParts_beq_zero negative hp, Binary64.abs_ofParts negative hp,
    Binary64.neg_ofParts false hp]
  simp only [Binary64.ofParts_lt_zero negative hp, decide_eq_true_eq]
  by_cases hzero : p = 0
  · subst hzero
    simp [Binary64.zero_eq_ofParts]
  · cases negative <;> simp [hzero]

theorem isFinite_abs {v : Float} (hv : v.isFinite = true) : v.abs.isFinite = true := by
  obtain ⟨negative, p, hp, rfl⟩ := Binary64.exists_parts hv
  rw [Binary64.abs_ofParts negative hp]
  exact Binary64.isFinite_ofParts false hp

theorem evaluate_displayTree {v : Float} (hv : v.isFinite = true) :
    (displayTree v).evaluate = .ok (displayValue v) := by
  rw [displayValue_eq hv]
  unfold displayTree
  have hreal := real_of_isFinite (isFinite_abs hv)
  split
  · rw [Expr.evaluate, Expr.evaluate, hreal]
    rfl
  · rw [Expr.evaluate, hreal]

theorem calculate_formatNumber {v : Float} (hv : v.isFinite = true) :
    calculate (formatNumber v) = .ok (displayValue v) :=
  (Calculated.value (tokenize_formatNumber hv) (parse_displayTokens v)
    (evaluate_displayTree hv)).eq

theorem isFinite_displayValue {v : Float} (hv : v.isFinite = true) :
    (displayValue v).isFinite = true := by
  unfold displayValue
  split
  · rfl
  · exact hv

theorem plainNumber_formatNumber {v : Float} (hv : v.isFinite = true) :
    plainNumber (formatNumber v) = some (displayValue v) := by
  have hvalue : plainValue? (displayTokens v) = some (displayValue v) := by
    rw [displayValue_eq hv]
    unfold displayTokens
    split <;> rfl
  unfold plainNumber
  rw [tokenize_formatNumber hv]
  show (plainValue? (displayTokens v)).filter _ = _
  rw [hvalue, Option.filter_some, if_pos (isFinite_displayValue hv)]

theorem displayValue_inj {v w : Float} (h : displayValue v = displayValue w) :
    v = w ∨ (v == 0) = true ∧ (w == 0) = true := by
  have hself : ((0 : Float) == 0) = true := rfl
  unfold displayValue at h
  split at h
  · next hv =>
    split at h
    · next hw => exact .inr ⟨hv, hw⟩
    · next hw => exact absurd (h ▸ hself) hw
  · next hv =>
    split at h
    · next hw => exact absurd (h ▸ hself) hv
    · exact .inl h

/-- **Displayed numbers read back.** The text of a finite double has the tokens of its magnitude
behind its sign, and as a plain number and as an expression it is the double itself, except that
negative zero reads back as zero. Finite doubles with the same text are equal or both zero. -/
theorem formatNumber_reads_back {v : Float} (hv : v.isFinite = true) :
    (tokenize (formatNumber v) = .ok
      (if v < 0 then [.operator .sub, .number v.abs] else [.number v.abs])) ∧
    ((v == 0) = true → tokenize (formatNumber v) = .ok [.number 0]) ∧
    plainNumber (formatNumber v) = some (if v == 0 then 0 else v) ∧
    calculate (formatNumber v) = .ok (if v == 0 then 0 else v) ∧
    ∀ w : Float, w.isFinite = true → formatNumber v = formatNumber w →
      v = w ∨ (v == 0) = true ∧ (w == 0) = true := by
  refine ⟨tokenize_formatNumber hv, fun hzero => ?_, plainNumber_formatNumber hv,
    calculate_formatNumber hv, fun w hw htext => ?_⟩
  · have hnot : ¬ v < 0 := by
      obtain ⟨negative, p, hp, rfl⟩ := Binary64.exists_parts hv
      rw [Binary64.ofParts_beq_zero negative hp] at hzero
      rw [Binary64.ofParts_lt_zero negative hp]
      exact fun h => h.2 (of_decide_eq_true hzero)
    have hvalue := displayValue_eq hv
    rw [displayValue, if_pos hzero, if_neg hnot] at hvalue
    rw [tokenize_formatNumber hv, displayTokens, if_neg hnot, ← hvalue]
  · have hread := calculate_formatNumber hv
    rw [htext, calculate_formatNumber hw] at hread
    exact displayValue_inj (Except.ok.inj hread).symm

/-- The negative double next to zero. -/
theorem formatNumber_least_negative :
    (-Float.ofBits 1).isFinite = true ∧
      calculate (formatNumber (-Float.ofBits 1)) = .ok (-Float.ofBits 1) ∧
      plainNumber (formatNumber (-Float.ofBits 1)) = some (-Float.ofBits 1) := by
  have hfinite : (-Float.ofBits 1).isFinite = true := by decide
  have hread := formatNumber_reads_back hfinite
  have hne : ((-Float.ofBits 1) == 0) = false := by decide
  rw [hne] at hread
  exact ⟨hfinite, hread.2.2.2.1, hread.2.2.1⟩

end DeskCalc
