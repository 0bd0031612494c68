import DeskCalc.Proofs.PlainNumbers

/-!
# Numerals are read correctly

**Theorem (`Numeral.reads_nearest`).** A numeral of any length is one token: the double that its exact
value is rounded to, or infinity from the threshold on. So zeros in front of it and at the end of its
fraction change nothing, a numeral of a larger value has no smaller double, and it calculates to its
double exactly below the threshold.

Only the value of a numeral counts for its double (`toFloat_eq_toFloat`), and more zeros leave the value as
it is (`value_eq_of_zeros`). A numeral alone is a plain text without a sign, so its tokens and its result
are those of plain texts.
-/

namespace DeskCalc

open Binary64

variable {n m : Numeral} {w v : List Char}

namespace Numeral

/-- Zeros in front and zeros at the end of the fraction do not count. -/
theorem value_eq_of_zeros {j k : ℕ} (hwhole : m.whole = List.replicate j '0' ++ n.whole)
    (hfraction : m.fraction = n.fraction ++ List.replicate k '0') : m.value = n.value := by
  have hzeros := Shortest.natOfDigits_zeros (n.whole ++ n.fraction) j k
  rw [List.append_assoc, ← hfraction, ← List.append_assoc, ← hwhole] at hzeros
  have hplaces : m.denominator = n.denominator * 10 ^ k := by
    rw [denominator, hfraction, List.length_append, List.length_replicate, Nat.pow_add]
    rfl
  rw [value, numerator, hzeros, hplaces, value, numerator]
  push_cast
  exact mul_div_mul_right _ _ (by positivity)

theorem signBit_toFloat (h : n.value < threshold) : signBit n.toFloat = false := by
  have hp := nearest_lt_infinity_iff.2 h
  rw [toFloat, toFloat_eq_ofParts hp, signBit_ofParts false hp]

theorem plain_of_written (written : n.Written w) : Plain none n (String.ofList w).toList :=
  ⟨[], [], w, [], by simp [Blanks], by simp [Blanks], written, by simp [Blanks], by simp [signText]⟩

/-- **Numerals are read correctly.** A numeral of any length is one token. Below the threshold this holds
the double that the value is rounded to, and the numeral calculates to it; from the threshold on it holds
infinity, and the numeral is out of range. Of two numerals the one of larger value has no smaller double,
and zeros in front and at the end of the fraction do not change the tokens. -/
theorem reads_nearest (written : n.Written w) :
    tokenize (String.ofList w) = .ok [.number n.toFloat] ∧
    (n.value < threshold → RoundsTo n.value n.toFloat ∧ signBit n.toFloat = false) ∧
    (n.toFloat = Binary64.toFloat infinity ↔ threshold ≤ n.value) ∧
    calculate (String.ofList w)
      = (if n.value < threshold then .ok n.toFloat else .error (.domain .overflow)) ∧
    ∀ (m : Numeral) (v : List Char), m.Written v →
      (n.value ≤ m.value → n.toFloat ≤ m.toFloat) ∧
      ∀ j k, m.whole = List.replicate j '0' ++ n.whole →
        m.fraction = n.fraction ++ List.replicate k '0' →
        tokenize (String.ofList v) = tokenize (String.ofList w) := by
  have htokens := tokenize_plain (plain_of_written written)
  have hcalculate := calculate_plain (plain_of_written written)
  simp only [isFinite_toFloat_iff] at hcalculate
  refine ⟨htokens, fun h => ⟨roundsTo_toFloat h, signBit_toFloat h⟩, toFloat_eq_infinity_iff,
    hcalculate, fun m v hv => ⟨toFloat_le_toFloat, fun j k hwhole hfraction => ?_⟩⟩
  have hvalue := value_eq_of_zeros hwhole hfraction
  rw [htokens, tokenize_plain (plain_of_written hv), toFloat_eq_toFloat hvalue]

/-- The first integer that is no double is halfway between two of them, and read as the even one. -/
theorem reads_nearest_tie :
    let n : Numeral := ⟨"9007199254740993".toList, []⟩
    n.Written n.whole ∧ n.value = 9007199254740993 ∧
      tokenize (String.ofList n.whole) = .ok [.number 9007199254740992] ∧
      RoundsTo 9007199254740993 9007199254740992 ∧
      calculate (String.ofList n.whole) = .ok 9007199254740992 := by
  intro n
  have written : n.Written n.whole := .integer (by decide) (by decide)
  have hvalue : n.value = 9007199254740993 := by
    have hnumerator : n.numerator = 9007199254740993 := by decide
    have hdenominator : n.denominator = 1 := by decide
    simp [value, hnumerator, hdenominator]
  have hbelow : n.value < threshold := by
    have hthreshold : 9007199254740993 < threshold := by decide +kernel
    rw [hvalue]
    exact_mod_cast hthreshold
  have hdouble : n.toFloat = 9007199254740992 := by decide +kernel
  obtain ⟨htokens, hrounds, -, hcalculate, -⟩ := reads_nearest written
  have hnearest := (hrounds hbelow).1
  rw [if_pos hbelow] at hcalculate
  rw [hdouble] at htokens hnearest hcalculate
  rw [hvalue] at hnearest
  exact ⟨written, hvalue, htokens, hnearest, hcalculate⟩

end Numeral

end DeskCalc
