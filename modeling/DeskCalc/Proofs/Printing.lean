import DeskCalc.Decimal.Layout
import DeskCalc.Proofs.Grids
import DeskCalc.Proofs.Lexemes

/-!
# The printed decimal reads back

**Theorem (`magnitudeText_reads`).** The text of a finite pattern is a numeral, and it is read as the
double of the pattern.

The layout writes a numeral of the value of its decimal (`Decimal.layout_written`,
`Decimal.value_numeral`). The shortest decimal is rounded to its double, and reading rounds to the
nearest double, too.
-/

namespace DeskCalc

namespace Shortest

open Binary64

/-! ## Digits and zeros -/

theorem digits_replicate (k : Nat) : Digits (List.replicate k '0') := by
  intro c hc
  rw [List.eq_of_mem_replicate hc]
  decide

theorem digits_toDigits (n : Nat) : Digits (Nat.toDigits 10 n) := fun _ hc =>
  Nat.isDigit_of_mem_toDigits (by decide) (by decide) hc

/-- Zeros in front do not change the number and zeros behind multiply it. -/
theorem natOfDigits_zeros (cs : List Char) (j k : Nat) :
    natOfDigits (List.replicate j '0' ++ (cs ++ List.replicate k '0'))
      = natOfDigits cs * 10 ^ k := by
  show Nat.ofDigitChars 10 _ 0 = Nat.ofDigitChars 10 cs 0 * 10 ^ k
  rw [Nat.ofDigitChars_append, Nat.ofDigitChars_append, Nat.ofDigitChars_replicate_zero,
    Nat.ofDigitChars_replicate_zero, Nat.mul_zero, Nat.mul_comm]

theorem natOfDigits_toDigits (n : Nat) : natOfDigits (Nat.toDigits 10 n) = n :=
  Nat.ofDigitChars_ten_toDigits

end Shortest

/-- The text of a numeral, with a point only in front of a fraction. -/
def Numeral.text (n : Numeral) : List Char :=
  if n.fraction = [] then n.whole else n.whole ++ '.' :: n.fraction

namespace Shortest.Decimal

open Binary64

/-! ## The layout -/

variable (d : Decimal)

/-- The digits of a decimal, filled up with zeros to the point on either side. -/
def padded : List Char :=
  List.replicate (324 - d.exponent + 1 - (Nat.toDigits 10 d.digits).length) '0'
    ++ (Nat.toDigits 10 d.digits ++ List.replicate (d.exponent - 324) '0')

/-- The numeral that a decimal is laid out as. -/
def numeral : Numeral where
  whole := d.padded.take (d.padded.length - (324 - d.exponent))
  fraction := d.padded.drop (d.padded.length - (324 - d.exponent))

/-- There is a digit in front of the point. -/
theorem places_lt : 324 - d.exponent < d.padded.length := by
  have hdigits : 0 < (Nat.toDigits 10 d.digits).length := Nat.length_toDigits_pos
  simp only [padded, List.length_append, List.length_replicate]
  omega

theorem length_fraction : d.numeral.fraction.length = 324 - d.exponent := by
  have hplaces := d.places_lt
  rw [numeral, List.length_drop]
  omega

/-- A fraction is written only for places behind the point. -/
theorem fraction_eq_nil_iff : d.numeral.fraction = [] ↔ 0 ≤ d.place := by
  rw [← List.length_eq_zero_iff, length_fraction, place]
  omega

theorem whole_ne_nil : d.numeral.whole ≠ [] := by
  have hplaces := d.places_lt
  refine List.ne_nil_of_length_pos ?_
  rw [numeral, List.length_take]
  omega

theorem whole_append_fraction : d.numeral.whole ++ d.numeral.fraction = d.padded :=
  List.take_append_drop ..

theorem digits_padded : Digits d.padded :=
  digits_append (digits_replicate _) (digits_append (digits_toDigits _) (digits_replicate _))

theorem layout_eq : d.layout = d.numeral.text := by
  have hlength := d.length_fraction
  unfold layout Numeral.text
  split
  · next hint =>
    have hnone : d.numeral.fraction = [] := List.eq_nil_of_length_eq_zero (by omega)
    have hdigits : 0 < (Nat.toDigits 10 d.digits).length := Nat.length_toDigits_pos
    have hzeros : 324 - d.exponent + 1 - (Nat.toDigits 10 d.digits).length = 0 := by omega
    have hwhole := d.whole_append_fraction
    rw [hnone, List.append_nil] at hwhole
    rw [if_pos hnone, hwhole, padded, hzeros, List.replicate_zero, List.nil_append]
  · next hfraction =>
    have hsome : d.numeral.fraction ≠ [] := List.ne_nil_of_length_pos (by omega)
    have hzeros : d.exponent - 324 = 0 := by omega
    rw [if_neg hsome]
    simp [numeral, padded, hzeros]

theorem layout_written : d.numeral.Written d.layout := by
  have hdigits := d.digits_padded
  rw [← whole_append_fraction] at hdigits
  have hwhole : Digits d.numeral.whole := fun c hc => hdigits c (List.mem_append_left _ hc)
  have hfraction : Digits d.numeral.fraction := fun c hc => hdigits c (List.mem_append_right _ hc)
  rw [layout_eq, Numeral.text]
  split
  · next hnone =>
    have hself : d.numeral = ⟨d.numeral.whole, []⟩ := by rw [← hnone]
    rw [hself]
    exact .integer hwhole d.whole_ne_nil
  · exact .decimal hwhole hfraction (.inl d.whole_ne_nil)

/-- The layout does not change the value. -/
theorem value_numeral : d.numeral.value = d.value := by
  have hplace : d.place = (d.exponent - 324 : ℕ) - (324 - d.exponent : ℕ) := by
    unfold place
    omega
  rw [Numeral.value, Numeral.numerator, whole_append_fraction, padded, natOfDigits_zeros,
    natOfDigits_toDigits, Numeral.denominator, length_fraction, value, hplace,
    zpow_sub₀ (by norm_num), zpow_natCast, zpow_natCast]
  push_cast
  ring

end Shortest.Decimal

/-- The text of a positive finite pattern reads back as its double. -/
theorem Shortest.layout_reads {p : Nat} (hpos : 0 < p) (hp : p < Binary64.infinity) :
    ∃ n : Numeral, n.Written (shortest p).layout ∧ n.toFloat = Binary64.toFloat p := by
  refine ⟨_, (shortest p).layout_written, ?_⟩
  have hread : Binary64.Within p (shortest p).numeral.value := by
    rw [Decimal.value_numeral]
    exact shortest_within hpos
  rw [Numeral.toFloat, (Numeral.nearest_eq_iff hp).2 hread]

/-- **Printing and reading.** The text of a finite pattern is a numeral of its double. -/
theorem magnitudeText_reads {p : Nat} (hp : p < Binary64.infinity) :
    ∃ n : Numeral, n.Written (magnitudeText p).toList ∧ n.toFloat = Binary64.toFloat p := by
  unfold magnitudeText
  rcases Nat.eq_zero_or_pos p with rfl | hpos
  · refine ⟨⟨['0'], []⟩, .integer (Shortest.digits_replicate 1) (by decide), ?_⟩
    exact congrArg Binary64.toFloat (Binary64.nearest_zero Nat.zero_lt_one)
  · rw [if_neg (Nat.ne_of_gt hpos), if_neg (Nat.ne_of_lt hp), String.toList_ofList]
    exact Shortest.layout_reads hpos hp

end DeskCalc
