import DeskCalc.Decimal.Binary64

/-!
# Decimal numerals

A numeral is a run of digits with a run of digits behind the point. It denotes an exact fraction,
and `Numeral.toFloat` is the double nearest to it however long the runs are.
-/

namespace DeskCalc

/-- The number a list of decimal digits denotes. -/
def natOfDigits (digits : List Char) : Nat :=
  digits.foldl (fun n c => 10 * n + (c.toNat - '0'.toNat)) 0

/-- The digits before and behind the decimal point. -/
structure Numeral where
  whole : List Char
  fraction : List Char
  deriving DecidableEq, Repr

namespace Numeral

/-- The numerator of the numeral over `denominator`. -/
def numerator (n : Numeral) : Nat := natOfDigits (n.whole ++ n.fraction)

/-- One power of ten for each digit behind the point. -/
def denominator (n : Numeral) : Nat := 10 ^ n.fraction.length

/-- The double nearest to the numeral's exact value, ties to even, infinity beyond the last one. -/
def toFloat (n : Numeral) : Float :=
  Binary64.toFloat (Binary64.nearest n.numerator n.denominator)

end Numeral

end DeskCalc
