import DeskCalc.Decimal.Binary64

/-!
# The shortest decimal of a double

The decimals that read back as a given double fill an interval around it, its ends included
exactly when the significand is even. The grid of all multiples of `10 ^ k` gets coarser as `k`
grows, and the coarsest grid with a point in the interval holds the decimals with the fewest
digits. `shortest` finds that grid and takes its point nearest to the double.

Only the double's two neighbours on a grid need a look: if any point of the grid lies in the
interval, one of these does. All quantities are whole numbers of `2 ^ -1076 * 10 ^ -324`, so every
comparison is exact; the last grid, `10 ^ -324`, is finer than the narrowest interval.
-/

namespace DeskCalc

namespace Binary64

/-- The decimals that read back as one double, and the double, in units of `2 ^ -1076 * 10 ^ -324`. -/
structure Interval where
  low : Nat
  value : Nat
  high : Nat
  closed : Bool

/-- The interval of the decimals that read back as the double of a positive finite pattern. Below
a power of two the neighbours are twice as close as above it. -/
def interval (pattern : Nat) : Interval :=
  let m := significand pattern
  let e := stepExponent pattern
  let below := if pattern % 2 ^ 52 = 0 ∧ 2 ^ 53 ≤ pattern then 1 else 2
  { low := (4 * m - below) * 2 ^ e * 10 ^ 324
    value := 4 * m * 2 ^ e * 10 ^ 324
    high := (4 * m + 2) * 2 ^ e * 10 ^ 324
    closed := m % 2 == 0 }

end Binary64

namespace Shortest

open Binary64

/-- A positive decimal `digits * 10 ^ (exponent - 324)`. -/
structure Decimal where
  digits : Nat
  exponent : Nat
  deriving DecidableEq, Repr

/-- The distance between points of the grid `10 ^ (j - 324)`. -/
def gridStep (j : Nat) : Nat := 2 ^ 1076 * 10 ^ j

/-- Whether a point lies in the interval. -/
def Holds (i : Interval) (x : Nat) : Prop :=
  if i.closed then i.low ≤ x ∧ x ≤ i.high else i.low < x ∧ x < i.high

instance (i : Interval) (x : Nat) : Decidable (Holds i x) := by unfold Holds; infer_instance

/-- The point of a grid that stands for the double, if one lies in the interval: of the double's
two neighbours on the grid the one inside, and the nearer if both are, the upper at a tie. -/
def pick? (i : Interval) (j : Nat) : Option Nat :=
  let step := gridStep j
  let c := i.value / step
  match decide (Holds i (c * step)), decide (Holds i ((c + 1) * step)) with
  | true, true => if 2 * (i.value % step) < step then some c else some (c + 1)
  | true, false => some c
  | false, true => some (c + 1)
  | false, false => none

/-- The pick of the coarsest grid, from `10 ^ (j - 324)` down, that has one. -/
def search (i : Interval) : Nat → Decimal
  | 0 => ⟨(pick? i 0).getD 0, 0⟩
  | j + 1 =>
    match pick? i (j + 1) with
    | some digits => ⟨digits, j + 1⟩
    | none => search i j

/-- The shortest decimal that reads back as the double of a positive finite pattern, and of those
the nearest. No double reaches `10 ^ 309`, so the search starts at that grid. -/
def shortest (pattern : Nat) : Decimal := search (interval pattern) 633

end Shortest

end DeskCalc
