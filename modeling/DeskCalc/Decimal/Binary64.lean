/-!
# Doubles as whole numbers of the smallest step

Every finite double is a whole multiple of `2 ^ -1074`, the smallest positive one. `scaled` gives
that multiple for the bit pattern of a double that is not negative, and `nearest` goes the other
way for any fraction: it rounds to the nearest pattern, ties to the even one.

Patterns of non-negative doubles are ordered as the doubles are, and the pattern after the largest
finite one is infinity. So a carry out of the significand needs no case of its own: it moves to the
next binade, and past the last binade to infinity.
-/

namespace DeskCalc

-- A power of naturals is `Nat.pow`'s also where `Nat` is seen as a monoid, so that one text means
-- one thing in the modules that use algebra and in those that do not.
attribute [instance (high + 1)] instPowNat instNatPowNat
attribute [default_instance (high + 1)] instPowNat

/-- `num / den` rounded to a whole number, a half going to the even neighbour. -/
def roundDiv (num den : Nat) : Nat :=
  let q := num / den
  let r := num % den
  if 2 * r < den then q
  else if den < 2 * r then q + 1
  else q + q % 2

namespace Binary64

/-- The pattern of infinity. Smaller patterns are those of the finite doubles from `0` up. -/
def infinity : Nat := 0x7FF0000000000000

/-- The exponent of the step between neighbours of a pattern's double, counted from `2 ^ -1074`. -/
def stepExponent (pattern : Nat) : Nat := pattern / 2 ^ 52 - 1

/-- The significand of a pattern, the implicit bit included. -/
def significand (pattern : Nat) : Nat :=
  if pattern < 2 ^ 52 then pattern else 2 ^ 52 + pattern % 2 ^ 52

/-- The value of a finite pattern in units of `2 ^ -1074`. -/
def scaled (pattern : Nat) : Nat := significand pattern * 2 ^ stepExponent pattern

/-- The exponent of the step between doubles around `num / den`, counted from `2 ^ -1074`. -/
def stepExponentOf (num den : Nat) : Nat := (num * 2 ^ 1074 / den).log2 - 52

/-- The pattern nearest to `num / den`, ties to even. From `2 ^ 1024 - 2 ^ 970` on it is infinity. -/
def nearest (num den : Nat) : Nat :=
  let e := stepExponentOf num den
  min (e * 2 ^ 52 + roundDiv (num * 2 ^ 1074) (den * 2 ^ e)) infinity

/-- The double with a given pattern. -/
def toFloat (pattern : Nat) : Float := Float.ofBits (UInt64.ofNat pattern)

/-- The pattern of a double without its sign. -/
def magnitude (x : Float) : Nat := x.toBits.toNat % 2 ^ 63

/-- Whether the sign bit of a double is set, so also for negative zero. -/
def signBit (x : Float) : Bool := 2 ^ 63 ≤ x.toBits.toNat

end Binary64

end DeskCalc
