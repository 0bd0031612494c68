import DeskCalc.Decimal.Shortest

/-!
# Numbers as text

A number is written positionally with its shortest digits, never with an exponent, and with a
fraction only if it has one. `formatNumber` is what the display shows, and writes both zeros as
`0`; `numberText`, for messages and reports, keeps the sign of zero.
-/

namespace DeskCalc

namespace Shortest.Decimal

/-- The decimal written positionally: zeros fill up to the point on either side, and behind it no
zero ends the digits. -/
def layout (d : Decimal) : List Char :=
  let digits := Nat.toDigits 10 d.digits
  if 324 ≤ d.exponent then digits ++ List.replicate (d.exponent - 324) '0'
  else
    let places := 324 - d.exponent
    let padded := List.replicate (places + 1 - digits.length) '0' ++ digits
    padded.take (padded.length - places) ++ '.' :: padded.drop (padded.length - places)

end Shortest.Decimal

/-- The text of a number that is not negative, given by its pattern. -/
def magnitudeText (pattern : Nat) : String :=
  if pattern = 0 then "0"
  else if pattern = Binary64.infinity then "inf"
  else String.ofList (Shortest.shortest pattern).layout

/-- The text of a number, with a sign also for negative zero and none for what is no number. -/
def numberText (x : Float) : String :=
  if x.isNaN then "NaN"
  else if Binary64.signBit x then "-" ++ magnitudeText (Binary64.magnitude x)
  else magnitudeText (Binary64.magnitude x)

/-- The text of a number on the display: both zeros are `0`. -/
def formatNumber (x : Float) : String :=
  if x == 0 then "0" else numberText x

end DeskCalc
