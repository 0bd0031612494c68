import DeskCalc.Text.GraphemeExtend

/-!
# A character in quotes

A message that names a character shows it between single quotes. The null character, tab, line
feed, carriage return, the quote and the backslash have short escapes; a character that could not
be seen or would attach to the quote is given by its code point, `\u{301}`.
-/

namespace DeskCalc

/-- A number in lower-case hexadecimal, without leading zeros. -/
def hexText (n : Nat) : String := String.ofList (Nat.toDigits 16 n)

/-- A character as it stands between the quotes. -/
def escapedChar (c : Char) : String :=
  if c = '\x00' then "\\0"
  else if c = '\t' then "\\t"
  else if c = '\n' then "\\n"
  else if c = '\r' then "\\r"
  else if c = '\'' then "\\'"
  else if c = '\\' then "\\\\"
  else if isGraphemeExtend c || isUnprintable c then "\\u\x7b" ++ hexText c.toNat ++ "\x7d"
  else String.singleton c

/-- A character between single quotes. -/
def quotedChar (c : Char) : String := "'" ++ escapedChar c ++ "'"

end DeskCalc
