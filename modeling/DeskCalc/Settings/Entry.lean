import DeskCalc.Assoc
import DeskCalc.Decimal.Numeral
import DeskCalc.Text.Blank

/-!
# Values of settings

The text of a setting is read as a value: a truth value, a whole number, a number with a point, a
quoted text, a list, a table of named values, or else the text that it is. `Entry.ofText` never
fails, because a text that breaks the rules of a value is the value of itself.

A quoted text stands for itself if it has no escape. Else the part before its first escape is cut
to as many bytes of UTF-8 as it has characters, so each character beyond ASCII in that part costs
it some of its end; behind the first escape nothing is lost.
-/

namespace DeskCalc

/-- The value of a setting. Numbers with a point are recognised but not kept, as no setting takes
one. -/
inductive Entry where
  | text (s : String)
  | character (c : Char)
  | flag (b : Bool)
  | whole (n : Int)
  | pointed
  | list (items : List Entry)
  | table (fields : List (String × Entry))

namespace Entry

/-! ## Numbers -/

/-- Whether a text is a run of at least one digit. -/
def isDigits (cs : List Char) : Bool := !cs.isEmpty && cs.all Char.isDigit

/-- A text without the sign at its front. -/
def unsigned (cs : List Char) : List Char :=
  match cs with
  | '+' :: rest => rest
  | '-' :: rest => rest
  | _ => cs

/-- The whole number that a text spells, if it is less than `2 ^ 64` and not below `-2 ^ 63`. -/
def whole? (cs : List Char) : Option Int :=
  let digits := unsigned cs
  let n := natOfDigits digits
  if !isDigits digits then none
  else if cs.head? = some '-' then
    if n ≤ 2 ^ 63 then some (-n) else none
  else if n < 2 ^ 64 then some n else none

/-- Whether a text is a number with a point: digits on a side of the point or on both, perhaps a
sign before and an exponent behind. -/
def isPointed (cs : List Char) : Bool :=
  let digits := unsigned cs
  let front := digits.takeWhile Char.isDigit
  match digits.dropWhile Char.isDigit with
  | '.' :: after =>
    let back := after.takeWhile Char.isDigit
    let exponent :=
      match after.dropWhile Char.isDigit with
      | [] => true
      | c :: power => (c = 'e' || c = 'E') && isDigits (unsigned power)
    !(front.isEmpty && back.isEmpty) && exponent
  | _ => false

/-- The value of a text without quotes or brackets. -/
def ofBare (cs : List Char) : Entry :=
  if isPointed cs then pointed
  else
    match whole? cs with
    | some n => whole n
    | none => text (String.ofList cs)

/-! ## Quoted texts -/

/-- The character of a run of hexadecimal digits, if they are its code point. -/
def codePoint? (digits : List Char) : Option Char := do
  let n ← digits.foldlM (fun n c => (digit? c).map (16 * n + ·)) 0
  if n.isValidChar then some (Char.ofNat n) else none
where
  digit? (c : Char) : Option Nat :=
    if c.isDigit then some (c.toNat - '0'.toNat)
    else if 'a' ≤ c ∧ c ≤ 'f' then some (c.toNat - 'a'.toNat + 10)
    else if 'A' ≤ c ∧ c ≤ 'F' then some (c.toNat - 'A'.toNat + 10)
    else none

/-- The character that a backslash and another character stand for. -/
def escaped? : Char → Option Char
  | '"' => some '"'
  | '\\' => some '\\'
  | 'b' => some '\x08'
  | 'f' => some '\x0c'
  | 'n' => some '\n'
  | 'r' => some '\r'
  | 't' => some '\t'
  | _ => none

/-- Whether a character may stand in a quoted text: no control character but the tab. -/
def isQuotable (c : Char) : Bool := c = '\t' || (0x20 ≤ c.toNat && c != '\x7f')

/-- The text that a text with escapes stands for. -/
def unescaped? : List Char → Option (List Char)
  | [] => some []
  | '\\' :: 'u' :: a :: b :: c :: d :: rest => do
    return (← codePoint? [a, b, c, d]) :: (← unescaped? rest)
  | '\\' :: 'U' :: a :: b :: c :: d :: e :: f :: g :: h :: rest => do
    return (← codePoint? [a, b, c, d, e, f, g, h]) :: (← unescaped? rest)
  | '\\' :: c :: rest => do
    return (← escaped? c) :: (← unescaped? rest)
  | c :: rest => if isQuotable c && c != '\\' then (unescaped? rest).map (c :: ·) else none

/-- The characters at the front of a text that fit into a number of bytes of UTF-8. -/
def fitting : Nat → List Char → List Char
  | _, [] => []
  | room, c :: cs => if c.utf8Size ≤ room then c :: fitting (room - c.utf8Size) cs else []

/-- The text that stands between quotes as `cs`. If it has an escape, the part before the first one
keeps as many bytes as it has characters. -/
def ofQuoted? (cs : List Char) : Option (List Char) :=
  let front := cs.takeWhile (· != '\\')
  match cs.dropWhile (· != '\\') with
  | [] => if front.all isQuotable then some front else none
  | escapes =>
    if front.all isQuotable then (unescaped? escapes).map (fitting front.length front ++ ·)
    else none

/-- What stands before the closing quote, and what is behind that quote. A quote behind a backslash
closes nothing. The text read so far is `found`, latest first. -/
def closingQuote? (found : List Char) : List Char → Option (List Char × List Char)
  | [] => none
  | '"' :: rest => some (found.reverse, rest)
  | '\\' :: c :: rest => closingQuote? (c :: '\\' :: found) rest
  | c :: rest => closingQuote? (c :: found) rest

/-- The text before the closing quote, and what is behind that quote. -/
def quoted? (cs : List Char) : Option (List Char × List Char) := do
  let (inner, rest) ← closingQuote? [] cs
  return (← ofQuoted? inner, rest)

/-! ## Values -/

/-- The blanks of ASCII, the vertical tab excepted. -/
def isSpace (c : Char) : Bool := c = ' ' || c = '\t' || c = '\n' || c = '\r' || c = '\x0c'

/-- Whether a character ends a text without quotes. -/
def isSeparator (c : Char) : Bool := c = ',' || c = '\x7b' || c = '\x7d' || c = '[' || c = ']'

/-- Whether a character can stand in the name of a field without quotes. -/
def isNameChar (c : Char) : Bool := c.isAlphanum || c = '_' || c = '-'

/-- The name of a field and what is behind it. -/
def fieldName? (cs : List Char) : Option (String × List Char) :=
  match cs with
  | '"' :: rest => (quoted? rest).map fun (name, rest) => (String.ofList name, rest)
  | _ =>
    let name := cs.takeWhile isNameChar
    if name.isEmpty then none else some (String.ofList name, cs.dropWhile isNameChar)

mutual

/-- The value at the front of a text, and what is behind it and the spaces that follow it. Every
bracket and comma costs at most two units of `fuel`. -/
def value? : Nat → List Char → Option (Entry × List Char)
  | 0, _ => none
  | fuel + 1, cs => do
    let (value, rest) ←
      match cs.dropWhile isSpace with
      | 't' :: 'r' :: 'u' :: 'e' :: rest => some (flag true, rest)
      | 'f' :: 'a' :: 'l' :: 's' :: 'e' :: rest => some (flag false, rest)
      | '\x7b' :: rest => (fields? fuel [] rest).map fun (fields, rest) => (table fields, rest)
      | '[' :: rest => (items? fuel [] rest).map fun (items, rest) => (list items, rest)
      | '"' :: rest =>
        (quoted? rest).map fun (s, rest) => (text (String.ofList s), rest)
      | '\'' :: rest =>
        match rest with
        | c :: '\'' :: rest => some (character c, rest)
        | _ => none
      | cs =>
        some (ofBare (trim (cs.takeWhile (!isSeparator ·))), cs.dropWhile (!isSeparator ·))
    return (value, rest.dropWhile isSpace)

/-- The items of a list, after those already `found`, latest first, and what is behind it, when its
opening bracket is read. -/
def items? : Nat → List Entry → List Char → Option (List Entry × List Char)
  | 0, _, _ => none
  | _, found, ']' :: rest => some (found.reverse, rest)
  | fuel + 1, found, cs => do
    match ← value? fuel cs with
    | (value, ',' :: rest) => items? fuel (value :: found) rest
    | (value, ']' :: rest) => some ((value :: found).reverse, rest)
    | _ => none

/-- The fields of a table, after those already `found`, and what is behind it, when its opening
bracket is read. -/
def fields? : Nat → List (String × Entry) → List Char → Option (List (String × Entry) × List Char)
  | 0, _, _ => none
  | _, found, '\x7d' :: rest => some (found, rest)
  | fuel + 1, found, cs => do
    let (name, rest) ← fieldName? (cs.dropWhile isSpace)
    match rest.dropWhile isSpace with
    | '=' :: rest =>
      match ← value? fuel rest with
      | (value, ',' :: rest) => fields? fuel (put name value found) rest
      | (value, '\x7d' :: rest) => some (put name value found, rest)
      | _ => none
    | _ => none

end

/-- The value that a text spells: the text itself if it breaks the rules, or has more behind a
value. -/
def ofText (s : String) : Entry :=
  match value? (2 * s.length + 2) s.toList with
  | some (value, []) => value
  | _ => text s

end Entry

end DeskCalc
