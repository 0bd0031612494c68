import DeskCalc.Decimal.Numeral
import DeskCalc.Error
import DeskCalc.Text.Blank

/-!
# Splitting a text into tokens

`lexeme?` reads the longest lexeme at the front of a text and returns the rest, which is shorter.
`scan` repeats it, skipping blanks, until nothing is left or a character starts no lexeme;
`tokenize` turns such a character into an error. Names are not checked here.
-/

namespace DeskCalc

/-- The numeral at the front of a text and the rest: digits, a point, digits, where one side of
the point must have a digit and the point may be missing with what follows it. -/
def numeral? (cs : List Char) : Option (Numeral × List Char) :=
  let whole := cs.takeWhile Char.isDigit
  match cs.dropWhile Char.isDigit with
  | '.' :: rest =>
    let fraction := rest.takeWhile Char.isDigit
    if whole.isEmpty && fraction.isEmpty then none
    else some (⟨whole, fraction⟩, rest.dropWhile Char.isDigit)
  | rest => if whole.isEmpty then none else some (⟨whole, []⟩, rest)

/-- The run of letters at the front of a text and the rest. -/
def name? (cs : List Char) : Option (String × List Char) :=
  let letters := cs.takeWhile Char.isAlpha
  if letters.isEmpty then none else some (String.ofList letters, cs.dropWhile Char.isAlpha)

/-- The operator, bracket or comma at the front of a text and the rest. Two stars are one
operator. -/
def symbol? : List Char → Option (Token × List Char)
  | '*' :: '*' :: rest => some (.operator .pow, rest)
  | '^' :: rest => some (.operator .pow, rest)
  | '+' :: rest => some (.operator .add, rest)
  | '-' :: rest => some (.operator .sub, rest)
  | '*' :: rest => some (.operator .mul, rest)
  | '/' :: rest => some (.operator .div, rest)
  | '(' :: rest => some (.opening .round, rest)
  | ')' :: rest => some (.closing .round, rest)
  | '[' :: rest => some (.opening .square, rest)
  | ']' :: rest => some (.closing .square, rest)
  | '\x7b' :: rest => some (.opening .curly, rest)
  | '\x7d' :: rest => some (.closing .curly, rest)
  | ',' :: rest => some (.comma, rest)
  | _ => none

/-- The token of the longest lexeme at the front of a text, and the rest. -/
def lexeme? (cs : List Char) : Option (Token × List Char) :=
  match numeral? cs with
  | some (n, rest) => some (.number n.toFloat, rest)
  | none =>
    match name? cs with
    | some (name, rest) => some (.identifier name, rest)
    | none => symbol? cs

/-! ## The rest is shorter -/

theorem length_dropWhile_le (p : Char → Bool) (cs : List Char) :
    (cs.dropWhile p).length ≤ cs.length :=
  (List.dropWhile_suffix p).length_le

theorem length_dropWhile_lt {p : Char → Bool} {cs : List Char} (h : cs.takeWhile p ≠ []) :
    (cs.dropWhile p).length < cs.length := by
  have split : (cs.takeWhile p ++ cs.dropWhile p).length = cs.length := by
    rw [List.takeWhile_append_dropWhile]
  have := List.length_pos_iff.2 h
  rw [List.length_append] at split
  omega

theorem numeral?_length {cs rest : List Char} {n : Numeral} (h : numeral? cs = some (n, rest)) :
    rest.length < cs.length := by
  have short := length_dropWhile_le Char.isDigit cs
  simp only [numeral?] at h
  split at h
  · next after eq =>
    have := length_dropWhile_le Char.isDigit after
    rw [eq, List.length_cons] at short
    split at h
    · simp at h
    · obtain ⟨-, rfl⟩ := Prod.mk.inj (Option.some.inj h)
      omega
  · split at h
    · simp at h
    · next some_digit =>
      obtain ⟨-, rfl⟩ := Prod.mk.inj (Option.some.inj h)
      exact length_dropWhile_lt (by simpa using some_digit)

theorem name?_length {cs rest : List Char} {name : String} (h : name? cs = some (name, rest)) :
    rest.length < cs.length := by
  simp only [name?] at h
  split at h
  · simp at h
  · next some_letter =>
    obtain ⟨-, rfl⟩ := Prod.mk.inj (Option.some.inj h)
    exact length_dropWhile_lt (by simpa using some_letter)

theorem symbol?_length {cs rest : List Char} {t : Token} (h : symbol? cs = some (t, rest)) :
    rest.length < cs.length := by
  unfold symbol? at h
  split at h <;> cases h <;> simp only [List.length_cons] <;> omega

/-- Reading a lexeme leaves less to read. -/
theorem lexeme?_length {cs rest : List Char} {t : Token} (h : lexeme? cs = some (t, rest)) :
    rest.length < cs.length := by
  unfold lexeme? at h
  split at h
  · next eq =>
    obtain ⟨-, rfl⟩ := Prod.mk.inj (Option.some.inj h)
    exact numeral?_length eq
  · split at h
    · next eq =>
      obtain ⟨-, rfl⟩ := Prod.mk.inj (Option.some.inj h)
      exact name?_length eq
    · exact symbol?_length h

/-- So does skipping blanks and then reading one. -/
theorem length_lt_of_front_read {cs after rest : List Char} {c : Char} {t : Token}
    (front : trimFront cs = c :: after) (read : lexeme? (c :: after) = some (t, rest)) :
    rest.length < cs.length := by
  have shorter := lexeme?_length read
  rw [← front] at shorter
  exact Nat.lt_of_lt_of_le shorter (length_dropWhile_le isBlank cs)

/-! ## The whole text -/

/-- The tokens of a text after those already `found`, latest first, and what is left where no
lexeme starts: nothing, or a text that begins with the offending character. -/
def scanFrom (found : List Token) (cs : List Char) : List Token × List Char :=
  match front : trimFront cs with
  | [] => (found.reverse, [])
  | c :: after =>
    match read : lexeme? (c :: after) with
    | some (t, rest) =>
      have := length_lt_of_front_read front read
      scanFrom (t :: found) rest
    | none => (found.reverse, c :: after)
termination_by cs.length

/-- The tokens of a text as far as it can be read, and what is left. -/
def scan (cs : List Char) : List Token × List Char := scanFrom [] cs

/-- How many bytes a text takes in UTF-8. -/
def byteLength (cs : List Char) : Nat := cs.foldr (fun c n => c.utf8Size + n) 0

/-- The tokens of a text, or the first character that starts none. -/
def tokenize (s : String) : Except LexError (List Token) :=
  match scan s.toList with
  | (tokens, []) => .ok tokens
  | (_, c :: rest) => .error ⟨byteLength s.toList - byteLength (c :: rest), c⟩

end DeskCalc
