import DeskCalc.Console

/-!
# Reading JSON

`Json.read?` reads a text as one JSON value: any escapes in strings, white space wherever it may
stand, and no more than one value. It knows nothing of displays.

**Theorem (`read?_jsonLine`).** The line of output that shows a display in JSON is read as an object
with two members, the text of the display and whether it is an error. This is so for every text: what
`jsonString` puts between the quotes is read back one spelled character at a time
(`Spelled.units?_append`). The line itself has no line feed in it (`newline_notMem_jsonLine`), since
a line feed is always escaped.
-/

namespace DeskCalc

/-- A JSON value. A number stays as it is written. -/
inductive Json where
  | null
  | boolean (value : Bool)
  | number (text : String)
  | string (text : String)
  | array (elements : List Json)
  | object (members : List (String × Json))

namespace Json

/-- The white space between the parts of a JSON text. -/
def isGap (c : Char) : Bool := c == ' ' || c == '\t' || c == '\n' || c == '\r'

/-- The text without the white space at its front. -/
def skip (cs : List Char) : List Char := cs.dropWhile isGap

/-! ## Strings -/

/-- The value of a hexadecimal digit. -/
def hexValue? (c : Char) : Option Nat :=
  if c.isDigit then some (c.toNat - 48)
  else if 'a' ≤ c ∧ c ≤ 'f' then some (c.toNat - 87)
  else if 'A' ≤ c ∧ c ≤ 'F' then some (c.toNat - 55)
  else none

/-- The number that four hexadecimal digits write. -/
def codeUnit? (a b c d : Char) : Option Nat := do
  return (((← hexValue? a) * 16 + (← hexValue? b)) * 16 + (← hexValue? c)) * 16 + (← hexValue? d)

/-- The character that one behind a backslash stands for. -/
def escape? : Char → Option Char
  | '"' => some '"'
  | '\\' => some '\\'
  | '/' => some '/'
  | 'b' => some '\x08'
  | 'f' => some '\x0c'
  | 'n' => some '\n'
  | 'r' => some '\r'
  | 't' => some '\t'
  | _ => none

/-- The contents of a string up to the quote that ends it, and the rest behind the quote. An escaped
number may be one half of a character, so the contents are numbers. -/
def units? : List Char → Option (List Nat × List Char)
  | [] => none
  | '"' :: rest => some ([], rest)
  | '\\' :: 'u' :: a :: b :: c :: d :: rest => do
    let unit ← codeUnit? a b c d
    (units? rest).map (Prod.map (unit :: ·) id)
  | '\\' :: e :: rest => do
    let c ← escape? e
    (units? rest).map (Prod.map (c.toNat :: ·) id)
  | c :: rest =>
    if c = '\\' ∨ c.toNat < 0x20 then none
    else (units? rest).map (Prod.map (c.toNat :: ·) id)

/-- The characters of a string's contents. The numbers from `0xD800` to `0xDBFF` are first halves of
characters, and each needs a second half behind it. -/
def ofUnits? : List Nat → Option (List Char)
  | [] => some []
  | n :: rest =>
    if 0xD800 ≤ n ∧ n < 0xDC00 then
      match rest with
      | [] => none
      | m :: rest =>
        if 0xDC00 ≤ m ∧ m < 0xE000 then
          (ofUnits? rest).map (Char.ofNat (0x10000 + (n - 0xD800) * 0x400 + (m - 0xDC00)) :: ·)
        else none
    else if n.isValidChar then (ofUnits? rest).map (Char.ofNat n :: ·)
    else none

/-- A string behind its first quote, and the rest. -/
def string? (cs : List Char) : Option (String × List Char) := do
  let (units, rest) ← units? cs
  let text ← ofUnits? units
  return (String.ofList text, rest)

/-! ## Numbers -/

/-- A run of digits, and the rest. -/
def digits? (cs : List Char) : Option (List Char × List Char) :=
  if (cs.takeWhile Char.isDigit).isEmpty then none
  else some (cs.takeWhile Char.isDigit, cs.dropWhile Char.isDigit)

/-- One of some characters and what is read behind it, or nothing. -/
def marked? (marks : List Char) (behind? : List Char → Option (List Char × List Char)) :
    List Char → Option (List Char × List Char)
  | [] => some ([], [])
  | c :: cs =>
    if c ∈ marks then (behind? cs).map fun (w, rest) => (c :: w, rest) else some ([], c :: cs)

/-- The digits of an exponent behind a sign or none, and the rest. -/
def exponent? (cs : List Char) : Option (List Char × List Char) := do
  let (sign, cs) ← marked? ['+', '-'] (fun cs => some ([], cs)) cs
  let (digits, rest) ← digits? cs
  return (sign ++ digits, rest)

/-- A number, and the rest: digits, of which the first is zero only if it is all, perhaps a minus in
front of them and a fraction and an exponent behind them. -/
def number? (cs : List Char) : Option (String × List Char) := do
  let (minus, cs) ← marked? ['-'] (fun cs => some ([], cs)) cs
  let (whole, cs) ← match cs with
    | '0' :: cs => some (['0'], cs)
    | cs => digits? cs
  let (fraction, cs) ← marked? ['.'] digits? cs
  let (exponent, rest) ← marked? ['e', 'E'] exponent? cs
  return (String.ofList (minus ++ whole ++ fraction ++ exponent), rest)

/-! ## Values -/

/-- Some items with commas between them up to the character that closes them, and the rest. The number
bounds how many they are. -/
def items? {α : Type} (item? : List Char → Option (α × List Char)) (close : Char) :
    Nat → List Char → Option (List α × List Char)
  | 0, _ => none
  | most + 1, cs => do
    let (first, rest) ← item? cs
    match skip rest with
    | ',' :: rest => do
      let (others, after) ← items? item? close most rest
      return (first :: others, after)
    | c :: after => if c = close then some ([first], after) else none
    | [] => none

/-- Some items, or none, behind the character that opens them, and the rest. -/
def list? {α : Type} (item? : List Char → Option (α × List Char)) (close : Char) (cs : List Char) :
    Option (List α × List Char) :=
  if (skip cs).head? = some close then some ([], (skip cs).tail) else items? item? close cs.length cs

/-- A name, a colon and a value, and the rest. -/
def member? (value? : List Char → Option (Json × List Char)) (cs : List Char) :
    Option ((String × Json) × List Char) :=
  match skip cs with
  | '"' :: cs => do
    let (name, cs) ← string? cs
    match skip cs with
    | ':' :: cs => do
      let (value, rest) ← value? cs
      return ((name, value), rest)
    | _ => none
  | _ => none

/-- A value that nests less than so deep, and the rest. -/
def value? : Nat → List Char → Option (Json × List Char)
  | 0, _ => none
  | depth + 1, cs =>
    match skip cs with
    | '"' :: rest => (string? rest).map fun (text, after) => (string text, after)
    | '[' :: rest =>
      (list? (value? depth) ']' rest).map fun (elements, after) => (array elements, after)
    | '\x7b' :: rest =>
      (list? (member? (value? depth)) '\x7d' rest).map fun (members, after) => (object members, after)
    | 'n' :: 'u' :: 'l' :: 'l' :: rest => some (null, rest)
    | 't' :: 'r' :: 'u' :: 'e' :: rest => some (boolean true, rest)
    | 'f' :: 'a' :: 'l' :: 's' :: 'e' :: rest => some (boolean false, rest)
    | rest => (number? rest).map fun (text, after) => (number text, after)

/-- The value that a whole text writes. Every level of nesting takes a character. -/
def read? (cs : List Char) : Option Json := do
  let (value, rest) ← value? (cs.length + 1) cs
  if (skip rest).isEmpty then some value else none

example : read? " [null, -1.5e3, \x7b\"\\ud83d\\ude00\" : []\x7d] ".toList
    = some (.array [.null, .number "-1.5e3", .object [("😀", .array [])]]) := by cbv

/-! ## Strings read back -/

/-- The ways in which a character stands inside a JSON string. -/
inductive Spelled (c : Char) : List Char → Prop
  | short {e : Char} : escape? e = some c → Spelled c ['\\', e]
  | long : c.toNat < 0x20 → Spelled c
      ['\\', 'u', '0', '0', Nat.digitChar (c.toNat / 16), Nat.digitChar (c.toNat % 16)]
  | plain : c ≠ '"' → c ≠ '\\' → 0x20 ≤ c.toNat → Spelled c [c]

theorem spelled_jsonChar (c : Char) : Spelled c (jsonChar c) := by
  by_cases hshort : c ∈ ['"', '\\', '\x08', '\t', '\n', '\x0c', '\r']
  · simp only [List.mem_cons, List.not_mem_nil, or_false] at hshort
    rcases hshort with rfl | rfl | rfl | rfl | rfl | rfl | rfl <;> exact .short rfl
  · simp only [List.mem_cons, List.not_mem_nil, or_false, not_or] at hshort
    obtain ⟨hquote, hback, hb, ht, hn, hf, hr⟩ := hshort
    rw [jsonChar, if_neg hquote, if_neg hback, if_neg hb, if_neg ht, if_neg hn, if_neg hf, if_neg hr]
    split
    next hlow => exact .long hlow
    next hhigh => exact .plain hquote hback (Nat.le_of_not_lt hhigh)

theorem hexValue?_digitChar : ∀ n < 16, hexValue? (Nat.digitChar n) = some n := by decide

/-- A character is read back from the way it stands in a string. -/
theorem Spelled.units?_append {c : Char} {w : List Char} (h : Spelled c w) (rest : List Char) :
    units? (w ++ rest) = (units? rest).map (Prod.map (c.toNat :: ·) id) := by
  cases h with
  | @short e hescape =>
    have hu : ∀ a b c d after, e = 'u' → rest ≠ a :: b :: c :: d :: after := by
      rintro _ _ _ _ _ rfl
      cases hescape
    rw [List.cons_append, List.singleton_append, units?, hescape]
    · rfl
    · exact hu
  | long hlow =>
    have hfirst := hexValue?_digitChar (c.toNat / 16) (by omega)
    have hlast := hexValue?_digitChar (c.toNat % 16) (by omega)
    have hzero : hexValue? '0' = some 0 := rfl
    have hunit : codeUnit? '0' '0' (c.toNat / 16).digitChar (c.toNat % 16).digitChar
        = some c.toNat := by
      rw [codeUnit?, hfirst, hlast, hzero]
      exact congrArg some (by omega)
    show (codeUnit? _ _ _ _ >>= fun unit => (units? rest).map (Prod.map (unit :: ·) id)) = _
    rw [hunit]
    rfl
  | plain hquote hback hhigh =>
    have hkept : ¬ (c = '\\' ∨ c.toNat < 0x20) := not_or.2 ⟨hback, Nat.not_lt.2 hhigh⟩
    rw [List.singleton_append, units?, if_neg hkept]
    · exact hquote
    · exact fun _ _ _ _ _ h _ => hback h
    · exact fun _ _ h _ => hback h

/-- The contents of a string are read up to its last quote. -/
theorem units?_text (cs rest : List Char) :
    units? (cs.flatMap jsonChar ++ '"' :: rest) = some (cs.map Char.toNat, rest) := by
  induction cs with
  | nil => rfl
  | cons c cs ih =>
    rw [List.flatMap_cons, List.append_assoc, (spelled_jsonChar c).units?_append, ih]
    rfl

/-- No character is one half of a character. -/
theorem ofUnits?_map_toNat (cs : List Char) : ofUnits? (cs.map Char.toNat) = some cs := by
  induction cs with
  | nil => rfl
  | cons c cs ih =>
    have hvalid : c.toNat.isValidChar := c.valid
    have hwhole : ¬ (0xD800 ≤ c.toNat ∧ c.toNat < 0xDC00) := by
      rcases hvalid with h | h <;> omega
    rw [List.map_cons, ofUnits?.eq_def]
    dsimp only
    rw [if_neg hwhole, if_pos hvalid, ih, Char.ofNat_toNat]
    rfl

/-- What `jsonString` writes is read back, behind its first quote. -/
theorem string?_text (s : String) (rest : List Char) :
    string? (s.toList.flatMap jsonChar ++ '"' :: rest) = some (s, rest) := by
  rw [string?, units?_text]
  show (ofUnits? _ >>= fun text => some (String.ofList text, rest)) = _
  rw [ofUnits?_map_toNat]
  exact congrArg (fun text => some (text, rest)) String.ofList_toList

/-- However a character stands in a string, no line feed stands there. -/
theorem Spelled.newline_notMem {c : Char} {w : List Char} (h : Spelled c w) : '\n' ∉ w := by
  have hdigit : ∀ n < 16, '\n' ≠ Nat.digitChar n := by decide
  cases h with
  | @short e hescape =>
    have he : '\n' ≠ e := by
      rintro rfl
      cases hescape
    simp [he]
  | long hlow =>
    simp [hdigit (c.toNat / 16) (by omega), hdigit (c.toNat % 16) (by omega)]
  | plain _ _ hhigh =>
    have hc : '\n' ≠ c := by
      rintro rfl
      exact absurd hhigh (by decide)
    simp [hc]

/-! ## Values read back -/

theorem value?_string (depth : Nat) (s : String) (rest : List Char) :
    value? (depth + 1) ('"' :: (s.toList.flatMap jsonChar ++ '"' :: rest)) = some (string s, rest) := by
  show (string? _).map _ = _
  rw [string?_text]
  rfl

theorem value?_boolean (depth : Nat) (b : Bool) (rest : List Char) :
    value? (depth + 1) ((if b then "true" else "false").toList ++ rest) = some (boolean b, rest) := by
  cases b <;> rfl

theorem member?_named (read : List Char → Option (Json × List Char)) (name : String)
    (rest : List Char) : member? read ('"' :: (name.toList.flatMap jsonChar ++ '"' :: ':' :: rest))
      = (read rest).map (Prod.map (name, ·) id) := by
  show (string? _ >>= fun p => _) = _
  rw [string?_text]
  show (read rest >>= fun p => some ((name, p.1), p.2)) = _
  cases read rest <;> rfl

theorem items?_pair {α : Type} {item? : List Char → Option (α × List Char)} {a b : α}
    {cs rest : List Char} (most : Nat) (hfirst : item? cs = some (a, ',' :: rest))
    (hsecond : item? rest = some (b, ['\x7d'])) :
    items? item? '\x7d' (most + 2) cs = some ([a, b], []) := by
  have hlast : items? item? '\x7d' (most + 1) rest = some ([b], []) := by
    rw [items?, hsecond]
    rfl
  rw [items?, hfirst]
  show (items? item? '\x7d' (most + 1) rest >>= fun p => some (a :: p.1, p.2)) = _
  rw [hlast]
  rfl

end Json

/-! ## Displays read back -/

/-- A display as a JSON value. -/
def Display.json (d : Display) : Json :=
  .object [("text", .string d.text), ("is_error", .boolean d.isError)]

/-- A display as a line of JSON, without the line feed behind it. -/
def Display.jsonLine (d : Display) : List Char :=
  "\x7b\"text\":".toList ++ ('"' :: (d.text.toList.flatMap jsonChar ++ '"' ::
    (",\"is_error\":".toList ++ ((if d.isError then "true" else "false").toList ++ ['\x7d']))))

theorem toList_render_json (d : Display) :
    (OutputFormat.json.render d).toList = d.jsonLine ++ ['\n'] := by
  have hend : "\x7d\n".toList = ['\x7d', '\n'] := rfl
  unfold OutputFormat.render Display.jsonLine jsonString
  rw [String.toList_append, String.toList_append, String.toList_append, String.toList_append, hend,
    String.toList_ofList]
  -- as letters, so that nothing looks into the constant texts
  generalize ",\"is_error\":".toList = middle
  generalize (if d.isError then "true" else "false").toList = flag
  simp

/-- **A line of JSON is read as the display it shows**, whatever the text is. -/
theorem read?_jsonLine (d : Display) : Json.read? d.jsonLine = some d.json := by
  obtain ⟨text, isError⟩ := d
  -- the two members, with their names as the escapes of their characters
  let second : List Char := '"' :: ("is_error".toList.flatMap jsonChar ++ '"' :: ':' ::
    ((if isError then "true" else "false").toList ++ ['\x7d']))
  let first : List Char := '"' :: ("text".toList.flatMap jsonChar ++ '"' :: ':' ::
    '"' :: (text.toList.flatMap jsonChar ++ '"' :: ',' :: second))
  have hline : Display.jsonLine ⟨text, isError⟩ = '\x7b' :: first := rfl
  obtain ⟨more, hmore⟩ : ∃ more, first.length = more + 2 := ⟨_, rfl⟩
  have hfirst : Json.member? (Json.value? (more + 3)) first
      = some (("text", .string text), ',' :: second) := by
    rw [Json.member?_named, Json.value?_string]
    rfl
  have hsecond : Json.member? (Json.value? (more + 3)) second
      = some (("is_error", .boolean isError), ['\x7d']) := by
    rw [Json.member?_named, Json.value?_boolean]
    rfl
  have hmembers : Json.list? (Json.member? (Json.value? (more + 3))) '\x7d' first
      = some ([("text", .string text), ("is_error", .boolean isError)], []) := by
    show Json.items? _ _ first.length first = _
    rw [hmore]
    exact Json.items?_pair more hfirst hsecond
  have hvalue : Json.value? (more + 4) ('\x7b' :: first)
      = some (Display.json ⟨text, isError⟩, []) := by
    show (Json.list? _ _ first).map _ = _
    rw [hmembers]
    rfl
  rw [hline, Json.read?, List.length_cons, hmore]
  show (Json.value? (more + 4) _ >>= fun p => _) = _
  rw [hvalue]
  rfl

/-- A line of JSON is one line, also where the text is not. -/
theorem newline_notMem_jsonLine (d : Display) : '\n' ∉ d.jsonLine := by
  have hopen : '\n' ∉ "\x7b\"text\":".toList := by decide
  have hmiddle : '\n' ∉ ",\"is_error\":".toList := by decide
  have hflag : '\n' ∉ (if d.isError then "true" else "false").toList := by
    cases d.isError <;> decide
  have htext : '\n' ∉ d.text.toList.flatMap jsonChar := by
    rw [List.mem_flatMap]
    rintro ⟨c, -, hc⟩
    exact (Json.spelled_jsonChar c).newline_notMem hc
  unfold Display.jsonLine
  generalize "\x7b\"text\":".toList = opening at *
  generalize ",\"is_error\":".toList = middle at *
  generalize (if d.isError then "true" else "false").toList = flag at *
  simp [hopen, hmiddle, hflag, htext]

end DeskCalc
