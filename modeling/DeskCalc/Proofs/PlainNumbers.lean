import DeskCalc.Proofs.Spacing
import DeskCalc.Proofs.Substitution
import DeskCalc.Proofs.Values

/-!
# Plain numbers

**Theorem (`plainNumber_iff_calculate`).** A text is read as a plain number exactly if it is a numeral
behind at most one sign, with blanks anywhere around the two, and it calculates to a value; that value
is the number. A text of this shape that is no plain number is out of range.

The memory keys look at the tokens alone, a calculation goes through the grammar and the evaluation.
`Plain` is the shape of the texts on which the two meet: such a text has the tokens of its sign and its
numeral, and only these texts have them (`scans_iff_plain`). From there either way ends in the same
sign applied to the same double, and either way refuses exactly infinity.
-/

namespace DeskCalc

/-- Blanks only, perhaps none. -/
def Blanks (cs : List Char) : Prop := ∀ c ∈ cs, isBlank c = true

instance (cs : List Char) : Decidable (Blanks cs) :=
  List.decidableBAll (fun c : Char => isBlank c = true) cs

/-- The operator that a sign is read as, before the grammar tells the two apart. -/
def Sign.operator : Sign → Operator
  | minus => .sub
  | plus => .add

/-- How a sign is written, if there is one. -/
def signText : Option Sign → List Char
  | none => []
  | some .minus => ['-']
  | some .plus => ['+']

/-- The characters are a numeral behind a sign or none, with blanks in front, between and behind. -/
def Plain (sign : Option Sign) (n : Numeral) (cs : List Char) : Prop :=
  ∃ front between w back, Blanks front ∧ Blanks between ∧ n.Written w ∧ Blanks back ∧
    cs = front ++ (signText sign ++ (between ++ (w ++ back)))

/-- The tokens of a number behind a sign or none. -/
def plainTokens (sign : Option Sign) (x : Float) : List Token :=
  match sign with
  | none => [.number x]
  | some sign => [.operator sign.operator, .number x]

/-- Their expression. -/
def plainTree (sign : Option Sign) (x : Float) : Expr :=
  match sign with
  | none => .literal x
  | some sign => .signed sign (.literal x)

/-- Their value, if the number is finite. -/
def signedValue (sign : Option Sign) (x : Float) : Float :=
  match sign with
  | none => x
  | some sign => sign.apply x

/-! ## From the text to the tokens -/

section Text

variable {cs front back w : List Char} {t : Token} {tokens : List Token} {sign : Option Sign}
  {n : Numeral} {x : Float}

theorem Scans.behind_blanks (hf : Blanks front) (h : Scans cs tokens) : Scans (front ++ cs) tokens := by
  induction front with
  | nil => exact h
  | cons c front ih =>
    obtain ⟨hc, hrest⟩ := List.forall_mem_cons.1 hf
    exact .blank hc (ih hrest)

theorem scans_blanks (h : Blanks cs) : Scans cs [] := by
  simpa using Scans.nil.behind_blanks h

theorem stops_blanks (h : Blanks back) (w : List Char) : Stops w back := by
  cases back with
  | nil => exact stops_nil w
  | cons c back => exact stops_blank (h c List.mem_cons_self) w back

theorem blanks_of_scans (h : Scans cs []) : Blanks cs := by
  generalize htokens : ([] : List Token) = tokens at h
  induction h with
  | nil => simp [Blanks]
  | blank hc _ ih => exact List.forall_mem_cons.2 ⟨hc, ih htokens⟩
  | lexeme => cases htokens

/-- Behind some blanks stands the lexeme of the first token. -/
theorem Scans.exists_first (h : Scans cs (t :: tokens)) :
    ∃ front w x, Blanks front ∧ cs = front ++ (w ++ x) ∧ Lexeme t w ∧ Scans x tokens := by
  generalize htokens : t :: tokens = all at h
  induction h with
  | nil => cases htokens
  | @blank c cs all hc _ ih =>
    obtain ⟨front, w, x, hfront, rfl, hw, hx⟩ := ih htokens
    exact ⟨c :: front, w, x, List.forall_mem_cons.2 ⟨hc, hfront⟩, rfl, hw, hx⟩
  | lexeme hw _ hx =>
    cases htokens
    exact ⟨[], _, _, by simp [Blanks], rfl, hw, hx⟩

theorem written_of_lexeme (h : Lexeme (.number x) w) : ∃ n : Numeral, n.Written w ∧ x = n.toFloat := by
  generalize ht : Token.number x = t at h
  cases h with
  | number written =>
    cases ht
    exact ⟨_, written, rfl⟩
  | name => cases ht
  | symbol listed =>
    subst ht
    simp [symbols] at listed

/-- A sign has one lexeme. -/
theorem lexeme_sign_iff {sign : Sign} :
    Lexeme (.operator sign.operator) w ↔ w = signText (some sign) := by
  constructor
  · intro h
    generalize ht : Token.operator sign.operator = t at h
    cases h with
    | number _ => cases ht
    | name _ _ => cases ht
    | symbol listed =>
      subst ht
      cases sign <;> simpa [symbols, Sign.operator, signText] using listed
  · rintro rfl
    exact .symbol (by cases sign <;> decide)

/-- No text makes a sign longer. -/
theorem stops_sign (sign : Sign) (x : List Char) : Stops (signText (some sign)) x := by
  have hlisted : (signText (some sign), Token.operator sign.operator) ∈ symbols := by
    cases sign <;> decide
  refine (stops_symbol hlisted).2 fun hstar => ?_
  cases sign <;> exact absurd hstar (by decide)

/-- A number between blanks. -/
theorem scans_numeral (written : n.Written w) (hf : Blanks front) (hb : Blanks back) :
    Scans (front ++ (w ++ back)) [.number n.toFloat] :=
  .behind_blanks hf (.lexeme (.number written) (stops_blanks hb w) (scans_blanks hb))

/-- **The shape of a plain number.** Exactly the plain texts have the tokens of a number behind at most
one sign. -/
theorem scans_iff_plain :
    Scans cs (plainTokens sign x) ↔ ∃ n, Plain sign n cs ∧ n.toFloat = x := by
  constructor
  · intro h
    cases sign with
    | none =>
      obtain ⟨front, w, back, hfront, rfl, hw, hback⟩ := h.exists_first
      obtain ⟨n, written, rfl⟩ := written_of_lexeme hw
      exact ⟨n, ⟨front, [], w, back, hfront, by simp [Blanks], written, blanks_of_scans hback, rfl⟩, rfl⟩
    | some sign =>
      obtain ⟨front, s, y, hfront, rfl, hs, hy⟩ := h.exists_first
      obtain rfl := lexeme_sign_iff.1 hs
      obtain ⟨between, w, back, hbetween, rfl, hw, hback⟩ := hy.exists_first
      obtain ⟨n, written, rfl⟩ := written_of_lexeme hw
      exact ⟨n, ⟨front, between, w, back, hfront, hbetween, written, blanks_of_scans hback, rfl⟩, rfl⟩
  · rintro ⟨n, ⟨front, between, w, back, hfront, hbetween, written, hback, rfl⟩, rfl⟩
    have hnumber := scans_numeral written hbetween hback
    refine .behind_blanks hfront ?_
    cases sign with
    | none => exact hnumber
    | some sign => exact .lexeme (lexeme_sign_iff.2 rfl) (stops_sign sign _) hnumber

end Text

/-! ## From the tokens to the value -/

section Value

variable {sign : Option Sign} {n : Numeral} {s : String} {v x : Float}

theorem spells_plain (sign : Option Sign) (x : Float) :
    ∃ n d, Spells .signed (plainTokens sign x) (plainTree sign x) n d ∧ n ≤ 1 ∧ d ≤ 1 := by
  have hnumber : Spells .signed [.number x] (.literal x) 0 0 := .signedOfAtom (.number x)
  cases sign with
  | none => exact ⟨0, 0, hnumber, by decide, by decide⟩
  | some sign =>
    cases sign with
    | minus => exact ⟨1, 1, hnumber.minus, by decide, by decide⟩
    | plus => exact ⟨1, 1, hnumber.plus, by decide, by decide⟩

theorem parse_plainTokens (sign : Option Sign) (x : Float) :
    parse (plainTokens sign x) = .ok (plainTree sign x) := by
  obtain ⟨n, d, h, hn, hd⟩ := spells_plain sign x
  exact parse_of_spells h.toSum (by unfold maxNodes; omega) (by unfold maxDepth; omega)

theorem plainValue?_eq_some_iff {tokens : List Token} :
    plainValue? tokens = some v ↔ ∃ sign x, tokens = plainTokens sign x ∧ signedValue sign x = v := by
  constructor
  · intro h
    unfold plainValue? at h
    split at h <;> cases h
    · exact ⟨none, _, rfl, rfl⟩
    · exact ⟨some .plus, _, rfl, rfl⟩
    · exact ⟨some .minus, _, rfl, rfl⟩
  · rintro ⟨sign, x, rfl, rfl⟩
    cases sign with
    | none => rfl
    | some sign => cases sign <;> rfl

/-- The only double of a numeral that is not finite is infinity. -/
theorem Numeral.toFloat_of_not_isFinite (h : n.toFloat.isFinite = false) :
    n.toFloat = Binary64.toFloat Binary64.infinity := by
  rw [toFloat_eq_infinity_iff, ← not_lt, ← isFinite_toFloat_iff, h]
  exact Bool.false_ne_true

theorem real_toFloat (n : Numeral) :
    real n.toFloat = if n.toFloat.isFinite then .ok n.toFloat else .error .overflow := by
  cases hfinite : n.toFloat.isFinite with
  | true => simp [real_of_isFinite hfinite]
  | false =>
    rw [Numeral.toFloat_of_not_isFinite hfinite]
    decide

theorem evaluate_plainTree (sign : Option Sign) (n : Numeral) :
    (plainTree sign n.toFloat).evaluate =
      if n.toFloat.isFinite then .ok (signedValue sign n.toFloat) else .error .overflow := by
  have hreal := real_toFloat n
  by_cases hfinite : n.toFloat.isFinite = true
  · cases sign <;> simp_all [plainTree, Expr.evaluate, signedValue]
  · cases sign <;> simp_all [plainTree, Expr.evaluate]

theorem isFinite_signedValue (sign : Option Sign) (n : Numeral) :
    (signedValue sign n.toFloat).isFinite = n.toFloat.isFinite := by
  cases hfinite : n.toFloat.isFinite with
  | true =>
    cases sign with
    | none => exact hfinite
    | some sign => exact Sign.isFinite_apply sign hfinite
  | false =>
    rw [Numeral.toFloat_of_not_isFinite hfinite]
    cases sign with
    | none => decide
    | some sign => cases sign <;> decide

/-! ## The two readings of a plain text -/

theorem tokenize_plain (h : Plain sign n s.toList) :
    tokenize s = .ok (plainTokens sign n.toFloat) :=
  tokenize_eq_ok_iff.2 (scans_iff_plain.2 ⟨n, h, rfl⟩)

theorem exists_plain (h : plainNumber s = some v) : ∃ sign n, Plain sign n s.toList := by
  unfold plainNumber at h
  split at h
  · next tokens htokens =>
    obtain ⟨sign, x, rfl, -⟩ := plainValue?_eq_some_iff.1 (Option.filter_eq_some_iff.1 h).1
    obtain ⟨n, hplain, -⟩ := scans_iff_plain.1 (tokenize_eq_ok_iff.1 htokens)
    exact ⟨sign, n, hplain⟩
  · cases h

theorem plainNumber_plain (h : Plain sign n s.toList) :
    plainNumber s = if n.toFloat.isFinite then some (signedValue sign n.toFloat) else none := by
  have hvalue := plainValue?_eq_some_iff.2 ⟨sign, n.toFloat, rfl, rfl⟩
  simp [plainNumber, tokenize_plain h, hvalue, Option.filter_some, isFinite_signedValue]

theorem calculate_plain (h : Plain sign n s.toList) :
    calculate s = if n.toFloat.isFinite then .ok (signedValue sign n.toFloat)
      else .error (.domain .overflow) := by
  have hparse := parse_plainTokens sign n.toFloat
  have hvalue := evaluate_plainTree sign n
  split at hvalue
  · next hfinite => rw [if_pos hfinite, (Calculated.value (tokenize_plain h) hparse hvalue).eq]
  · next hinf => rw [if_neg hinf, (Calculated.noValue (tokenize_plain h) hparse hvalue).eq]

end Value

/-- **Plain numbers are calculated alike.** A text is read as a plain number exactly if it is a numeral
behind at most one sign, with blanks around the two, and calculates to that number. A text of this shape
that is not read as a plain number is out of range. -/
theorem plainNumber_iff_calculate (s : String) :
    (∀ v, plainNumber s = some v ↔ (∃ sign n, Plain sign n s.toList) ∧ calculate s = .ok v) ∧
    ((∃ sign n, Plain sign n s.toList) → plainNumber s = none →
      calculate s = .error (.domain .overflow)) := by
  by_cases hplain : ∃ sign n, Plain sign n s.toList
  · obtain ⟨sign, n, h⟩ := hplain
    have hshape : ∃ sign n, Plain sign n s.toList := ⟨sign, n, h⟩
    rw [plainNumber_plain h, calculate_plain h]
    by_cases hfinite : n.toFloat.isFinite = true
    · simp [hfinite, hshape]
    · simp [hfinite]
  · refine ⟨fun v => ⟨fun h => absurd (exists_plain h) hplain, fun h => absurd h.1 hplain⟩, ?_⟩
    exact fun h => absurd h hplain

/-- The first power of ten past the doubles, behind a minus and a space. -/
theorem plainNumber_out_of_range :
    let n : Numeral := ⟨'1' :: List.replicate 309 '0', []⟩
    let s := String.ofList ('-' :: ' ' :: n.whole)
    (∃ sign n, Plain sign n s.toList) ∧ plainNumber s = none ∧
      calculate s = .error (.domain .overflow) := by
  intro n s
  have hdigits : Digits n.whole :=
    List.forall_mem_cons.2 ⟨by decide, Shortest.digits_replicate 309⟩
  have hplain : Plain (some .minus) n s.toList := by
    refine ⟨[], [' '], n.whole, [], by decide, by decide, .integer hdigits nofun, by decide, ?_⟩
    rw [String.toList_ofList, List.append_nil]
    rfl
  have hinf : n.toFloat.isFinite = false := by decide +kernel
  have hnone : plainNumber s = none := by rw [plainNumber_plain hplain, hinf]; rfl
  exact ⟨⟨_, _, hplain⟩, hnone, (plainNumber_iff_calculate s).2 ⟨_, _, hplain⟩ hnone⟩

end DeskCalc
