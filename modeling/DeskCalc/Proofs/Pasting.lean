import DeskCalc.Proofs.RoundTrip
import DeskCalc.Proofs.Substitution

/-!
# Pasting a result

The text of a displayed number stands for its value wherever an operand can begin: with brackets
around it, it spells the same expression. For a number below zero this is because signs bind tighter
than every operator, `^` included, so the sign and the number are one operand by themselves.

The tokens of the number are `Solid`, with and without the brackets, so either can replace the
other. What is left is that scanning keeps the number apart from the texts around it.
-/

namespace DeskCalc

/-! ## The tokens of a displayed number stand whole -/

theorem nil_of_number {x : Float} {after : List Token} {t : Expr} {n d : Nat}
    (h : Spells .signed (.number x :: after) t n d) : after = [] := by
  cases h with
  | signedOfAtom h =>
    cases h
    rfl

/-- The only operator in a displayed number is its sign, at the front. -/
theorem displayTokens_cut {v : Float} {u w : List Token} {op : Operator}
    (h : displayTokens v = u ++ .operator op :: w) : u = [] ∧ w = [.number v.abs] := by
  unfold displayTokens at h
  split at h
  · rcases u with _ | ⟨a, _ | ⟨b, u⟩⟩ <;> simp_all
  · rcases u with _ | ⟨a, u⟩ <;> simp_all

theorem balanced_displayTokens (v : Float) : Balanced (displayTokens v) := by
  intro opened
  unfold displayTokens
  split <;> rfl

theorem solid_displayTokens (v : Float) : Solid (displayTokens v) where
  balanced := balanced_displayTokens v
  ne_nil := by
    unfold displayTokens
    split <;> nofun
  no_name := by
    intro name w
    unfold displayTokens
    split <;> nofun
  cut := by
    intro u op w h
    rw [(displayTokens_cut h).1]
    exact open_nil
  sign := by
    intro op w after t n d h hw
    rw [(displayTokens_cut (u := []) h).2] at hw
    exact nil_of_number hw

theorem solid_bracketed (v : Float) (s : Bracket) :
    Solid (.opening s :: (displayTokens v ++ [.closing s])) where
  balanced := (balanced_displayTokens v).bracketed s
  ne_nil := nofun
  no_name := nofun
  cut := by
    intro u op w h
    cases u with
    | nil => cases h
    | cons tok u =>
      obtain rfl : .opening s = tok := (List.cons.inj h).1
      have hrest : displayTokens v ++ [.closing s] = u ++ .operator op :: w := (List.cons.inj h).2
      -- The closing bracket is no operator, so the cut is within the number.
      rcases eq_nil_or_snoc w with rfl | ⟨w, last, rfl⟩
      · exact absurd (snoc_inj hrest).2 nofun
      · rw [← List.cons_append, ← List.append_assoc] at hrest
        rw [(displayTokens_cut (snoc_inj hrest).1).1]
        rintro tok ⟨⟩
        trivial
  sign := nofun

variable {v : Float} {before after : List Token} {t : Expr} {n d : Nat}

/-- Brackets around a displayed number can go, -/
theorem Spells.unwrap (h : Spells .sum
    (before ++ (.opening .round :: (displayTokens v ++ [.closing .round])) ++ after) t n d)
    (hopen : Open before) : ∃ d' ≤ d, Spells .sum (before ++ displayTokens v ++ after) t n d' := by
  refine Spells.replace (k := 0) (solid_bracketed v .round) (fun h => ?_) h rfl hopen
  obtain ⟨d', hd, h'⟩ := (solid_displayTokens v).of_bracketed (solid_bracketed v .round) h
  exact ⟨d', hd, h'.ofSigned _⟩

/-- and can come. -/
theorem Spells.wrap (h : Spells .sum (before ++ displayTokens v ++ after) t n d)
    (hopen : Open before) : ∃ d' ≤ d + 1, Spells .sum
      (before ++ (.opening .round :: (displayTokens v ++ [.closing .round])) ++ after) t n d' := by
  refine Spells.replace (k := 1) (solid_displayTokens v) (fun h => ?_) h rfl hopen
  exact ⟨_, Nat.le_refl _, ((h.toSum.group .round).ofAtom _).lift⟩

/-- Brackets around a displayed number do not change what is parsed, unless they nest too deep. -/
theorem parse_unwrap (hopen : Open before) (h : parse
    (before ++ (.opening .round :: (displayTokens v ++ [.closing .round])) ++ after) = .ok t) :
    parse (before ++ displayTokens v ++ after) = .ok t := by
  obtain ⟨n, d, hw, hn, hd⟩ := spells_of_parse h
  obtain ⟨d', hd', hw'⟩ := hw.unwrap hopen
  exact parse_of_spells hw' hn (Nat.le_trans hd' hd)

theorem parse_wrap (hopen : Open before)
    (h : parse (before ++ displayTokens v ++ after) = .ok t) :
    parse (before ++ (.opening .round :: (displayTokens v ++ [.closing .round])) ++ after) = .ok t ∨
      ∃ position, parse
        (before ++ (.opening .round :: (displayTokens v ++ [.closing .round])) ++ after)
          = .error ⟨position, .tooDeep⟩ := by
  obtain ⟨n, d, hw, hn, -⟩ := spells_of_parse h
  obtain ⟨d', -, hw'⟩ := hw.wrap hopen
  have hanswer := answered_of_spells hw'
  generalize parse (before ++ _ ++ after) = answer at hanswer ⊢
  cases hanswer with
  | ok => exact .inl rfl
  | deep position _ => exact .inr ⟨position, rfl⟩
  | large position hlarge => omega

/-! ## The texts around a displayed number -/

/-- A lexeme of a token that an operand must follow is a symbol. -/
theorem Lexeme.listed_of_awaits {t : Token} {w : List Char} (h : Lexeme t w) (ht : t.Awaits) :
    (w, t) ∈ symbols := by
  cases h with
  | number _ | name _ _ => exact ht.elim
  | symbol listed => exact listed

/-- A text whose tokens are open ends in a blank or in a symbol. -/
theorem Scans.last {p : List Char} {tokens : List Token} (h : Scans p tokens)
    (hopen : Open tokens) : ∀ c, p.getLast? = some c →
      isBlank c = true ∨ c.isDigit = false ∧ c.isAlpha = false ∧ c ≠ '.' := by
  induction h with
  | nil => nofun
  | @blank a p tokens ha _ ih =>
    intro c hc
    rw [List.getLast?_cons] at hc
    cases hlast : p.getLast? with
    | none =>
      rw [hlast] at hc
      cases hc
      exact .inl ha
    | some b =>
      rw [hlast] at hc
      cases hc
      exact ih hopen _ hlast
  | @lexeme t w x tokens hw _ hx ih =>
    intro c hc
    rw [List.getLast?_append] at hc
    cases hlast : x.getLast? with
    | none =>
      -- The lexeme is the last, and its token asks for an operand.
      rw [hlast] at hc
      obtain rfl := List.getLast?_eq_none_iff.1 hlast
      obtain rfl : [] = tokens := (Prod.mk.inj (scan_nil.symm.trans hx.scan_eq)).1
      have hlisted := hw.listed_of_awaits (hopen t rfl)
      obtain ⟨hdigit, hletter, hpoint, -⟩ := symbol_char hlisted (List.mem_of_getLast? hc)
      exact .inr ⟨hdigit, hletter, hpoint⟩
    | some b =>
      rw [hlast] at hc
      cases hc
      exact ih (hopen.tail (u := [t])) _ hlast

/-- Behind a text whose tokens are open any text begins a new token, except that a star can join a
star. -/
theorem Scans.parts {p x : List Char} {tokens : List Token} (h : Scans p tokens)
    (hopen : Open tokens) (hx : x.head? ≠ some '*') : Parts p x := by
  rintro t w hw ⟨u, rfl⟩
  have hlast : w.getLast? = some (w.getLast hw.ne_nil) := List.getLast?_eq_some_getLast hw.ne_nil
  have hmem := List.mem_of_getLast? hlast
  rcases h.last hopen _ (by rw [List.getLast?_append, hlast]; rfl) with
    hblank | ⟨hdigit, hletter, hpoint⟩
  · rw [hw.isBlank hmem] at hblank
    contradiction
  · exact (stops_symbol (hw.listed_of_mem hmem hdigit hletter hpoint)).2 fun _ => hx

variable {p x : List Char} {tokens : List Token}

/-- What stands before a displayed number, and the number, are scanned one after the other. -/
theorem scan_pasted (hv : v.isFinite = true) (hp : Scans p tokens) (hopen : Open tokens)
    (hx : ∀ c, x.head? = some c → c.isDigit = false ∧ c ≠ '.') :
    scan (p ++ ((formatNumber v).toList ++ x))
      = (tokens ++ displayTokens v ++ (scan x).1, (scan x).2) := by
  have hstar : ((formatNumber v).toList ++ x).head? ≠ some '*' := by
    obtain ⟨n, w, written, -, htext⟩ := formatNumber_written hv
    obtain ⟨a, w, rfl⟩ := List.exists_cons_of_ne_nil written.ne_nil
    rw [htext]
    split
    · nofun
    · rintro ⟨⟩
      exact absurd (written.char List.mem_cons_self) (by decide)
  rw [hp.append (hp.parts hopen hstar), scan_formatNumber hv hx, List.append_assoc]

/-- So they are with brackets around the number. -/
theorem scan_bracketed (hv : v.isFinite = true) (hp : Scans p tokens) (hopen : Open tokens) :
    scan (p ++ ('(' :: ((formatNumber v).toList ++ (')' :: x))))
      = (tokens ++ (.opening .round :: (displayTokens v ++ [.closing .round])) ++ (scan x).1,
        (scan x).2) := by
  have hnumber := scan_formatNumber hv (x := ')' :: x) (by rintro c ⟨⟩; decide)
  have hback := scan_symbol (t := .closing .round) (c := ')') (by decide) (by decide) x
  have hfront := scan_symbol (t := .opening .round) (c := '(') (by decide) (by decide)
    ((formatNumber v).toList ++ (')' :: x))
  have hstar : ('(' :: ((formatNumber v).toList ++ (')' :: x))).head? ≠ some '*' := by
    simp
  rw [hp.append (hp.parts hopen hstar), hfront, hnumber, hback]
  simp

/-! ## The expression of a text -/

/-- The expression that a text spells. -/
def parseText (s : String) : Except CalcError Expr := do
  let tokens ← (tokenize s).mapError CalcError.lex
  (parse tokens).mapError CalcError.grammar

/-- A calculation evaluates the expression of its text. -/
theorem calculate_eq (s : String) :
    calculate s = (parseText s).bind fun t => t.evaluate.mapError CalcError.domain := by
  unfold calculate parseText
  cases tokenize s <;> rfl

theorem parseText_of_scans {s : String} {tokens : List Token} (h : Scans s.toList tokens) :
    parseText s = (parse tokens).mapError CalcError.grammar := by
  unfold parseText
  rw [tokenize_eq_ok_iff.2 h]
  rfl

theorem scans_of_parseText {s : String} {t : Expr} (h : parseText s = .ok t) :
    ∃ tokens, Scans s.toList tokens ∧ parse tokens = .ok t := by
  cases htokens : tokenize s with
  | error _ =>
    rw [parseText, htokens] at h
    cases h
  | ok tokens =>
    have hscans := tokenize_eq_ok_iff.1 htokens
    rw [parseText_of_scans hscans] at h
    refine ⟨tokens, hscans, ?_⟩
    cases hparse : parse tokens with
    | error _ =>
      rw [hparse] at h
      cases h
    | ok tree =>
      rw [hparse] at h
      cases h
      rfl

/-- **Pasting a result is pasting its value.** Behind a text whose tokens end where an operand can
begin, and before one that does not go on with a digit or a point, the text of a finite double
spells what it spells in brackets: what parses with the brackets parses to the same expression
without, and so calculates to the same; what parses without parses to the same expression with
them, or nests too deep. -/
theorem paste_formatNumber {v : Float} (hv : v.isFinite = true) {p s : String}
    {tokens : List Token} (hp : tokenize p = .ok tokens)
    (hopen : ∀ tok, tokens.getLast? = some tok →
      (∃ op, tok = .operator op) ∨ (∃ b, tok = .opening b) ∨ tok = .comma)
    (hs : ∀ c, s.toList.head? = some c → c.isDigit = false ∧ c ≠ '.') :
    (∀ t, parseText (p ++ "(" ++ formatNumber v ++ ")" ++ s) = .ok t →
      parseText (p ++ formatNumber v ++ s) = .ok t ∧
      calculate (p ++ formatNumber v ++ s) = calculate (p ++ "(" ++ formatNumber v ++ ")" ++ s)) ∧
    ∀ t, parseText (p ++ formatNumber v ++ s) = .ok t →
      parseText (p ++ "(" ++ formatNumber v ++ ")" ++ s) = .ok t ∨
      ∃ position, parseText (p ++ "(" ++ formatNumber v ++ ")" ++ s)
        = .error (.grammar ⟨position, .tooDeep⟩) := by
  have hopen' : Open tokens := by
    intro tok htok
    rcases hopen tok htok with ⟨op, rfl⟩ | ⟨b, rfl⟩ | rfl <;> trivial
  have hscans := tokenize_eq_ok_iff.1 hp
  obtain ⟨⟨after, rest⟩, hafter⟩ : ∃ r, r = scan s.toList := ⟨_, rfl⟩
  have hplain : scan (p ++ formatNumber v ++ s).toList
      = (tokens ++ displayTokens v ++ after, rest) := by
    rw [String.toList_append, String.toList_append, List.append_assoc,
      scan_pasted hv hscans hopen' hs, ← hafter]
  have hbracketed : scan (p ++ "(" ++ formatNumber v ++ ")" ++ s).toList
      = (tokens ++ (.opening .round :: (displayTokens v ++ [.closing .round])) ++ after, rest) := by
    have htext : (p ++ "(" ++ formatNumber v ++ ")" ++ s).toList
        = p.toList ++ ('(' :: ((formatNumber v).toList ++ (')' :: s.toList))) := by simp
    rw [htext, scan_bracketed hv hscans hopen', ← hafter]
  refine ⟨fun t ht => ?_, fun t ht => ?_⟩
  · have hplain_parse : parseText (p ++ formatNumber v ++ s) = .ok t := by
      obtain ⟨_, hread, hparse⟩ := scans_of_parseText ht
      obtain ⟨rfl, rfl⟩ := Prod.mk.inj (hbracketed.symm.trans hread.scan_eq)
      rw [parseText_of_scans (scans_of_scan hplain), parse_unwrap hopen' hparse]
      rfl
    refine ⟨hplain_parse, ?_⟩
    rw [calculate_eq, calculate_eq, ht, hplain_parse]
  · obtain ⟨_, hread, hparse⟩ := scans_of_parseText ht
    obtain ⟨rfl, rfl⟩ := Prod.mk.inj (hplain.symm.trans hread.scan_eq)
    rw [parseText_of_scans (scans_of_scan hbracketed)]
    rcases parse_wrap hopen' hparse with h | ⟨position, h⟩
    · rw [h]
      exact .inl rfl
    · rw [h]
      exact .inr ⟨position, rfl⟩

/-- A negative result before a power keeps its value: the power is that of `-2`. -/
theorem paste_minus_two_squared :
    (-2 : Float).isFinite = true ∧ tokenize "" = .ok [] ∧
    parseText ("" ++ "(" ++ formatNumber (-2) ++ ")" ++ "^2")
      = .ok (.binary .pow (.signed .minus (.literal 2)) (.literal 2)) ∧
    parseText ("" ++ formatNumber (-2) ++ "^2")
      = .ok (.binary .pow (.signed .minus (.literal 2)) (.literal 2)) ∧
    calculate ("" ++ formatNumber (-2) ++ "^2")
      = calculate ("" ++ "(" ++ formatNumber (-2) ++ ")" ++ "^2") := by
  have hfinite : (-2 : Float).isFinite = true := by decide +kernel
  have hempty : tokenize "" = .ok [] := tokenize_eq_ok_iff.2 .nil
  have hpower : ∀ c, "^2".toList.head? = some c → c.isDigit = false ∧ c ≠ '.' := by
    rintro c ⟨⟩
    decide
  have hdisplay : displayTokens (-2) = [.operator .sub, .number 2] := by decide +kernel
  have hsquare : scan "^2".toList = ([.operator .pow, .number 2], []) := by
    have hvalue : Numeral.toFloat ⟨['2'], []⟩ = 2 := by decide +kernel
    have written : Numeral.Written ⟨['2'], []⟩ ['2'] := .integer (by decide) (by decide)
    have htwo := scan_lexeme (.number written) (stops_of_front written (x := []) nofun)
    rw [List.append_nil, scan_nil, hvalue] at htwo
    show scan ['^', '2'] = _
    rw [scan_symbol (t := .operator .pow) (by decide) (by decide), htwo]
  have hbracketed : parseText ("" ++ "(" ++ formatNumber (-2) ++ ")" ++ "^2")
      = .ok (.binary .pow (.signed .minus (.literal 2)) (.literal 2)) := by
    have htext : ("" ++ "(" ++ formatNumber (-2) ++ ")" ++ "^2").toList
        = [] ++ ('(' :: ((formatNumber (-2)).toList ++ (')' :: "^2".toList))) := by simp
    have hscan := scan_bracketed (x := "^2".toList) hfinite .nil open_nil
    rw [← htext, hsquare, hdisplay] at hscan
    have hbase : Spells .signed [.operator .sub, .number 2] (.signed .minus (.literal 2)) 1 1 :=
      .minus (.signedOfAtom (.number 2))
    have hraised := (Spells.signedOfAtom (hbase.toSum.group .round)).raise
      (.powerOfSigned (.signedOfAtom (.number 2)))
    have hparse := parse_of_spells hraised.toSum (by decide) (by decide)
    rw [parseText_of_scans (scans_of_scan hscan)]
    exact congrArg (·.mapError CalcError.grammar) hparse
  obtain ⟨hplain, hvalue⟩ := (paste_formatNumber hfinite hempty nofun hpower).1 _ hbracketed
  exact ⟨hfinite, hempty, hbracketed, hplain, hvalue⟩

end DeskCalc
