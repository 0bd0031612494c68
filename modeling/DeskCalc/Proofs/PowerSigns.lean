import DeskCalc.Proofs.Parsing
import DeskCalc.Proofs.Seams
import DeskCalc.Proofs.Stages
import DeskCalc.Proofs.Substitution

/-!
# The two signs of a power

**Theorem (`calculate_power_signs`).** With a caret for any two stars, taken from the left, a text has
the same tokens, or it fails at the same character, which comes earlier by the carets put before it.
So it calculates to the same. With two stars for each caret, a text that has a value has the same
value.

For the first half each part that is passed is passed with carets as well (`Passed.inCarets`): the
scanner pairs the stars off from the left too, since two stars are the longer lexeme. For the second
half it can happen that a star stands in front of a caret, and then the three stars are not read as
the star and the power they were. But no phrase has a product sign next to a power sign
(`Spells.steady`), so in a text with a value this never happens (`Scans.inStars`).
-/

namespace DeskCalc

/-! ## Texts with the one sign and with the other -/

/-- The text with a caret for any two stars, from the left. -/
def inCarets : List Char → List Char
  | [] => []
  | '*' :: '*' :: cs => '^' :: inCarets cs
  | c :: cs => c :: inCarets cs

/-- How many carets that makes. -/
def starPairs : List Char → Nat
  | [] => 0
  | '*' :: '*' :: cs => starPairs cs + 1
  | _ :: cs => starPairs cs

/-- The text with two stars for each caret. -/
def inStars (cs : List Char) : List Char := cs.flatMap fun c => if c = '^' then ['*', '*'] else [c]

/-- No second star stands behind the character if it is a star. -/
def Unpaired (c : Char) (cs : List Char) : Prop := c = '*' → cs.head? ≠ some '*'

variable {c : Char} {cs w x : List Char} {t : Token}

theorem unpaired_iff : Unpaired c cs ↔ ∀ rest, c = '*' → cs = '*' :: rest → False := by
  simp only [Unpaired, ne_eq, List.head?_eq_some_iff, not_exists]
  exact ⟨fun h rest hc => h hc rest, fun h hc rest => h rest hc⟩

theorem inCarets_cons (h : Unpaired c cs) : inCarets (c :: cs) = c :: inCarets cs :=
  inCarets.eq_3 c cs (unpaired_iff.1 h)

theorem starPairs_cons (h : Unpaired c cs) : starPairs (c :: cs) = starPairs cs :=
  starPairs.eq_3 c cs (unpaired_iff.1 h)

/-- The two ways in which a text goes on. -/
theorem pair_or_unpaired (c : Char) (cs : List Char) :
    (∃ rest, c = '*' ∧ cs = '*' :: rest) ∨ Unpaired c cs := by
  by_cases h : c = '*' ∧ cs.head? = some '*'
  · obtain ⟨rest, hrest⟩ := List.head?_eq_some_iff.1 h.2
    exact .inl ⟨rest, h.1, hrest⟩
  · exact .inr fun hc hcs => h ⟨hc, hcs⟩

/-- What is not a caret in front of the new text is in front of the old one. -/
theorem head?_of_inCarets (h : (inCarets cs).head? = some c) (hc : c ≠ '^') :
    cs.head? = some c := by
  cases cs with
  | nil => cases h
  | cons a cs =>
    obtain ⟨rest, rfl, rfl⟩ | hsingle := pair_or_unpaired a cs
    · cases h
      exact absurd rfl hc
    · rwa [inCarets_cons hsingle] at h

/-- Texts are changed one by one where no star begins the second. -/
theorem inCarets_append (hx : x.head? ≠ some '*') (w : List Char) :
    inCarets (w ++ x) = inCarets w ++ inCarets x := by
  induction w using inCarets.induct with
  | case1 => rfl
  | case2 w ih => exact congrArg ('^' :: ·) ih
  | case3 c w hsingle ih =>
    have hw : Unpaired c w := unpaired_iff.2 hsingle
    have hwx : Unpaired c (w ++ x) := fun hc => by
      cases w with
      | nil => exact hx
      | cons a w => exact hw hc
    rw [List.cons_append, inCarets_cons hwx, inCarets_cons hw, ih, List.cons_append]

/-- A text without stars stays as it is, whatever follows it. -/
theorem inCarets_append_of_notMem (hw : '*' ∉ w) (x : List Char) :
    inCarets (w ++ x) = w ++ inCarets x := by
  induction w with
  | nil => rfl
  | cons c w ih =>
    obtain ⟨hc, hw⟩ := not_or.1 (mt List.mem_cons.2 hw)
    rw [List.cons_append, inCarets_cons fun hstar => absurd hstar.symm hc, ih hw, List.cons_append]

/-- A caret is a byte and two stars are two. -/
theorem byteLength_inCarets (cs : List Char) :
    byteLength (inCarets cs) + starPairs cs = byteLength cs := by
  induction cs using inCarets.induct with
  | case1 => rfl
  | case2 cs ih =>
    show 1 + byteLength (inCarets cs) + (starPairs cs + 1) = 1 + (1 + byteLength cs)
    omega
  | case3 c cs hsingle ih =>
    have hc : Unpaired c cs := unpaired_iff.2 hsingle
    rw [inCarets_cons hc, starPairs_cons hc]
    show c.utf8Size + byteLength (inCarets cs) + starPairs cs = c.utf8Size + byteLength cs
    omega

/-! ## The stars of a lexeme -/

/-- What a lexeme is to the two signs: the power, a single star, or without a star. -/
inductive Starred : Token → List Char → Prop
  | power : Starred (.operator .pow) ['*', '*']
  | product : Starred (.operator .mul) ['*']
  | none {t : Token} {w : List Char} : '*' ∉ w → Starred t w

theorem Lexeme.starred (h : Lexeme t w) : Starred t w := by
  by_cases hstar : '*' ∈ w
  · have hlisted := h.listed_of_mem hstar (by decide) (by decide) (by decide)
    have hall : ∀ p ∈ symbols, '*' ∈ p.1 →
        p = (['*', '*'], .operator .pow) ∨ p = (['*'], .operator .mul) := by decide
    rcases hall _ hlisted hstar with heq | heq <;> cases heq
    · exact .power
    · exact .product
  · exact .none hstar

/-- A star makes only the star longer. -/
theorem Lexeme.stops_star (h : Lexeme t w) (hw : w ≠ ['*']) (x : List Char) :
    Stops w ('*' :: x) := by
  cases h with
  | number written =>
    refine (stops_numeral written).2 ?_
    rintro c ⟨⟩
    exact ⟨by decide, fun hpoint => absurd hpoint (by decide)⟩
  | name letters some_letter =>
    refine (stops_name letters some_letter).2 ?_
    rintro c ⟨⟩
    decide
  | symbol listed => exact (stops_symbol listed).2 fun hstar => absurd hstar hw

/-- A caret makes nothing longer. -/
theorem Lexeme.stops_caret (h : Lexeme t w) (x : List Char) : Stops w ('^' :: x) :=
  h.stops (by decide) (by decide) (by decide) (by decide) x

theorem lexeme_caret : Lexeme (.operator .pow) ['^'] := .symbol (by decide)

theorem lexeme_stars : Lexeme (.operator .pow) ['*', '*'] := .symbol (by decide)

theorem lexeme_star : Lexeme (.operator .mul) ['*'] := .symbol (by decide)

/-! ## Carets for stars -/

theorem Stops.inCarets (h : Lexeme t w) (hx : Stops w x) : Stops w (DeskCalc.inCarets x) := by
  intro c t' hc
  by_cases hcaret : c = '^'
  · exact h.stops_caret [] c t' (by rw [hcaret]; rfl)
  · exact hx c t' (head?_of_inCarets hc hcaret)

theorem not_star_of_stops (hx : Stops ['*'] x) : x.head? ≠ some '*' := fun hc =>
  hx '*' (.operator .pow) hc lexeme_stars

/-- What is passed is passed with carets as well. -/
theorem Passed.inCarets {rest p : List Char} {tokens : List Token}
    (hrest : rest.head? ≠ some '*') (h : Passed rest p tokens) :
    Passed (DeskCalc.inCarets rest) (DeskCalc.inCarets p) tokens := by
  induction h with
  | nil => exact .nil
  | @blank c p tokens hc _ ih =>
    have hstar : c ≠ '*' := by
      rintro rfl
      exact absurd hc (by decide)
    rw [inCarets_cons fun h => absurd h hstar]
    exact .blank hc ih
  | @lexeme t w p tokens hw _ ih =>
    obtain ⟨hlex, hstops⟩ := longest_iff_stops.1 hw
    have hnew : Stops w (DeskCalc.inCarets p ++ DeskCalc.inCarets rest) := by
      rw [← inCarets_append hrest]
      exact hstops.inCarets hlex
    cases hlex.starred with
    | power =>
      have hcaret : Stops ['^'] (DeskCalc.inCarets p ++ DeskCalc.inCarets rest) :=
        (stops_symbol (t := .operator .pow) (by decide)).2 fun h => absurd h (by decide)
      exact .lexeme (w := ['^']) (longest_iff_stops.2 ⟨lexeme_caret, hcaret⟩) ih
    | product =>
      have hp : Unpaired '*' p := fun _ hhead => by
        refine not_star_of_stops hstops ?_
        obtain ⟨p, rfl⟩ := List.head?_eq_some_iff.1 hhead
        rfl
      rw [List.singleton_append, inCarets_cons hp]
      exact .lexeme (w := ['*']) (longest_iff_stops.2 ⟨hlex, hnew⟩) ih
    | none hnone =>
      rw [inCarets_append_of_notMem hnone]
      exact .lexeme (longest_iff_stops.2 ⟨hlex, hnew⟩) ih

/-- The first character of a lexeme is a lexeme, or it is one together with a digit behind it. -/
theorem Lexeme.short (h : Lexeme t (c :: w)) :
    (∃ t', Lexeme t' [c]) ∨ ∃ d v t', w = d :: v ∧ d.isDigit = true ∧ Lexeme t' [c, d] := by
  generalize hcw : c :: w = cw at h
  cases h with
  | number written =>
    cases written with
    | integer digits _ =>
      subst hcw
      exact .inl ⟨_, .number (.integer (digits_singleton (digits c List.mem_cons_self)) (by simp))⟩
    | @decimal whole fraction digits places some_digit =>
      cases whole with
      | nil =>
        obtain ⟨d, v, rfl⟩ := List.exists_cons_of_ne_nil (some_digit.resolve_left (absurd rfl))
        cases hcw
        have hd : d.isDigit = true := places d List.mem_cons_self
        have hlex : Numeral.Written ⟨[], [d]⟩ ['.', d] :=
          .decimal (List.forall_mem_nil _) (digits_singleton hd) (.inr (by simp))
        exact .inr ⟨d, v, _, rfl, hd, .number hlex⟩
      | cons c' whole =>
        cases hcw
        exact .inl
          ⟨_, .number (.integer (digits_singleton (digits c List.mem_cons_self)) (by simp))⟩
  | name letters _ =>
    subst hcw
    have hc : ∀ a ∈ [c], a.isAlpha = true :=
      List.forall_mem_singleton.2 (letters c List.mem_cons_self)
    exact .inl ⟨_, .name hc (by simp)⟩
  | symbol listed =>
    have hall : ∀ p ∈ symbols, ∃ q ∈ symbols, q.1 = p.1.take 1 := by decide
    obtain ⟨⟨u, t'⟩, hq, rfl⟩ := hall _ listed
    subst hcw
    exact .inl ⟨t', .symbol hq⟩

/-- Where a text is stuck it is stuck with carets as well. -/
theorem Stuck.inCarets {rest : List Char} (h : Stuck c rest) : Stuck c (DeskCalc.inCarets rest) where
  not_blank := h.not_blank
  no_lexeme := by
    rintro t w hlex ⟨x, hx⟩
    obtain ⟨c', w, rfl⟩ := List.exists_cons_of_ne_nil hlex.ne_nil
    rw [List.cons_append] at hx
    obtain ⟨rfl, hrest⟩ := List.cons.inj hx
    rcases hlex.short with ⟨t', hsingle⟩ | ⟨d, v, t', rfl, hd, hpair⟩
    · exact h.no_lexeme t' _ hsingle ⟨rest, rfl⟩
    · have hcaret : d ≠ '^' := by
        rintro rfl
        exact absurd hd (by decide)
      have hhead : rest.head? = some d := head?_of_inCarets (by rw [← hrest]; rfl) hcaret
      obtain ⟨rest, rfl⟩ := List.head?_eq_some_iff.1 hhead
      exact h.no_lexeme t' _ hpair ⟨rest, rfl⟩

/-- No text is stuck at a star. -/
theorem Stuck.not_star {rest : List Char} (h : Stuck c rest) : c ≠ '*' := by
  rintro rfl
  exact h.no_lexeme _ _ lexeme_star ⟨rest, rfl⟩

/-! ## Stars for carets -/

/-- No power sign behind a product sign. -/
def Steady (tokens : List Token) : Prop :=
  tokens.IsChain fun a b => a = .operator .mul → b ≠ .operator .pow

theorem Steady.binary {u v : List Token} (op : Operator) (hu : Steady u)
    (hlast : u.getLast? ≠ some (.operator .mul)) (hv : Steady v)
    (hfirst : v.head? ≠ some (.operator .pow)) : Steady (u ++ .operator op :: v) := by
  refine List.isChain_append.2 ⟨hu, List.isChain_cons.2 ⟨fun b hb _ => ?_, hv⟩, fun a ha b _ => ?_⟩
  · rintro rfl
    exact hfirst hb
  · rintro rfl
    exact absurd ha hlast

theorem Steady.cons {tok : Token} {u : List Token} (htok : tok ≠ .operator .mul) (hu : Steady u) :
    Steady (tok :: u) :=
  List.isChain_cons.2 ⟨fun _ _ hmul => absurd hmul htok, hu⟩

theorem Steady.bracketed {u : List Token} (s : Bracket) (hu : Steady u) :
    Steady (.opening s :: (u ++ [.closing s])) := by
  refine .cons nofun (List.isChain_append.2 ⟨hu, .singleton _, fun _ _ b hb _ => ?_⟩)
  cases hb
  nofun

theorem Spells.last_ne_mul {p : Phrase} {u : List Token} {e : Expr} {n d : Nat}
    (h : Spells p u e n d) : u.getLast? ≠ some (.operator .mul) := fun hlast =>
  h.not_open fun tok htok => by
    rw [hlast] at htok
    cases htok
    exact trivial

/-- A phrase does not begin with a power sign, and has none behind a product sign. -/
theorem Spells.steady {p : Phrase} {u : List Token} {e : Expr} {n d : Nat} (h : Spells p u e n d) :
    Steady u ∧ u.head? ≠ some (.operator .pow) := by
  have hfront : ∀ {u v : List Token} {p e n d}, Spells p u e n d → (u ++ v).head? = u.head? := by
    intro u v p e n d h
    cases u with
    | nil => exact absurd open_nil h.not_open
    | cons tok u => rfl
  induction h with
  | sumOfProduct _ ih | productOfPower _ ih | powerOfSigned _ ih | signedOfAtom _ ih => exact ih
  | sumSnoc hl _ _ ihl ihr | productSnoc hl _ _ ihl ihr | raise hl _ ihl ihr =>
    exact ⟨ihl.1.binary _ hl.last_ne_mul ihr.1 ihr.2, by rw [hfront hl]; exact ihl.2⟩
  | minus _ ih | plus _ ih =>
    exact ⟨ih.1.cons nofun, nofun⟩
  | number | constant => exact ⟨.singleton _, nofun⟩
  | group s _ ih => exact ⟨ih.1.bracketed s, nofun⟩
  | call f s _ ih => exact ⟨(ih.1.bracketed s).cons nofun, nofun⟩

theorem Scans.head_caret {tokens : List Token} (h : Scans ('^' :: x) tokens) :
    tokens.head? = some (.operator .pow) := by
  have hscan := h.scan_eq
  rw [scan_symbol (t := .operator .pow) (by decide) (by decide)] at hscan
  obtain ⟨rfl, -⟩ := Prod.mk.inj hscan
  rfl

theorem inStars_cons (hc : c ≠ '^') : inStars (c :: cs) = c :: inStars cs := by
  rw [inStars, List.flatMap_cons, if_neg hc]
  rfl

theorem inStars_append_of_notMem (hw : '^' ∉ w) (x : List Char) :
    inStars (w ++ x) = w ++ inStars x := by
  induction w with
  | nil => rfl
  | cons c w ih =>
    obtain ⟨hc, hw⟩ := not_or.1 (mt List.mem_cons.2 hw)
    rw [List.cons_append, inStars_cons (Ne.symm hc), ih hw, List.cons_append]

/-- A steady text has the same tokens with stars. -/
theorem Scans.inStars {tokens : List Token} (h : Scans cs tokens) (hsteady : Steady tokens) :
    Scans (DeskCalc.inStars cs) tokens := by
  induction h with
  | nil => exact .nil
  | @blank c cs tokens hc _ ih =>
    have hcaret : c ≠ '^' := by
      rintro rfl
      exact absurd hc (by decide)
    rw [inStars_cons hcaret]
    exact .blank hc (ih hsteady)
  | @lexeme t w x tokens hlex hstops hrest ih =>
    obtain ⟨hnext, hbehind⟩ := List.isChain_cons.1 hsteady
    by_cases hcaret : '^' ∈ w
    · have hlisted := hlex.listed_of_mem hcaret (by decide) (by decide) (by decide)
      have hall : ∀ p ∈ symbols, '^' ∈ p.1 → p = (['^'], .operator .pow) := by decide
      cases hall _ hlisted hcaret
      have hstars : Stops ['*', '*'] (DeskCalc.inStars x) :=
        (stops_symbol (t := .operator .pow) (by decide)).2 fun h => absurd h (by decide)
      exact .lexeme lexeme_stars hstars (ih hbehind)
    · rw [inStars_append_of_notMem hcaret]
      refine .lexeme hlex ?_ (ih hbehind)
      cases x with
      | nil => exact stops_nil w
      | cons a x =>
        by_cases ha : a = '^'
        · -- A caret here is a power sign, so it is not behind a product sign.
          subst ha
          refine hlex.stops_star (fun hw => ?_) _
          have ht : t = .operator .mul := by
            subst hw
            cases hlex.starred with
            | product => rfl
            | none hnone => exact absurd (List.mem_singleton_self '*') hnone
          exact hnext _ hrest.head_caret ht rfl
        · rw [inStars_cons ha]
          exact fun c t' hc => hstops c t' hc

/-! ## Texts -/

/-- The text with a caret for any two stars, from the left. -/
def caretText (s : String) : String := String.ofList (inCarets s.toList)

/-- The text with two stars for each caret. -/
def starText (s : String) : String := String.ofList (inStars s.toList)

/-- A text and the one with carets have the same tokens, or both fail at the same character. -/
theorem tokenize_caretText (s : String) :
    (∃ tokens, tokenize s = .ok tokens ∧ tokenize (caretText s) = .ok tokens) ∨
    ∃ (p q : String) (c : Char) (position : Nat), s = p ++ String.singleton c ++ q ∧
      caretText s = caretText p ++ String.singleton c ++ caretText q ∧
      p.utf8ByteSize = position + starPairs p.toList ∧
      tokenize s = .error ⟨position + starPairs p.toList, c⟩ ∧
      tokenize (caretText s) = .error ⟨position, c⟩ := by
  rcases passed_or_stuck s with ⟨tokens, h⟩ | ⟨p, q, c, tokens, rfl, h, hc⟩
  · have hcarets : Passed [] (caretText s).toList tokens := by
      rw [caretText, String.toList_ofList]
      exact h.inCarets (show [].head? ≠ some '*' by decide)
    exact .inl ⟨tokens, tokenize_of_passed h, tokenize_of_passed hcarets⟩
  · have hhead : (c :: q.toList).head? ≠ some '*' := fun h => hc.not_star (Option.some.inj h)
    have hunpaired : Unpaired c q.toList := fun hstar => absurd hstar hc.not_star
    have hsplit : caretText (p ++ String.singleton c ++ q)
        = caretText p ++ String.singleton c ++ caretText q := by
      apply String.toList_inj.1
      rw [toList_around]
      simp only [caretText, String.toList_ofList]
      rw [toList_around, inCarets_append hhead, inCarets_cons hunpaired]
    have hcarets : Passed (c :: (caretText q).toList) (caretText p).toList tokens := by
      rw [caretText, caretText, String.toList_ofList, String.toList_ofList,
        ← inCarets_cons hunpaired]
      exact h.inCarets hhead
    have hstuck : Stuck c (caretText q).toList := by
      rw [caretText, String.toList_ofList]
      exact hc.inCarets
    have hbytes : (caretText p).utf8ByteSize + starPairs p.toList = p.utf8ByteSize := by
      rw [← byteLength_toList, ← byteLength_toList, caretText, String.toList_ofList]
      exact byteLength_inCarets p.toList
    refine .inr ⟨p, q, c, (caretText p).utf8ByteSize, rfl, hsplit, hbytes.symm, ?_, ?_⟩
    · rw [hbytes]
      exact tokenize_of_stuck h hc
    · rw [hsplit]
      exact tokenize_of_stuck hcarets hstuck

/-- A text that is an expression has the same tokens with stars. -/
theorem tokenize_starText {s : String} {tokens : List Token} {t : Expr}
    (htokens : tokenize s = .ok tokens) (hparse : parse tokens = .ok t) :
    tokenize (starText s) = .ok tokens := by
  obtain ⟨n, d, hspells, -, -⟩ := spells_of_parse hparse
  have hscans := (tokenize_eq_ok_iff.1 htokens).inStars hspells.steady.1
  rw [tokenize_eq_ok_iff, starText, String.toList_ofList]
  exact hscans

/-- **The two signs of a power mean the same.** With carets for its pairs of stars a text has the
same tokens, or fails at the same character, so it calculates to the same; with stars for its carets
a text with a value has the same value. -/
theorem calculate_power_signs (s : String) :
    ((∃ tokens, tokenize s = .ok tokens ∧ tokenize (caretText s) = .ok tokens) ∨
      ∃ (p q : String) (c : Char) (position : Nat), s = p ++ String.singleton c ++ q ∧
        caretText s = caretText p ++ String.singleton c ++ caretText q ∧
        p.utf8ByteSize = position + starPairs p.toList ∧
        tokenize s = .error ⟨position + starPairs p.toList, c⟩ ∧
        tokenize (caretText s) = .error ⟨position, c⟩) ∧
    (∀ x, calculate s = .ok x ↔ calculate (caretText s) = .ok x) ∧
    (∀ e, calculate s = .error (.grammar e) ↔ calculate (caretText s) = .error (.grammar e)) ∧
    (∀ e, calculate s = .error (.domain e) ↔ calculate (caretText s) = .error (.domain e)) ∧
    (∀ tokens t, tokenize s = .ok tokens → parse tokens = .ok t →
      tokenize (starText s) = .ok tokens ∧ calculate (starText s) = calculate s) ∧
    ∀ x, calculate s = .ok x → calculate (starText s) = .ok x := by
  have hsame : ∀ r, (∀ e, r ≠ .error (.lex e)) →
      (calculate s = r ↔ calculate (caretText s) = r) := by
    intro r hr
    rcases tokenize_caretText s with ⟨tokens, h, h'⟩ | ⟨p, q, c, position, -, -, -, h, h'⟩
    · rw [calculate_congr (h.trans h'.symm)]
    · rw [(Calculated.noTokens h).eq, (Calculated.noTokens h').eq]
      exact ⟨fun heq => absurd heq.symm (hr _), fun heq => absurd heq.symm (hr _)⟩
  have hstars : ∀ tokens t, tokenize s = .ok tokens → parse tokens = .ok t →
      tokenize (starText s) = .ok tokens ∧ calculate (starText s) = calculate s := by
    intro tokens t htokens hparse
    have hread := tokenize_starText htokens hparse
    exact ⟨hread, calculate_congr (hread.trans htokens.symm)⟩
  refine ⟨tokenize_caretText s, fun _ => hsame _ nofun, fun _ => hsame _ nofun,
    fun _ => hsame _ nofun, hstars, fun x hx => ?_⟩
  obtain ⟨tokens, t, htokens, hparse, -⟩ := stages_of_calculate hx
  rw [(hstars tokens t htokens hparse).2, hx]

/-- Three stars are a power and a product, with a caret as well; a power in an exponent is the same
power with stars; and a text without either sign has its value. -/
theorem calculate_power_signs_tower :
    let tokens : List Token :=
      [.number 2, .operator .pow, .number 3, .operator .pow, .number 2]
    let tower : Expr := .binary .pow (.literal 2) (.binary .pow (.literal 3) (.literal 2))
    caretText "2***3**4é" = "2^*3^4é" ∧
    tokenize "2***3**4é" = .error ⟨8, 'é'⟩ ∧ tokenize "2^*3^4é" = .error ⟨6, 'é'⟩ ∧
    tokenize "2^3 ^2" = .ok tokens ∧ parse tokens = .ok tower ∧ starText "2^3 ^2" = "2**3 **2" ∧
    calculate "2**3 **2" = calculate "2^3 ^2" ∧
    calculate "2*4" = .ok 8 ∧ calculate (starText "2*4") = .ok 8 := by
  have hread : tokenize "2^3 ^2" = .ok [.number 2, .operator .pow, .number 3, .operator .pow,
      .number 2] := by decide +kernel
  have hparse : parse [.number 2, .operator .pow, .number 3, .operator .pow, .number 2]
      = .ok (.binary .pow (.literal 2) (.binary .pow (.literal 3) (.literal 2))) := by
    have hexponent := (Spells.signedOfAtom (.number 3)).raise
      (.powerOfSigned (.signedOfAtom (.number 2)))
    have htower := (Spells.signedOfAtom (.number 2)).raise hexponent
    exact parse_of_spells (.sumOfProduct (.productOfPower htower)) (by decide) (by decide)
  have hstars : starText "2^3 ^2" = "2**3 **2" := by decide +kernel
  have hvalue : calculate "2*4" = .ok 8 := by decide +kernel
  have hsame := ((calculate_power_signs "2^3 ^2").2.2.2.2.1 _ _ hread hparse).2
  have hproduct := (calculate_power_signs "2*4").2.2.2.2.2 8 hvalue
  rw [hstars] at hsame
  exact ⟨by decide +kernel, by decide +kernel, by decide +kernel, hread, hparse, hstars, hsame,
    hvalue, hproduct⟩

end DeskCalc
