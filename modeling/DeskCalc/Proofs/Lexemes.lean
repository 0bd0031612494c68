import DeskCalc.Token.Scan
import Mathlib

/-!
# Lexemes

`Lexeme t w` says that the characters `w` spell the token `t`: a numeral, a run of letters or one of
the fixed symbols. The main fact is `lexeme?_eq_some_iff`: what `lexeme?` takes off the front of a
text is a lexeme that the next character does not make longer. As every prefix of a longer lexeme
that begins with a lexeme is one too, this is the longest one.
-/

namespace DeskCalc

/-- Digits only, perhaps none. -/
def Digits (cs : List Char) : Prop := ∀ c ∈ cs, c.isDigit = true

instance (cs : List Char) : Decidable (Digits cs) :=
  List.decidableBAll (fun c : Char => c.isDigit = true) cs

/-- The two ways to write a numeral: digits, or digits around a point with a digit on one side. -/
inductive Numeral.Written : Numeral → List Char → Prop
  | integer {whole : List Char} (digits : Digits whole) (some_digit : whole ≠ []) :
      Written ⟨whole, []⟩ whole
  | decimal {whole fraction : List Char} (digits : Digits whole) (places : Digits fraction)
      (some_digit : whole ≠ [] ∨ fraction ≠ []) :
      Written ⟨whole, fraction⟩ (whole ++ '.' :: fraction)

/-- The fixed symbols and their tokens. -/
def symbols : List (List Char × Token) :=
  [(['*', '*'], .operator .pow), (['^'], .operator .pow), (['+'], .operator .add),
    (['-'], .operator .sub), (['*'], .operator .mul), (['/'], .operator .div),
    (['('], .opening .round), ([')'], .closing .round), (['['], .opening .square),
    ([']'], .closing .square), (['\x7b'], .opening .curly), (['\x7d'], .closing .curly),
    ([','], .comma)]

/-- The characters of a lexeme of a token. -/
inductive Lexeme : Token → List Char → Prop
  | number {n : Numeral} {w : List Char} (written : n.Written w) : Lexeme (.number n.toFloat) w
  | name {w : List Char} (letters : ∀ c ∈ w, c.isAlpha = true) (some_letter : w ≠ []) :
      Lexeme (.identifier (String.ofList w)) w
  | symbol {t : Token} {w : List Char} (listed : (w, t) ∈ symbols) : Lexeme t w

/-- The first character of `x`, if any, does not make the lexeme `w` longer. -/
def Stops (w x : List Char) : Prop := ∀ c t, x.head? = some c → ¬ Lexeme t (w ++ [c])

/-! ## Characters -/

theorem not_isAlpha_of_isDigit {c : Char} (h : c.isDigit = true) : c.isAlpha = false := by
  simp only [Char.isDigit, Char.isAlpha, Char.isUpper, Char.isLower, Bool.and_eq_true,
    decide_eq_true_eq, UInt32.le_iff_toNat_le, ge_iff_le] at h ⊢
  simp at h ⊢
  omega

/-- A symbol is made of characters that are in no numeral, in no name and not blank. -/
theorem symbol_char {w : List Char} {t : Token} {c : Char} (h : (w, t) ∈ symbols) (hc : c ∈ w) :
    c.isDigit = false ∧ c.isAlpha = false ∧ c ≠ '.' ∧ isBlank c = false := by
  have hall : (symbols.all fun p => p.1.all fun c =>
      !c.isDigit && !c.isAlpha && c != '.' && !isBlank c) = true := by decide
  have hsymbol := List.all_eq_true.1 (List.all_eq_true.1 hall (w, t) h) c hc
  simpa [and_assoc] using hsymbol

theorem symbol_ne_nil {w : List Char} {t : Token} (h : (w, t) ∈ symbols) : w ≠ [] := by
  have hall : ∀ p ∈ symbols, p.1 ≠ [] := by decide
  exact hall (w, t) h

/-- The only symbol of more than one character is the double star. -/
theorem symbol_snoc {w : List Char} {t : Token} {c : Char} (h : (w ++ [c], t) ∈ symbols)
    (hw : w ≠ []) : w = ['*'] ∧ c = '*' := by
  have hall : ∀ p ∈ symbols, 2 ≤ p.1.length → p.1 = ['*', '*'] := by decide
  have hlen : 2 ≤ (w ++ [c]).length := by
    have := List.length_pos_iff.2 hw
    simp only [List.length_append, List.length_singleton]
    omega
  have heq : w ++ [c] = ['*'] ++ ['*'] := hall (w ++ [c], t) h hlen
  obtain ⟨hfront, hlast⟩ := List.append_inj' heq rfl
  exact ⟨hfront, List.head_eq_of_cons_eq hlast⟩

/-- The characters of a numeral. -/
theorem Numeral.Written.char {n : Numeral} {w : List Char} {c : Char} (h : n.Written w)
    (hc : c ∈ w) : c.isDigit = true ∨ c = '.' := by
  cases h with
  | integer digits _ => exact .inl (digits c hc)
  | decimal digits places _ =>
    rcases List.mem_append.1 hc with hc | hc
    · exact .inl (digits c hc)
    rcases List.mem_cons.1 hc with rfl | hc
    · exact .inr rfl
    · exact .inl (places c hc)

theorem Numeral.Written.ne_nil {n : Numeral} {w : List Char} (h : n.Written w) : w ≠ [] := by
  cases h with
  | integer _ some_digit => exact some_digit
  | decimal _ _ _ => simp

namespace Lexeme

variable {t : Token} {w : List Char} {a : Char}

theorem ne_nil (h : Lexeme t w) : w ≠ [] := by
  cases h with
  | number written => exact written.ne_nil
  | name _ some_letter => exact some_letter
  | symbol listed => exact symbol_ne_nil listed

/-! Any one of its characters tells which kind of lexeme it is. -/

theorem written_of_mem (h : Lexeme t w) (ha : a ∈ w) (hnum : a.isDigit = true ∨ a = '.') :
    ∃ n : Numeral, n.Written w ∧ t = .number n.toFloat := by
  cases h with
  | number written => exact ⟨_, written, rfl⟩
  | name letters _ =>
    have hletter := letters a ha
    rcases hnum with hdigit | rfl
    · rw [not_isAlpha_of_isDigit hdigit] at hletter
      contradiction
    · contradiction
  | symbol listed =>
    obtain ⟨hdigit, -, hpoint, -⟩ := symbol_char listed ha
    rcases hnum with hnum | hnum
    · rw [hdigit] at hnum
      contradiction
    · exact absurd hnum hpoint

theorem letters_of_mem (h : Lexeme t w) (ha : a ∈ w) (hletter : a.isAlpha = true) :
    (∀ c ∈ w, c.isAlpha = true) ∧ t = .identifier (String.ofList w) := by
  cases h with
  | number written =>
    rcases written.char ha with hdigit | rfl
    · rw [not_isAlpha_of_isDigit hdigit] at hletter
      contradiction
    · contradiction
  | name letters _ => exact ⟨letters, rfl⟩
  | symbol listed =>
    rw [(symbol_char listed ha).2.1] at hletter
    contradiction

theorem listed_of_mem (h : Lexeme t w) (ha : a ∈ w) (hdigit : a.isDigit = false)
    (hletter : a.isAlpha = false) (hpoint : a ≠ '.') : (w, t) ∈ symbols := by
  cases h with
  | number written =>
    rcases written.char ha with hnum | hnum
    · rw [hdigit] at hnum
      contradiction
    · exact absurd hnum hpoint
  | name letters _ =>
    have := letters a ha
    rw [hletter] at this
    contradiction
  | symbol listed => exact listed

end Lexeme

/-! ## What makes a lexeme longer -/

/-- The first character of `x` does not make the numeral `w` longer. -/
def NumeralStops (w x : List Char) : Prop :=
  ∀ c, x.head? = some c → c.isDigit = false ∧ (c = '.' → '.' ∈ w)

/-- Digits before the first point are determined. -/
theorem split_at_point {a a' b b' : List Char} (ha : Digits a) (ha' : Digits a')
    (h : a ++ '.' :: b = a' ++ '.' :: b') : a = a' ∧ b = b' := by
  have hwhole := congrArg (List.takeWhile Char.isDigit) h
  rw [List.takeWhile_append_of_pos ha, List.takeWhile_append_of_pos ha',
    List.takeWhile_cons_of_neg (by decide), List.takeWhile_cons_of_neg (by decide),
    List.append_nil, List.append_nil] at hwhole
  subst hwhole
  exact ⟨rfl, List.tail_eq_of_cons_eq (List.append_cancel_left h)⟩

theorem digits_append {a b : List Char} (ha : Digits a) (hb : Digits b) : Digits (a ++ b) :=
  List.forall_mem_append.2 ⟨ha, hb⟩

theorem digits_singleton {c : Char} (hc : c.isDigit = true) : Digits [c] :=
  List.forall_mem_singleton.2 hc

theorem not_digits_of_point {cs : List Char} (h : Digits cs) : '.' ∉ cs := fun hc =>
  absurd (h '.' hc) (by decide)

/-- If the character behind a numeral makes it longer, it is a digit or the first point. -/
theorem Numeral.Written.last {n n' : Numeral} {w : List Char} {c : Char} (h : n.Written w)
    (h' : n'.Written (w ++ [c])) : c.isDigit = true ∨ c = '.' ∧ '.' ∉ w := by
  rcases h'.char (List.mem_append_right w (List.mem_singleton_self c)) with hc | rfl
  · exact .inl hc
  · refine .inr ⟨rfl, fun hpoint => ?_⟩
    cases h with
    | integer digits _ => exact not_digits_of_point digits hpoint
    | @decimal whole fraction digits places _ =>
      generalize hw : whole ++ '.' :: fraction ++ ['.'] = w' at h'
      cases h' with
      | integer digits' _ =>
        exact not_digits_of_point digits' (hw ▸ by simp)
      | decimal digits' places' _ =>
        rw [List.append_assoc, List.cons_append] at hw
        obtain ⟨rfl, rfl⟩ := split_at_point digits digits' hw
        exact not_digits_of_point places' (by simp)

/-- And these do make it longer. -/
theorem Numeral.Written.longer {n : Numeral} {w : List Char} {c : Char} (h : n.Written w)
    (hc : c.isDigit = true ∨ c = '.' ∧ '.' ∉ w) : ∃ n' : Numeral, n'.Written (w ++ [c]) := by
  cases h with
  | integer digits some_digit =>
    rcases hc with hc | ⟨rfl, -⟩
    · exact ⟨_, .integer (digits_append digits (digits_singleton hc)) (by simp)⟩
    · exact ⟨_, .decimal digits (fun _ => nofun) (.inl some_digit)⟩
  | decimal digits places _ =>
    rcases hc with hc | ⟨rfl, hpoint⟩
    · rw [List.append_assoc, List.cons_append]
      exact ⟨_, .decimal digits (digits_append places (digits_singleton hc)) (.inr (by simp))⟩
    · exact absurd hpoint (by simp)

theorem stops_numeral {n : Numeral} {w x : List Char} (h : n.Written w) :
    Stops w x ↔ NumeralStops w x := by
  refine ⟨fun hx c hc => ?_, fun hx c t hc hlonger => ?_⟩
  · have hnot : ¬ (c.isDigit = true ∨ c = '.' ∧ '.' ∉ w) := fun hlonger =>
      have ⟨_, hw⟩ := h.longer hlonger
      hx c _ hc (.number hw)
    simpa using hnot
  · obtain ⟨a, ha⟩ := List.exists_mem_of_ne_nil w h.ne_nil
    obtain ⟨n', hw, -⟩ := hlonger.written_of_mem (List.mem_append_left _ ha) (h.char ha)
    obtain ⟨hdigit, hpoint⟩ := hx c hc
    rcases h.last hw with hc | ⟨rfl, hnone⟩
    · rw [hdigit] at hc
      contradiction
    · exact hnone (hpoint rfl)

theorem stops_name {w x : List Char} (h : ∀ c ∈ w, c.isAlpha = true) (hw : w ≠ []) :
    Stops w x ↔ ∀ c, x.head? = some c → c.isAlpha = false := by
  refine ⟨fun hx c hc => Bool.eq_false_iff.2 fun hletter => ?_, fun hx c t hc hlonger => ?_⟩
  · have hletters := List.forall_mem_append.2 ⟨h, List.forall_mem_singleton.2 hletter⟩
    exact hx c _ hc (.name hletters (by simp))
  · obtain ⟨a, ha⟩ := List.exists_mem_of_ne_nil w hw
    have hletters := (hlonger.letters_of_mem (List.mem_append_left _ ha) (h a ha)).1
    exact absurd (hletters c (by simp)) (by rw [hx c hc]; decide)

theorem stops_symbol {t : Token} {w x : List Char} (h : (w, t) ∈ symbols) :
    Stops w x ↔ (w = ['*'] → x.head? ≠ some '*') := by
  refine ⟨fun hx hw hc => ?_, fun hx c t hc hlonger => ?_⟩
  · subst hw
    exact hx '*' (.operator .pow) hc (.symbol (by decide))
  · obtain ⟨a, ha⟩ := List.exists_mem_of_ne_nil w (symbol_ne_nil h)
    obtain ⟨hdigit, hletter, hpoint, -⟩ := symbol_char h ha
    have hlisted := hlonger.listed_of_mem (List.mem_append_left _ ha) hdigit hletter hpoint
    obtain ⟨rfl, rfl⟩ := symbol_snoc hlisted (symbol_ne_nil h)
    exact hx rfl hc

/-- A character that is in no numeral and no name and is no star makes no lexeme longer. -/
theorem Lexeme.stops {t : Token} {w : List Char} {c : Char} (h : Lexeme t w)
    (hdigit : c.isDigit = false) (hletter : c.isAlpha = false) (hpoint : c ≠ '.') (hstar : c ≠ '*')
    (x : List Char) : Stops w (c :: x) := by
  cases h with
  | number written =>
    refine (stops_numeral written).2 ?_
    rintro c' ⟨⟩
    exact ⟨hdigit, fun hc => absurd hc hpoint⟩
  | name letters some_letter =>
    refine (stops_name letters some_letter).2 ?_
    rintro c' ⟨⟩
    exact hletter
  | symbol listed => exact (stops_symbol listed).2 fun _ hc => hstar (Option.some.inj hc)

/-! ## What the scanner reads -/

section Front

variable {p : Char → Bool} {run x : List Char}

/-- A run of characters ends where the first other one stands. -/
theorem takeWhile_run (hrun : ∀ c ∈ run, p c = true) (hx : ∀ c, x.head? = some c → p c = false) :
    (run ++ x).takeWhile p = run := by
  rw [List.takeWhile_append_of_pos hrun]
  cases x with
  | nil => simp
  | cons c x => simp [hx c rfl]

theorem dropWhile_run (hrun : ∀ c ∈ run, p c = true) (hx : ∀ c, x.head? = some c → p c = false) :
    (run ++ x).dropWhile p = x := by
  rw [List.dropWhile_append_of_pos hrun]
  cases x with
  | nil => rfl
  | cons c x => simp [hx c rfl]

theorem head_dropWhile (p : Char → Bool) (cs : List Char) :
    ∀ c, (cs.dropWhile p).head? = some c → p c = false := by
  intro c hc
  have hnot := List.head?_dropWhile_not p cs
  rw [hc] at hnot
  simpa using hnot

theorem all_takeWhile (p : Char → Bool) (cs : List Char) : ∀ c ∈ cs.takeWhile p, p c = true :=
  List.all_eq_true.1 List.all_takeWhile

end Front

theorem numeral?_append {n : Numeral} {w x : List Char} (h : n.Written w) (hx : NumeralStops w x) :
    numeral? (w ++ x) = some (n, x) := by
  cases h with
  | @integer whole digits some_digit =>
    have hdigit : ∀ c, x.head? = some c → c.isDigit = false := fun c hc => (hx c hc).1
    simp only [numeral?, takeWhile_run digits hdigit, dropWhile_run digits hdigit]
    split
    · next rest =>
      exact absurd ((hx '.' rfl).2 rfl) (not_digits_of_point digits)
    · rw [if_neg (by simpa using some_digit)]
  | @decimal whole fraction digits places some_digit =>
    have hpoint : ∀ c, ('.' :: (fraction ++ x)).head? = some c → c.isDigit = false := by
      rintro c ⟨⟩
      decide
    have hdigit : ∀ c, x.head? = some c → c.isDigit = false := fun c hc => (hx c hc).1
    rw [List.append_assoc, List.cons_append]
    simp only [numeral?, takeWhile_run digits hpoint, dropWhile_run digits hpoint,
      takeWhile_run places hdigit, dropWhile_run places hdigit]
    rw [if_neg]
    rw [Bool.and_eq_true, List.isEmpty_iff, List.isEmpty_iff]
    exact fun hnone => some_digit.elim (absurd hnone.1) (absurd hnone.2)

theorem written_of_numeral? {n : Numeral} {cs x : List Char} (h : numeral? cs = some (n, x)) :
    ∃ w, cs = w ++ x ∧ n.Written w ∧ NumeralStops w x := by
  have hcs := (List.takeWhile_append_dropWhile (p := Char.isDigit) (l := cs)).symm
  have hdigits : Digits (cs.takeWhile Char.isDigit) := all_takeWhile Char.isDigit cs
  have hstop := head_dropWhile Char.isDigit cs
  simp only [numeral?] at h
  split at h
  · next rest hrest =>
    have hplaces : Digits (rest.takeWhile Char.isDigit) := all_takeWhile Char.isDigit rest
    split at h
    · cases h
    · next some_digit =>
      cases h
      refine ⟨cs.takeWhile Char.isDigit ++ '.' :: rest.takeWhile Char.isDigit, ?_,
        .decimal hdigits hplaces ?_, fun c hc => ⟨head_dropWhile Char.isDigit rest c hc, ?_⟩⟩
      · rw [List.append_assoc, List.cons_append, List.takeWhile_append_dropWhile, ← hrest]
        exact hcs
      · rw [Bool.and_eq_true, List.isEmpty_iff, List.isEmpty_iff] at some_digit
        exact Decidable.not_and_iff_not_or_not.1 some_digit
      · simp
  · next rest hrest =>
    split at h
    · cases h
    · next some_digit =>
      cases h
      refine ⟨cs.takeWhile Char.isDigit, hcs, .integer hdigits (by simpa using some_digit),
        fun c hc => ⟨hstop c hc, ?_⟩⟩
      rintro rfl
      obtain ⟨after, hafter⟩ := List.head?_eq_some_iff.1 hc
      exact (hrest after hafter).elim

theorem name?_append {w x : List Char} (h : ∀ c ∈ w, c.isAlpha = true) (hw : w ≠ [])
    (hx : ∀ c, x.head? = some c → c.isAlpha = false) :
    name? (w ++ x) = some (String.ofList w, x) := by
  simp only [name?, takeWhile_run h hx, dropWhile_run h hx]
  rw [if_neg (by simpa using hw)]

theorem letters_of_name? {name : String} {cs x : List Char} (h : name? cs = some (name, x)) :
    ∃ w, cs = w ++ x ∧ (∀ c ∈ w, c.isAlpha = true) ∧ w ≠ [] ∧ name = String.ofList w ∧
      ∀ c, x.head? = some c → c.isAlpha = false := by
  simp only [name?] at h
  split at h
  · cases h
  · next some_letter =>
    cases h
    exact ⟨cs.takeWhile Char.isAlpha, List.takeWhile_append_dropWhile.symm,
      all_takeWhile Char.isAlpha cs, by simpa using some_letter, rfl,
      head_dropWhile Char.isAlpha cs⟩

/-- A star that no second one follows. -/
theorem symbol?_star {x : List Char} (hx : x.head? ≠ some '*') :
    symbol? ('*' :: x) = some (.operator .mul, x) := by
  cases x with
  | nil => rfl
  | cons c x =>
    unfold symbol?
    split <;> simp_all

theorem symbol?_append {t : Token} {w x : List Char} (h : (w, t) ∈ symbols)
    (hx : w = ['*'] → x.head? ≠ some '*') : symbol? (w ++ x) = some (t, x) := by
  by_cases hstar : w = ['*']
  · subst hstar
    have ht : ∀ p ∈ symbols, p.1 = ['*'] → p.2 = .operator .mul := by decide
    rw [show t = .operator .mul from ht (['*'], t) h rfl]
    exact symbol?_star (hx rfl)
  · simp only [symbols, List.mem_cons, List.not_mem_nil, or_false, Prod.mk.injEq] at h
    rcases h with ⟨rfl, rfl⟩ | ⟨rfl, rfl⟩ | ⟨rfl, rfl⟩ | ⟨rfl, rfl⟩ | ⟨rfl, rfl⟩ | ⟨rfl, rfl⟩ |
      ⟨rfl, rfl⟩ | ⟨rfl, rfl⟩ | ⟨rfl, rfl⟩ | ⟨rfl, rfl⟩ | ⟨rfl, rfl⟩ | ⟨rfl, rfl⟩ | ⟨rfl, rfl⟩
    all_goals first | rfl | exact absurd rfl hstar

theorem listed_of_symbol? {t : Token} {cs x : List Char} (h : symbol? cs = some (t, x)) :
    ∃ w, cs = w ++ x ∧ (w, t) ∈ symbols ∧ (w = ['*'] → x.head? ≠ some '*') := by
  unfold symbol? at h
  split at h
  case h_1 =>
    cases h
    exact ⟨['*', '*'], rfl, by decide, nofun⟩
  case h_5 rest hrest =>
    cases h
    refine ⟨['*'], rfl, by decide, fun _ hx => ?_⟩
    obtain ⟨after, rfl⟩ := List.head?_eq_some_iff.1 hx
    exact hrest after rfl
  case h_14 => cases h
  all_goals
    cases h
    exact ⟨_, (List.singleton_append).symm, by decide, fun hw => absurd hw (by decide)⟩

/-! ## The longest lexeme -/

theorem numeral?_eq_none {c : Char} {cs : List Char} (hdigit : c.isDigit = false)
    (hpoint : c ≠ '.') : numeral? (c :: cs) = none := by
  simp only [numeral?, List.takeWhile_cons, List.dropWhile_cons, hdigit]
  split
  · next heq => exact absurd (List.head_eq_of_cons_eq heq) hpoint
  · rfl

theorem name?_eq_none {c : Char} {cs : List Char} (hletter : c.isAlpha = false) :
    name? (c :: cs) = none := by
  simp [name?, hletter]

/-- A lexeme that the next character does not make longer is what is read. -/
theorem lexeme?_append {t : Token} {w x : List Char} (h : Lexeme t w) (hx : Stops w x) :
    lexeme? (w ++ x) = some (t, x) := by
  unfold lexeme?
  cases h with
  | number written => rw [numeral?_append written ((stops_numeral written).1 hx)]
  | name letters some_letter =>
    have hname := name?_append letters some_letter ((stops_name letters some_letter).1 hx)
    obtain ⟨a, as, rfl⟩ := List.exists_cons_of_ne_nil some_letter
    have hletter := letters a List.mem_cons_self
    have hdigit : a.isDigit = false := Bool.eq_false_iff.2 fun hd => by
      rw [not_isAlpha_of_isDigit hd] at hletter
      contradiction
    have hpoint : a ≠ '.' := by
      rintro rfl
      contradiction
    rw [hname, List.cons_append, numeral?_eq_none hdigit hpoint]
  | symbol listed =>
    have hsymbol := symbol?_append listed ((stops_symbol listed).1 hx)
    obtain ⟨a, as, rfl⟩ := List.exists_cons_of_ne_nil (symbol_ne_nil listed)
    obtain ⟨hdigit, hletter, hpoint, -⟩ := symbol_char listed List.mem_cons_self
    rw [hsymbol, List.cons_append, numeral?_eq_none hdigit hpoint, name?_eq_none hletter]

/-- **The longest lexeme.** `lexeme?` reads exactly the lexeme at the front of the text that the
next character does not make longer. -/
theorem lexeme?_eq_some_iff {t : Token} {cs x : List Char} :
    lexeme? cs = some (t, x) ↔ ∃ w, cs = w ++ x ∧ Lexeme t w ∧ Stops w x := by
  refine ⟨fun h => ?_, ?_⟩
  · unfold lexeme? at h
    split at h
    · next n rest hnum =>
      cases h
      obtain ⟨w, hw, written, hx⟩ := written_of_numeral? hnum
      exact ⟨w, hw, .number written, (stops_numeral written).2 hx⟩
    · split at h
      · next name rest hname =>
        cases h
        obtain ⟨w, hw, letters, some_letter, rfl, hx⟩ := letters_of_name? hname
        exact ⟨w, hw, .name letters some_letter, (stops_name letters some_letter).2 hx⟩
      · obtain ⟨w, hw, listed, hx⟩ := listed_of_symbol? h
        exact ⟨w, hw, .symbol listed, (stops_symbol listed).2 hx⟩
  · rintro ⟨w, rfl, h, hx⟩
    exact lexeme?_append h hx

end DeskCalc
