import DeskCalc.Proofs.Scanning

/-!
# What tokenizing accepts

**Theorem (`tokenize_iff_passed`).** A text is accepted exactly if it is a row of lexemes between
blanks in which each lexeme, from the left, is the longest at its place; the tokens are those of the
lexemes. Any other text is rejected at the first place where no lexeme begins: the error tells the
bytes before that place and the character there, and the text before it is accepted.

`Passed rest p tokens` is the row of lexemes up to such a place: `rest` is what stands behind it,
and each lexeme is the longest of the text with `rest` included. Every text splits into a passed
part and a rest that is empty or stuck (`exists_passed`), and `scan` finds this split
(`Passed.scan_eq`).

The scanner itself only looks one character ahead. That this finds the longest lexeme is
`longest_iff_stops`: a lexeme can be grown to a longest one character by character
(`exists_stops`), and there is only one that cannot be grown, the one `lexeme?` reads.
-/

namespace DeskCalc

/-! ## The longest lexeme at the front of a text -/

/-- The lexeme `w` in front of `x` is the longest lexeme with which `w ++ x` begins. -/
structure Longest (t : Token) (w x : List Char) : Prop where
  lexeme : Lexeme t w
  length_le : ∀ t' w', Lexeme t' w' → w' <+: w ++ x → w'.length ≤ w.length

variable {t : Token} {w x cs : List Char}

theorem stops_nil (w : List Char) : Stops w [] := nofun

/-- A lexeme can be grown into the text behind it until no character makes it longer. -/
theorem exists_stops (h : Lexeme t w) (x : List Char) :
    ∃ (t' : Token) (u y : List Char), x = u ++ y ∧ Lexeme t' (w ++ u) ∧ Stops (w ++ u) y := by
  induction x generalizing t w with
  | nil => exact ⟨t, [], [], rfl, by rwa [List.append_nil], stops_nil _⟩
  | cons c x ih =>
    by_cases hlonger : ∃ t', Lexeme t' (w ++ [c])
    · obtain ⟨t', h'⟩ := hlonger
      obtain ⟨t'', u, y, hx, hlex, hstops⟩ := ih h'
      rw [List.append_assoc, List.singleton_append] at hlex hstops
      exact ⟨t'', c :: u, y, by rw [hx, List.cons_append], hlex, hstops⟩
    · refine ⟨t, [], c :: x, rfl, by rwa [List.append_nil], ?_⟩
      rw [List.append_nil]
      rintro c' t' ⟨⟩ h'
      exact hlonger ⟨t', h'⟩

/-- Looking one character ahead finds the longest lexeme. -/
theorem longest_iff_stops : Longest t w x ↔ Lexeme t w ∧ Stops w x := by
  constructor
  · rintro ⟨h, hmax⟩
    refine ⟨h, fun c t' hc hlonger => ?_⟩
    obtain ⟨y, rfl⟩ := List.head?_eq_some_iff.1 hc
    have hle := hmax t' (w ++ [c]) hlonger ⟨y, by simp⟩
    simp at hle
  · rintro ⟨h, hstops⟩
    refine ⟨h, fun t' w' h' hprefix => ?_⟩
    obtain ⟨y, hy⟩ := hprefix
    obtain ⟨t'', u, z, rfl, hlex, hstops'⟩ := exists_stops h' y
    rw [← List.append_assoc] at hy
    -- Both are what `lexeme?` reads, so the same text is left behind them.
    have hread := lexeme?_append h hstops
    rw [← hy, lexeme?_append hlex hstops'] at hread
    obtain ⟨-, rfl⟩ := Prod.mk.inj (Option.some.inj hread)
    have hlen := congrArg List.length hy
    simp only [List.length_append] at hlen
    omega

/-- A text is stuck at its first character if that is not blank and no lexeme begins there. -/
structure Stuck (c : Char) (rest : List Char) : Prop where
  not_blank : isBlank c = false
  no_lexeme : ∀ t w, Lexeme t w → ¬ w <+: c :: rest

theorem lexeme?_eq_none_iff : lexeme? cs = none ↔ ∀ t w, Lexeme t w → ¬ w <+: cs := by
  constructor
  · rintro hnone t w h ⟨x, rfl⟩
    obtain ⟨t', u, y, rfl, hlex, hstops⟩ := exists_stops h x
    rw [← List.append_assoc, lexeme?_append hlex hstops] at hnone
    cases hnone
  · intro hno
    cases hread : lexeme? cs with
    | none => rfl
    | some r =>
      obtain ⟨w, rfl, h, -⟩ := lexeme?_eq_some_iff.1 hread
      exact absurd ⟨r.2, rfl⟩ (hno r.1 w h)

/-! ## The part of a text that is read -/

/-- The characters `p`, with `rest` behind them, are blanks and the lexemes of `tokens`, each the
longest at its place. -/
inductive Passed (rest : List Char) : List Char → List Token → Prop
  | nil : Passed rest [] []
  | blank {c : Char} {p : List Char} {tokens : List Token} (hc : isBlank c = true)
      (h : Passed rest p tokens) : Passed rest (c :: p) tokens
  | lexeme {t : Token} {w p : List Char} {tokens : List Token} (hw : Longest t w (p ++ rest))
      (h : Passed rest p tokens) : Passed rest (w ++ p) (t :: tokens)

namespace Passed

variable {rest p : List Char} {tokens : List Token}

/-- The scan gives the tokens that are passed and goes on with the rest. -/
theorem scan_eq (h : Passed rest p tokens) :
    scan (p ++ rest) = (tokens ++ (scan rest).1, (scan rest).2) := by
  induction h with
  | nil => rfl
  | blank hc _ ih => rw [List.cons_append, scan_cons_blank hc, ih]
  | lexeme hw _ ih =>
    obtain ⟨hlex, hstops⟩ := longest_iff_stops.1 hw
    rw [List.append_assoc, scan_lexeme hlex hstops, ih, List.cons_append]

/-- What is passed in front of a rest is read to its end by itself. -/
theorem scans (h : Passed rest p tokens) : Scans p tokens := by
  induction h with
  | nil => exact .nil
  | blank hc _ ih => exact .blank hc ih
  | @lexeme t w p tokens hw _ ih =>
    obtain ⟨hlex, hstops⟩ := longest_iff_stops.1 hw
    refine .lexeme hlex (fun c t' hc => hstops c t' ?_) ih
    obtain ⟨after, rfl⟩ := List.head?_eq_some_iff.1 hc
    rfl

end Passed

/-- Every text is passed up to its end or to a place where it is stuck. -/
theorem exists_passed (cs : List Char) :
    ∃ (p rest : List Char) (tokens : List Token), cs = p ++ rest ∧ Passed rest p tokens ∧
      ∀ c after, rest = c :: after → Stuck c after := by
  -- By induction on the length: a lexeme can be of more than one character.
  induction hn : cs.length using Nat.strongRecOn generalizing cs with
  | ind n ih =>
    subst hn
    cases front cs with
    | nil => exact ⟨[], [], [], rfl, .nil, nofun⟩
    | @blank c cs hc =>
      obtain ⟨p, rest, tokens, rfl, h, hrest⟩ := ih _ (by simp) cs rfl
      exact ⟨c :: p, rest, tokens, rfl, .blank hc h, hrest⟩
    | @lexeme t w x hw hx =>
      have hshort : x.length < (w ++ x).length := by
        have := List.length_pos_iff.2 hw.ne_nil
        rw [List.length_append]
        omega
      obtain ⟨p, rest, tokens, rfl, h, hrest⟩ := ih _ hshort x rfl
      have hlongest := longest_iff_stops.2 ⟨hw, hx⟩
      exact ⟨w ++ p, rest, t :: tokens, (List.append_assoc ..).symm, .lexeme hlongest h, hrest⟩
    | @stuck c cs hc read =>
      refine ⟨[], c :: cs, [], rfl, .nil, ?_⟩
      rintro c after ⟨⟩
      exact ⟨hc, lexeme?_eq_none_iff.1 read⟩

/-! ## Offsets in bytes -/

theorem byteLength_append (a b : List Char) :
    byteLength (a ++ b) = byteLength a + byteLength b := by
  induction a with
  | nil => exact (Nat.zero_add _).symm
  | cons c a ih =>
    show c.utf8Size + byteLength (a ++ b) = c.utf8Size + byteLength a + byteLength b
    rw [ih, Nat.add_assoc]

theorem byteLength_toList (s : String) : byteLength s.toList = s.utf8ByteSize := by
  have hlist (cs : List Char) : byteLength cs = (String.ofList cs).utf8ByteSize := by
    induction cs with
    | nil => rfl
    | cons c cs ih =>
      have hcons : String.ofList (c :: cs) = String.singleton c ++ String.ofList cs := by simp
      rw [hcons, String.utf8ByteSize_append, String.utf8ByteSize_singleton, ← ih]
      rfl
  rw [hlist, String.ofList_toList]

/-! ## The whole text -/

theorem toList_around (p q : String) (c : Char) :
    (p ++ String.singleton c ++ q).toList = p.toList ++ (c :: q.toList) := by simp

theorem tokenize_of_passed {s : String} {tokens : List Token} (h : Passed [] s.toList tokens) :
    tokenize s = .ok tokens :=
  tokenize_eq_ok_iff.2 h.scans

theorem tokenize_of_stuck {p q : String} {c : Char} {tokens : List Token}
    (h : Passed (c :: q.toList) p.toList tokens) (hc : Stuck c q.toList) :
    tokenize (p ++ String.singleton c ++ q) = .error ⟨p.utf8ByteSize, c⟩ := by
  have hstuck := scan_cons_stuck hc.not_blank (lexeme?_eq_none_iff.2 hc.no_lexeme)
  have hscan := h.scan_eq
  rw [hstuck, ← toList_around] at hscan
  unfold tokenize
  rw [hscan]
  show Except.error (LexError.mk (byteLength _ - byteLength (c :: q.toList)) c) = _
  rw [toList_around, byteLength_append, Nat.add_sub_cancel, byteLength_toList]

theorem passed_or_stuck (s : String) :
    (∃ tokens, Passed [] s.toList tokens) ∨
    ∃ (p q : String) (c : Char) (tokens : List Token), s = p ++ String.singleton c ++ q ∧
      Passed (c :: q.toList) p.toList tokens ∧ Stuck c q.toList := by
  obtain ⟨p, rest, tokens, hs, h, hrest⟩ := exists_passed s.toList
  cases rest with
  | nil =>
    rw [List.append_nil] at hs
    exact .inl ⟨tokens, hs ▸ h⟩
  | cons c after =>
    refine .inr ⟨String.ofList p, String.ofList after, c, tokens, ?_, ?_, ?_⟩
    · apply String.toList_inj.1
      simpa using hs
    · rwa [String.toList_ofList, String.toList_ofList]
    · rw [String.toList_ofList]
      exact hrest c after rfl

/-- **What tokenizing accepts.** The tokens of a text are those of its lexemes, each the longest at
its place, if blanks and lexemes are all there is. Otherwise the error tells the first place where
no lexeme begins, by the bytes before it, and the character that stands there and is not blank; the
text before it is accepted. -/
theorem tokenize_iff_passed (s : String) :
    (∀ tokens, tokenize s = .ok tokens ↔ Passed [] s.toList tokens) ∧
    ∀ position c, tokenize s = .error ⟨position, c⟩ ↔
      ∃ (p q : String) (tokens : List Token), s = p ++ String.singleton c ++ q ∧
        p.utf8ByteSize = position ∧ Passed (c :: q.toList) p.toList tokens ∧
        Stuck c q.toList ∧ tokenize p = .ok tokens := by
  constructor
  · intro tokens
    refine ⟨fun hok => ?_, tokenize_of_passed⟩
    rcases passed_or_stuck s with ⟨tokens', h⟩ | ⟨p, q, c, tokens', rfl, h, hc⟩
    · rw [tokenize_of_passed h] at hok
      cases hok
      exact h
    · rw [tokenize_of_stuck h hc] at hok
      cases hok
  · intro position c
    constructor
    · intro herror
      rcases passed_or_stuck s with ⟨tokens, h⟩ | ⟨p, q, c', tokens, rfl, h, hc⟩
      · rw [tokenize_of_passed h] at herror
        cases herror
      · rw [tokenize_of_stuck h hc] at herror
        cases herror
        exact ⟨p, q, tokens, rfl, rfl, h, hc, tokenize_eq_ok_iff.2 h.scans⟩
    · rintro ⟨p, q, tokens, rfl, rfl, h, hc, -⟩
      exact tokenize_of_stuck h hc

example : tokenize "5..5 é" = .error ⟨5, 'é'⟩ := by decide +kernel

end DeskCalc
