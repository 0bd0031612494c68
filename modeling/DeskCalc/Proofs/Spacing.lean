import DeskCalc.Proofs.Overflow
import DeskCalc.Proofs.RoundTrip
import DeskCalc.Proofs.Seams
import DeskCalc.Proofs.Stages

/-!
# Tokens written out again

**Theorem (`tokenize_spaced`).** The tokens of a text, each as messages show it and with single
spaces between them, are read back as the same tokens, if all of their numbers are finite. So the
text written in this way calculates to what the first text does.

The text of a token need not be the lexeme it was read from: `**` comes back as `^`, and a number
with its shortest digits. But it is a lexeme of that token (`Lexeme.ofText`), and the space behind
it ends it.
-/

namespace DeskCalc

/-- The texts of some tokens with a space between any two. -/
def Token.spaced (tokens : List Token) : String := " ".intercalate (tokens.map Token.text)

/-! ## The text of a token -/

/-- A numeral whose double is finite has a pattern below infinity. -/
theorem Numeral.exists_pattern {n : Numeral} (hfinite : n.toFloat.isFinite = true) :
    ∃ p < Binary64.infinity, n.toFloat = Binary64.toFloat p :=
  ⟨_, nearest_lt_infinity_iff.2 (isFinite_toFloat_iff.1 hfinite), rfl⟩

theorem numberText_toFloat {p : Nat} (hp : p < Binary64.infinity) :
    numberText (Binary64.toFloat p) = magnitudeText p := by
  rw [Binary64.toFloat_eq_ofParts hp, numberText, Binary64.isNaN_ofParts false hp,
    Binary64.signBit_ofParts false hp, Binary64.magnitude_ofParts false hp]
  rfl

/-- A token of some lexeme has its text as a lexeme, unless it is an infinite number. -/
theorem Lexeme.ofText {t : Token} {w : List Char} (h : Lexeme t w)
    (hfinite : ∀ x, t = .number x → x.isFinite = true) : Lexeme t t.text.toList := by
  cases h with
  | @number n w _ =>
    obtain ⟨p, hp, hvalue⟩ := Numeral.exists_pattern (hfinite _ rfl)
    obtain ⟨n', written, hread⟩ := magnitudeText_reads hp
    rw [Token.text, hvalue, numberText_toFloat hp, ← hread]
    exact .number written
  | name letters some_letter =>
    rw [Token.text, String.toList_ofList]
    exact .name letters some_letter
  | symbol listed =>
    have hall : ∀ p ∈ symbols, (p.2.text.toList, p.2) ∈ symbols := by decide
    exact .symbol (hall _ listed)

/-! ## The text of some tokens -/

theorem Scans.exists_lexeme {cs : List Char} {tokens : List Token} (h : Scans cs tokens) :
    ∀ t ∈ tokens, ∃ w, Lexeme t w := by
  induction h with
  | nil => nofun
  | blank _ _ ih => exact ih
  | lexeme hw _ _ ih => exact List.forall_mem_cons.2 ⟨⟨_, hw⟩, ih⟩

/-- Texts that are lexemes are read one by one, if spaces are between them. -/
theorem scans_spaced {tokens : List Token} (h : ∀ t ∈ tokens, Lexeme t t.text.toList) :
    Scans (Token.spaced tokens).toList tokens := by
  rw [Token.spaced, String.toList_intercalate, List.map_map]
  induction tokens with
  | nil => exact .nil
  | cons t tokens ih =>
    obtain ⟨hlex, hrest⟩ := List.forall_mem_cons.1 h
    cases tokens with
    | nil =>
      have hread := Scans.lexeme hlex (stops_nil _) .nil
      simpa using hread
    | cons t' tokens =>
      have hspace : isBlank ' ' = true := by decide
      have hread := Scans.lexeme hlex (stops_blank hspace _ _) (.blank hspace (ih hrest))
      simpa using hread

/-- **Writing tokens undoes reading them.** The tokens of a text, written with single spaces between
them, are read as the same tokens if their numbers are finite, and so calculate to the same. -/
theorem tokenize_spaced {s : String} {tokens : List Token} (h : tokenize s = .ok tokens)
    (hfinite : ∀ x, .number x ∈ tokens → x.isFinite = true) :
    tokenize (Token.spaced tokens) = .ok tokens ∧
      calculate (Token.spaced tokens) = calculate s := by
  have hlexemes : ∀ t ∈ tokens, Lexeme t t.text.toList := by
    intro t ht
    obtain ⟨w, hw⟩ := (tokenize_eq_ok_iff.1 h).exists_lexeme t ht
    refine hw.ofText ?_
    rintro x rfl
    exact hfinite x ht
  have hread := tokenize_eq_ok_iff.2 (scans_spaced hlexemes)
  exact ⟨hread, calculate_congr (hread.trans h.symm)⟩

/-- A power with two stars, a number that ends in a point and one that begins with one. -/
theorem tokenize_spaced_power :
    let tokens : List Token := [.number 5, .operator .pow, .opening .curly, .number 0.5,
      .closing .curly]
    tokenize "5.**\x7b.50\x7d" = .ok tokens ∧ (∀ x, .number x ∈ tokens → x.isFinite = true) ∧
      Token.spaced tokens = "5 ^ \x7b 0.5 \x7d" ∧
      tokenize (Token.spaced tokens) = .ok tokens ∧
      calculate (Token.spaced tokens) = calculate "5.**\x7b.50\x7d" := by
  intro tokens
  have hread : tokenize "5.**\x7b.50\x7d" = .ok tokens := by decide +kernel
  have hfinite : ∀ x, .number x ∈ tokens → x.isFinite = true := by
    intro x hx
    simp only [tokens, List.mem_cons, Token.number.injEq, List.not_mem_nil, reduceCtorEq, false_or,
      or_false] at hx
    rcases hx with rfl | rfl <;> decide +kernel
  have htext : Token.spaced tokens = "5 ^ \x7b 0.5 \x7d" := by decide +kernel
  exact ⟨hread, hfinite, htext, tokenize_spaced hread hfinite⟩

end DeskCalc
