import DeskCalc.Calculation

/-!
# The stages of a calculation

`Calculated s r` says at which stage the calculation of a text ends, and with which result: no
tokens, no expression, no value, or a value. Facts about `calculate` go through its cases
(`calculated`) and its constructors (`Calculated.eq`).

`of_bind_eq_ok` and `of_bind_eq_error` do the same for two steps of an evaluation.
-/

namespace DeskCalc

/-! ## Two steps -/

section Steps

variable {ε α β : Type} {x : Except ε α} {f : α → Except ε β}

theorem of_bind_eq_ok {b : β} (h : (x >>= f) = .ok b) : ∃ a, x = .ok a ∧ f a = .ok b := by
  cases x with
  | error e => cases h
  | ok a => exact ⟨a, rfl, h⟩

theorem of_bind_eq_error {e : ε} (h : (x >>= f) = .error e) :
    x = .error e ∨ ∃ a, x = .ok a ∧ f a = .error e := by
  cases x with
  | error e' =>
    cases h
    exact .inl rfl
  | ok a => exact .inr ⟨a, rfl, h⟩

end Steps

/-! ## A whole calculation -/

/-- How a calculation ends. -/
inductive Calculated (s : String) : Except CalcError Float → Prop
  | noTokens {e : LexError} : tokenize s = .error e → Calculated s (.error (.lex e))
  | noExpression {tokens : List Token} {e : SyntaxError} : tokenize s = .ok tokens →
      parse tokens = .error e → Calculated s (.error (.grammar e))
  | noValue {tokens : List Token} {t : Expr} {e : DomainError} : tokenize s = .ok tokens →
      parse tokens = .ok t → t.evaluate = .error e → Calculated s (.error (.domain e))
  | value {tokens : List Token} {t : Expr} {x : Float} : tokenize s = .ok tokens →
      parse tokens = .ok t → t.evaluate = .ok x → Calculated s (.ok x)

theorem calculated (s : String) : Calculated s (calculate s) := by
  unfold calculate
  cases htokens : tokenize s with
  | error e => exact .noTokens htokens
  | ok tokens =>
    show Calculated s ((parse tokens).mapError CalcError.grammar >>= _)
    cases hparse : parse tokens with
    | error e => exact .noExpression htokens hparse
    | ok t =>
      show Calculated s (t.evaluate.mapError CalcError.domain)
      cases hvalue : t.evaluate with
      | error e => exact .noValue htokens hparse hvalue
      | ok x => exact .value htokens hparse hvalue

/-- A calculation sees only the tokens. -/
theorem calculate_congr {s s' : String} (h : tokenize s = tokenize s') :
    calculate s = calculate s' := by
  unfold calculate
  rw [h]

/-- A calculation with a result went through all stages. -/
theorem stages_of_calculate {s : String} {x : Float} (h : calculate s = .ok x) :
    ∃ tokens t, tokenize s = .ok tokens ∧ parse tokens = .ok t ∧ t.evaluate = .ok x := by
  have hs := calculated s
  rw [h] at hs
  cases hs with
  | value htokens hparse hvalue => exact ⟨_, _, htokens, hparse, hvalue⟩

/-- A calculation ends in one way only. -/
theorem Calculated.eq {s : String} {r : Except CalcError Float} (h : Calculated s r) :
    calculate s = r := by
  unfold calculate
  cases h with
  | noTokens htokens =>
    rw [htokens]
    rfl
  | noExpression htokens hparse =>
    rw [htokens]
    show (parse _).mapError CalcError.grammar >>= _ = _
    rw [hparse]
    rfl
  | noValue htokens hparse hvalue | value htokens hparse hvalue =>
    rw [htokens]
    show (parse _).mapError CalcError.grammar >>= _ = _
    rw [hparse]
    show (Expr.evaluate _).mapError CalcError.domain = _
    rw [hvalue]
    rfl

end DeskCalc
