import DeskCalc.Token.Scan
import DeskCalc.Expr.Descent
import DeskCalc.Expr.Evaluate

/-!
# Calculations

`calculate` takes a text through all stages: tokens, expression, value. `plainNumber` reads the
simplest texts, a number behind at most one sign, without the later stages.
-/

namespace DeskCalc

/-- The value of the expression that a text spells. -/
def calculate (s : String) : Except CalcError Float := do
  let tokens ← (tokenize s).mapError CalcError.lex
  let tree ← (parse tokens).mapError CalcError.grammar
  tree.evaluate.mapError CalcError.domain

/-- The value of tokens that are one number behind at most one sign. -/
def plainValue? : List Token → Option Float
  | [.number x] => some x
  | [.operator .add, .number x] => some x
  | [.operator .sub, .number x] => some (-x)
  | _ => none

/-- The value of a text that is one finite number behind at most one sign. -/
def plainNumber (s : String) : Option Float :=
  match tokenize s with
  | .ok tokens => (plainValue? tokens).filter fun x => x.isFinite
  | .error _ => none

end DeskCalc
