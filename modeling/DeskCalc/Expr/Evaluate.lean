import DeskCalc.Error

/-!
# The value of an expression

Every step yields a finite real number or a domain error. `Expr.evaluate` takes the operands left
to right before their operation and stops at the first failure.
-/

namespace DeskCalc

/-- The value itself if it is a finite real number. -/
def real (x : Float) : Except DomainError Float :=
  if x.isNaN then .error .notANumber
  else if x.isInf then .error .overflow
  else .ok x

/-- The result of an operator. Division by either zero fails before anything else. -/
def Operator.apply (op : Operator) (l r : Float) : Except DomainError Float :=
  match op with
  | add => real (l + r)
  | sub => real (l - r)
  | mul => real (l * r)
  | div => if r == 0 then .error .divisionByZero else real (l / r)
  | pow => real (l.pow r)

/-- The result of a sign, which never fails. -/
def Sign.apply (sign : Sign) (x : Float) : Float :=
  match sign with
  | minus => -x
  | plus => x

/-- An angle given in degrees, in radians. -/
def radians (x : Float) : Float := x * (Constant.pi.value / 180)

namespace Function

/-- The result of a function of one argument. -/
def applyOne (f : Function) (x : Float) : Except DomainError Float :=
  match f with
  | sin => real (radians x).sin
  | cos => real (radians x).cos
  | tan => real (radians x).tan
  | log => if x ≤ 0 then .error (.nonPositiveLog x) else real x.log10
  | sqrt => if x < 0 then .error (.negativeSqrt x) else real x.sqrt
  | exp => real x.exp
  | abs => real x.abs

/-- The result of a function, which takes exactly one argument. -/
def apply (f : Function) (args : List Float) : Except DomainError Float :=
  match args with
  | [x] => f.applyOne x
  | _ => .error (.arity f f.arity args.length)

end Function

namespace Expr

mutual

/-- The value of an expression. -/
def evaluate : Expr → Except DomainError Float
  | literal value => real value
  | constant c => .ok c.value
  | signed sign operand => do
    let x ← operand.evaluate
    return sign.apply x
  | binary op left right => do
    let l ← left.evaluate
    let r ← right.evaluate
    op.apply l r
  | call f args => do
    let values ← evaluateAll args
    f.apply values

/-- The values of some expressions, taken left to right. -/
def evaluateAll : List Expr → Except DomainError (List Float)
  | [] => return []
  | a :: rest => do
    let x ← a.evaluate
    let xs ← evaluateAll rest
    return x :: xs

end

/-- A call of one argument applies the function to the argument's value. -/
theorem evaluate_call_one (f : Function) (t : Expr) :
    (call f [t]).evaluate = t.evaluate >>= fun x => f.apply [x] := by
  rw [evaluate, evaluateAll, evaluateAll]
  cases t.evaluate <;> rfl

end Expr

end DeskCalc
