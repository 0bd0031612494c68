import DeskCalc.Token

/-!
# Expressions

Expression trees over the two constants, the signs, the binary operators and the seven functions.
A tree can hold a call with any number of arguments; only calls with one have a value.
`Expr.polish` lists a tree in reverse Polish order, operands before their operation.
-/

namespace DeskCalc

/-- The named constants. -/
inductive Constant where
  | pi
  | e
  deriving DecidableEq, Repr

namespace Constant

/-- The name of a constant. -/
def name : Constant → String
  | pi => "pi"
  | e => "e"

/-- The constant of a name. -/
def ofName? (s : String) : Option Constant :=
  [pi, e].find? fun c => c.name == s

/-- The double nearest to the constant. -/
def value : Constant → Float
  | pi => Float.ofBits 0x400921FB54442D18
  | e => Float.ofBits 0x4005BF0A8B145769

end Constant

/-- The functions. -/
inductive Function where
  | sin
  | cos
  | tan
  | log
  | sqrt
  | exp
  | abs
  deriving DecidableEq, Repr

namespace Function

/-- The name of a function. -/
def name : Function → String
  | sin => "sin"
  | cos => "cos"
  | tan => "tan"
  | log => "log"
  | sqrt => "sqrt"
  | exp => "exp"
  | abs => "abs"

/-- The function of a name. -/
def ofName? (s : String) : Option Function :=
  [sin, cos, tan, log, sqrt, exp, abs].find? fun f => f.name == s

/-- How many arguments a function takes. -/
def arity (_ : Function) : Nat := 1

end Function

/-- The signs that stand before an operand. -/
inductive Sign where
  | minus
  | plus
  deriving DecidableEq, Repr

/-- An expression tree. -/
inductive Expr where
  | literal (value : Float)
  | constant (c : Constant)
  | signed (sign : Sign) (operand : Expr)
  | binary (op : Operator) (left right : Expr)
  | call (f : Function) (args : List Expr)

/-- One item of a reverse Polish listing. A call says how many of the items before it it takes. -/
inductive Polish where
  | literal (value : Float)
  | constant (c : Constant)
  | sign (sign : Sign)
  | operator (op : Operator)
  | call (f : Function) (count : Nat)
  deriving DecidableEq

namespace Expr

mutual

/-- The reverse Polish listing of a tree: operands left to right, then their operation. -/
def polish : Expr → List Polish
  | literal value => [.literal value]
  | constant c => [.constant c]
  | signed sign operand => operand.polish ++ [.sign sign]
  | binary op left right => left.polish ++ (right.polish ++ [.operator op])
  | call f args => polishAll args ++ [.call f args.length]

/-- The listings of some trees, one after the other. -/
def polishAll : List Expr → List Polish
  | [] => []
  | a :: rest => a.polish ++ polishAll rest

end

end Expr

/-- The tree that a reverse Polish listing describes, read onto a stack of the trees completed so
far, the latest on top. -/
def Polish.buildOnto? (stack : List Expr) : List Polish → Option (List Expr)
  | [] => some stack
  | .literal value :: rest => buildOnto? (.literal value :: stack) rest
  | .constant c :: rest => buildOnto? (.constant c :: stack) rest
  | .sign s :: rest =>
    match stack with
    | operand :: below => buildOnto? (.signed s operand :: below) rest
    | [] => none
  | .operator op :: rest =>
    match stack with
    | right :: left :: below => buildOnto? (.binary op left right :: below) rest
    | _ => none
  | .call f count :: rest =>
    if count ≤ stack.length then
      buildOnto? (.call f (stack.take count).reverse :: stack.drop count) rest
    else none

/-- The tree that a reverse Polish listing describes. -/
def Expr.ofPolish? (items : List Polish) : Option Expr :=
  match Polish.buildOnto? [] items with
  | some [tree] => some tree
  | _ => none

end DeskCalc
