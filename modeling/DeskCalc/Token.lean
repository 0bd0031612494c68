import DeskCalc.Decimal.Layout

/-!
# Tokens

The words of the expression language: numbers, operators, names, brackets of three styles and the
comma. `Token.text` writes a token as messages show it.
-/

namespace DeskCalc

/-- The binary operators. -/
inductive Operator where
  | add
  | sub
  | mul
  | div
  | pow
  deriving DecidableEq, Repr

/-- The symbol of an operator. -/
def Operator.symbol : Operator → String
  | add => "+"
  | sub => "-"
  | mul => "*"
  | div => "/"
  | pow => "^"

/-- The styles of bracket. They group alike, but one style never closes another. -/
inductive Bracket where
  | round
  | square
  | curly
  deriving DecidableEq, Repr

namespace Bracket

/-- The character that opens a bracket. -/
def opener : Bracket → Char
  | round => '('
  | square => '['
  | curly => '\x7b'

/-- The character that closes a bracket. -/
def closer : Bracket → Char
  | round => ')'
  | square => ']'
  | curly => '\x7d'

end Bracket

/-- A token of the expression language. -/
inductive Token where
  | number (value : Float)
  | operator (op : Operator)
  | identifier (name : String)
  | opening (style : Bracket)
  | closing (style : Bracket)
  | comma
  deriving DecidableEq

/-- A token as messages show it. -/
def Token.text : Token → String
  | number value => numberText value
  | operator op => op.symbol
  | identifier name => name
  | opening style => String.singleton style.opener
  | closing style => String.singleton style.closer
  | comma => ","

end DeskCalc
