import DeskCalc.Expr
import DeskCalc.Text.QuotedChar

/-!
# What can go wrong in a calculation

Each failure is a cause with what it is about: a character that starts no token, a token where
the grammar has none, a step whose result is no real number. `message` words each in one line.
-/

namespace DeskCalc

/-- The text was left with a character that starts no token. -/
structure LexError where
  /-- The offset of the character, in bytes of UTF-8. -/
  position : Nat
  character : Char
  deriving DecidableEq, Repr

/-- The wording of a lexical error. -/
def LexError.message (error : LexError) : String :=
  "Unrecognised character " ++ quotedChar error.character ++ " at offset " ++ toString error.position

/-- Why tokens are no expression. -/
inductive SyntaxCause where
  | unexpectedEnd
  | unexpectedToken (token : Token)
  | mismatchedBracket (expected found : Bracket)
  | unclosedBracket (style : Bracket)
  | unmatchedBracket (style : Bracket)
  | emptyGroup
  | unknownIdentifier (name : String)
  | missingArguments (f : Function)
  | arity (f : Function) (expected found : Nat)
  | trailingTokens
  | tooDeep
  | tooLarge
  deriving DecidableEq

/-- The wording of a wrong number of arguments. -/
def arityMessage (f : Function) (expected found : Nat) : String :=
  f.name ++ " takes " ++ toString expected ++ " argument(s) but " ++ toString found
    ++ " were supplied"

/-- The wording of a cause. -/
def SyntaxCause.message : SyntaxCause → String
  | unexpectedEnd => "unexpected end of expression"
  | unexpectedToken token => "unexpected token \"" ++ token.text ++ "\""
  | mismatchedBracket expected found =>
    "expected \"" ++ String.singleton expected.closer ++ "\" but found \""
      ++ String.singleton found.closer ++ "\""
  | unclosedBracket style => "unclosed \"" ++ String.singleton style.opener ++ "\""
  | unmatchedBracket style => "unmatched \"" ++ String.singleton style.closer ++ "\""
  | emptyGroup => "empty grouping"
  | unknownIdentifier name => "unknown identifier \"" ++ name ++ "\""
  | missingArguments f => f.name ++ " requires a bracketed argument"
  | arity f expected found => arityMessage f expected found
  | trailingTokens => "unexpected tokens after expression"
  | tooDeep => "expression nested too deeply"
  | tooLarge => "expression too long"

/-- The tokens are no expression. -/
structure SyntaxError where
  /-- The index of the offending token, or the number of tokens if they ended early. -/
  position : Nat
  cause : SyntaxCause
  deriving DecidableEq

/-- The wording of a syntax error. -/
def SyntaxError.message (error : SyntaxError) : String :=
  "Syntax error at token " ++ toString error.position ++ ": " ++ error.cause.message

/-- A step has no finite real result. -/
inductive DomainError where
  | divisionByZero
  | negativeSqrt (operand : Float)
  | nonPositiveLog (operand : Float)
  | arity (f : Function) (expected found : Nat)
  | notANumber
  | overflow
  deriving DecidableEq

/-- The wording of a domain error. -/
def DomainError.message : DomainError → String
  | divisionByZero => "Division by zero"
  | negativeSqrt operand => "Square root of negative number " ++ numberText operand
  | nonPositiveLog operand => "Logarithm of non-positive number " ++ numberText operand
  | arity f expected found => arityMessage f expected found
  | notANumber => "Result is not a real number"
  | overflow => "Result out of range"

/-- A calculation failed, at one of its three stages. -/
inductive CalcError where
  | lex (error : LexError)
  | grammar (error : SyntaxError)
  | domain (error : DomainError)
  deriving DecidableEq

/-- The wording of a failed calculation. -/
def CalcError.message : CalcError → String
  | lex error => error.message
  | grammar error => error.message
  | domain error => error.message

end DeskCalc
