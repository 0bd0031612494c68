import DeskCalc.Error

/-!
# From tokens to an expression

The grammar, one function for each level:

* a sum is products joined by `+` and `-`, grouped to the left;
* a product is powers joined by `*` and `/`, grouped to the left;
* a power is a signed operand, or one raised to a power, so it groups to the right;
* a signed operand is an atom behind any number of signs, which bind tighter than `^`;
* an atom is a number, a constant, a function with its bracketed argument, or a sum in brackets.

A `Cursor` walks the tokens, knows which brackets are open, and counts how deep it is and how many
operations it has met. `maxDepth` and `maxNodes` bound these two, so no input can exhaust the
stack: the functions nest at most `7 * (maxDepth + 1)` deep, and that number is the fuel of the
recursion. A reading that ran out of fuel, came back from a level it never entered or closed a
bracket that is not open would be `stuck`, apart from all errors of syntax; none ever is.
-/

namespace DeskCalc

/-- How deep groups, argument lists, operands of a sign and exponents may nest. -/
def maxDepth : Nat := 256

/-- How many operators, signs and calls an expression may hold. -/
def maxNodes : Nat := 1024

/-- Where the reading of an expression stands. -/
structure Cursor where
  /-- The tokens not read yet. -/
  rest : List Token
  /-- How many tokens are read. -/
  position : Nat := 0
  /-- The styles of the open brackets, innermost first. -/
  opened : List Bracket := []
  /-- How many groups, argument lists, operands of a sign and exponents are open. -/
  depth : Nat := 0
  /-- How many operators, signs and calls are met so far. -/
  nodes : Nat := 0

/-- Why a reading stops before it has a result. -/
inductive Halt where
  /-- The tokens are no expression. -/
  | fault (error : SyntaxError)
  /-- The reading went wrong by itself. -/
  | stuck
  deriving DecidableEq

/-- A reading of tokens: it moves the cursor and gives a result, or it halts. -/
abbrev Descent := StateT Cursor (Except Halt)

namespace Descent

/-! ## Moves of the cursor -/

/-- Stops at a token, by its index. -/
def failAt {α : Type} (position : Nat) (cause : SyntaxCause) : Descent α :=
  throw (.fault ⟨position, cause⟩)

/-- Stops at the next token. -/
def fail {α : Type} (cause : SyntaxCause) : Descent α := do
  failAt (← get).position cause

/-- The next token, not read yet. -/
def peek? : Descent (Option Token) := do
  return (← get).rest.head?

/-- Reads the next token. -/
def advance : Descent Unit :=
  modify fun c => { c with rest := c.rest.tail, position := c.position + 1 }

/-- Stops because the next token, or the end, does not fit here. -/
def failUnexpected {α : Type} : Descent α := do
  match ← peek? with
  | some token => fail (.unexpectedToken token)
  | none => fail .unexpectedEnd

/-- Goes one level deeper. -/
def descend : Descent Unit := do
  modify fun c => { c with depth := c.depth + 1 }
  if maxDepth < (← get).depth then fail .tooDeep

/-- Comes back from a level. -/
def ascend : Descent Unit := do
  match (← get).depth with
  | 0 => throw .stuck
  | depth + 1 => modify fun c => { c with depth }

/-- Counts an operator, a sign or a call. -/
def countNode : Descent Unit := do
  modify fun c => { c with nodes := c.nodes + 1 }
  if maxNodes < (← get).nodes then fail .tooLarge

/-- Remembers an open bracket, one level deeper. -/
def enter (style : Bracket) : Descent Unit := do
  descend
  modify fun c => { c with opened := style :: c.opened }

/-- Reads the bracket that closes the innermost open one. -/
def close : Descent Unit := do
  match (← get).opened with
  | [] => throw .stuck
  | expected :: opened =>
    modify fun c => { c with opened := opened }
    match ← peek? with
    | some (.closing found) =>
      if found = expected then advance else fail (.mismatchedBracket expected found)
    | some _ => failUnexpected
    | none => fail (.unclosedBracket expected)

/-- Reads the bracket that closes the innermost open one and comes back from its level. -/
def leave : Descent Unit := do
  close
  ascend

/-- Reads the next token if it is one of some operators. -/
def operator? (accepted : List Operator) : Descent (Option Operator) := do
  match ← peek? with
  | some (.operator op) =>
    if op ∈ accepted then
      advance
      return some op
    else return none
  | _ => return none

/-- Reads `operator operand` as long as it comes, grouping to the left. Each round reads a token,
so no more rounds come than tokens were left when the first one began; these count the rounds. -/
def chain (accepted : List Operator) (operand : Descent Expr) : List Token → Expr → Descent Expr
  | [], left => return left
  | _ :: rounds, left => do
    match ← operator? accepted with
    | none => return left
    | some op =>
      countNode
      let right ← operand
      chain accepted operand rounds (.binary op left right)

/-- Reads `, argument` as long as it comes, after the arguments already `found`, latest first. The
tokens that were left when the first round began count the rounds. -/
def moreArguments (argument : Descent Expr) :
    List Token → List Expr → Descent (List Expr)
  | [], found => return found.reverse
  | _ :: rounds, found => do
    match ← peek? with
    | some .comma =>
      advance
      let next ← argument
      moreArguments argument rounds (next :: found)
    | _ => return found.reverse

/-! ## The levels of the grammar -/

mutual

/-- Reads a sum. -/
def sum : Nat → Descent Expr
  | 0 => throw .stuck
  | fuel + 1 => do
    let first ← product fuel
    chain [.add, .sub] (product fuel) (← get).rest first

/-- Reads a product. -/
def product : Nat → Descent Expr
  | 0 => throw .stuck
  | fuel + 1 => do
    let first ← power fuel
    chain [.mul, .div] (power fuel) (← get).rest first

/-- Reads a power. -/
def power : Nat → Descent Expr
  | 0 => throw .stuck
  | fuel + 1 => do
    let base ← signed fuel
    match ← operator? [.pow] with
    | none => return base
    | some op =>
      countNode
      descend
      let exponent ← power fuel
      ascend
      return .binary op base exponent

/-- Reads an atom behind any number of signs. -/
def signed : Nat → Descent Expr
  | 0 => throw .stuck
  | fuel + 1 => do
    match ← operator? [.sub, .add] with
    | none => atom fuel
    | some op =>
      countNode
      descend
      let operand ← signed fuel
      ascend
      return .signed (if op = .sub then .minus else .plus) operand

/-- Reads an atom. -/
def atom : Nat → Descent Expr
  | 0 => throw .stuck
  | fuel + 1 => do
    match ← peek? with
    | some (.number value) =>
      advance
      return .literal value
    | some (.identifier name) =>
      let start := (← get).position
      advance
      named fuel start name
    | some (.opening style) =>
      advance
      group fuel style
    | _ => failUnexpected

/-- Reads what follows the name at index `start`: nothing after a constant, an argument list after
a function. -/
def named : Nat → Nat → String → Descent Expr
  | 0, _, _ => throw .stuck
  | fuel + 1, start, name => do
    match Constant.ofName? name with
    | some constant => return .constant constant
    | none =>
      match Function.ofName? name with
      | none => failAt start (.unknownIdentifier name)
      | some f =>
        match ← peek? with
        | some (.opening style) =>
          advance
          countNode
          let args ← arguments fuel style
          if args.length = f.arity then return .call f args
          else failAt start (.arity f f.arity args.length)
        | _ => fail (.missingArguments f)

/-- Reads a sum and the bracket behind it, when the bracket before it is read. -/
def group : Nat → Bracket → Descent Expr
  | 0, _ => throw .stuck
  | fuel + 1, style => do
    enter style
    match ← peek? with
    | some (.closing _) =>
      let position := (← get).position
      close
      failAt position .emptyGroup
    | _ =>
      let inner ← sum fuel
      leave
      return inner

/-- Reads an argument list and the bracket behind it, when the bracket before it is read. -/
def arguments : Nat → Bracket → Descent (List Expr)
  | 0, _ => throw .stuck
  | fuel + 1, style => do
    enter style
    match ← peek? with
    | some (.closing _) =>
      leave
      return []
    | _ =>
      let first ← sum fuel
      let args ← moreArguments (sum fuel) (← get).rest [first]
      leave
      return args

end

end Descent

/-- How many calls of the grammar's functions can be open at once: seven from one level of nesting
to the next, and seven on the last. -/
def descentFuel : Nat := 7 * (maxDepth + 1)

/-- The expression that all the tokens together spell. No reading is stuck; if one were, it would
count as nested too deeply. -/
def parse (tokens : List Token) : Except SyntaxError Expr :=
  match (Descent.sum descentFuel).run { rest := tokens } with
  | .error (.fault error) => .error error
  | .error .stuck => .error ⟨0, .tooDeep⟩
  | .ok (tree, cursor) =>
    match cursor.rest with
    | [] => .ok tree
    | .closing style :: _ => .error ⟨cursor.position, .unmatchedBracket style⟩
    | _ => .error ⟨cursor.position, .trailingTokens⟩

end DeskCalc
