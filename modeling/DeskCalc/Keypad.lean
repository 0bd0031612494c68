import DeskCalc.Expr

/-!
# Keys

What a calculator's user can press: a button of its own effect, a constant, a function, or any
text. `Key.ofText` tells which one a text is; names are matched exactly, in that order.
-/

namespace DeskCalc

/-- The buttons with an effect of their own. -/
inductive Button where
  | clear
  | clearEntry
  | evaluate
  | answer
  | memoryStore
  | memoryAdd
  | memorySubtract
  | negate
  | undo
  | redo
  deriving DecidableEq, Repr

namespace Button

/-- All buttons. -/
def all : List Button :=
  [clear, clearEntry, evaluate, answer, memoryStore, memoryAdd, memorySubtract, negate, undo, redo]

/-- What is printed on a button. -/
def label : Button → String
  | clear => "CLR"
  | clearEntry => "CE"
  | evaluate => "EXE"
  | answer => "ANS"
  | memoryStore => "M"
  | memoryAdd => "M+"
  | memorySubtract => "M-"
  | negate => "Neg"
  | undo => "Undo"
  | redo => "Redo"

/-- The button of a text: the one with that label, or for `=` the one that evaluates. -/
def ofText? (s : String) : Option Button :=
  if s == "=" then some evaluate else all.find? fun b => b.label == s

end Button

/-- What one press puts in. -/
inductive Key where
  | button (b : Button)
  | constant (c : Constant)
  | function (f : Function)
  | text (s : String)
  deriving DecidableEq

namespace Key

/-- The key that a text stands for. -/
def ofText (s : String) : Key :=
  match Button.ofText? s with
  | some b => button b
  | none =>
    match Constant.ofName? s with
    | some c => constant c
    | none =>
      match Function.ofName? s with
      | some f => function f
      | none => text s

end Key

end DeskCalc
