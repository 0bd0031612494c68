import DeskCalc.Keypad
import DeskCalc.Proofs.Grammar

/-!
# Keys and their texts

`Key.Labelled text k` says which texts are on which key: every key but `=` has one text of its own,
`=` is a second text of the key that evaluates, and all other texts stand for themselves.
`Key.labelled` is the inversion of `Key.ofText`; facts about the key of a text go through its cases.
-/

namespace DeskCalc

namespace Key

/-- The text is on the key, or is on no key and stands for itself. -/
inductive Labelled : String → Key → Prop
  | equals : Labelled "=" (.button .evaluate)
  | button (b : Button) : Labelled b.label (.button b)
  | constant (c : Constant) : Labelled c.name (.constant c)
  | function (f : Function) : Labelled f.name (.function f)
  | text (s : String) : Labelled s (.text s)

theorem labelled_button {text : String} {b : Button} (h : Button.ofText? text = some b) :
    Labelled text (.button b) := by
  unfold Button.ofText? at h
  split at h
  · next heq =>
    cases h
    rw [beq_iff_eq.1 heq]
    exact .equals
  · have hlabel := List.find?_some h
    rw [← beq_iff_eq.1 hlabel]
    exact .button b

/-- Every text is on its key. -/
theorem labelled (text : String) : Labelled text (ofText text) := by
  unfold ofText
  split
  · next hb => exact labelled_button hb
  · split
    · next hc =>
      rw [Constant.name_of_ofName? hc]
      exact .constant _
    · split
      · next hf =>
        rw [Function.name_of_ofName? hf]
        exact .function _
      · exact .text text

/-- Only its label presses a button, except for the one that evaluates. -/
theorem text_of_ofText {text : String} {b : Button} (h : ofText text = .button b)
    (hb : b ≠ .evaluate) : text = b.label := by
  have hl := labelled text
  rw [h] at hl
  cases hl with
  | equals => exact absurd rfl hb
  | button b => rfl

/-- No key has a bracket on it. -/
theorem ofText_of_opener {text : String} {s : Bracket} (h : s.opener ∈ text.toList) :
    ofText text = .text text := by
  have hl := labelled text
  generalize ofText text = k at hl
  cases hl with
  | text => rfl
  | equals => cases s <;> exact absurd h (by decide)
  | button b => cases s <;> cases b <;> exact absurd h (by decide)
  | constant c => cases s <;> cases c <;> exact absurd h (by decide)
  | function f => cases s <;> cases f <;> exact absurd h (by decide)

/-- Whether a key asks for the value of the display. -/
def evaluates : Key → Bool
  | button .evaluate => true
  | function _ => true
  | _ => false

/-- The texts of the keys that evaluate the display. -/
def evaluating : List String :=
  ["=", "EXE", "sin", "cos", "tan", "log", "sqrt", "exp", "abs"]

theorem evaluates_ofText_iff (text : String) :
    (ofText text).evaluates = true ↔ text ∈ evaluating := by
  constructor
  · intro h
    have hl := labelled text
    generalize ofText text = k at hl h
    cases hl with
    | equals => decide
    | button b =>
      cases b <;> first | decide | exact nomatch h
    | function f => cases f <;> decide
    | constant c => exact nomatch h
    | text => exact nomatch h
  · intro h
    have hall : ∀ t ∈ evaluating, (ofText t).evaluates = true := by decide
    exact hall text h

end Key

end DeskCalc
