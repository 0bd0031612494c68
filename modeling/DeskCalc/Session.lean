import DeskCalc.Calculation
import DeskCalc.History
import DeskCalc.Keypad
import DeskCalc.Metrics
import DeskCalc.Settings

/-!
# Calculator sessions

A session is a display with its history, a memory register and an answer register. On a desk it goes
with a registry in which its calculations are counted. `Desk.press` takes one text from the user to
the next desk, and `Session.press` is what that makes of the session alone.

A failed evaluation shows the error marker. The marker is no text to work on: the next edit starts
from an empty display, and evaluating it or storing it does nothing. Undo and redo move the
display alone; the registers stay as they are.
-/

namespace DeskCalc

/-- What the display shows. -/
structure Display where
  text : String := ""
  isError : Bool := false
  deriving DecidableEq, Repr

/-- A calculator in use. -/
structure Session where
  settings : SessionSettings
  history : History Display
  memory : Float
  answer : Float

namespace Session

/-- A new session: an empty display, and zero in both registers. -/
def start (settings : SessionSettings) : Session :=
  { settings, history := .start {}, memory := 0, answer := 0 }

/-- How many displays undo can restore: at least the latest one. -/
def limit (s : Session) : Nat := max s.settings.historyLimit 1

/-- What the display shows. -/
def display (s : Session) : Display := s.history.present

/-! ## Edits -/

/-- Shows something new. -/
def replace (s : Session) (d : Display) : Session :=
  { s with history := s.history.change s.limit d }

/-- Shows a text that is no error. -/
def edit (s : Session) (text : String) : Session := s.replace ⟨text, false⟩

/-- The text that an edit starts from: what is shown, or nothing in place of the error marker. -/
def editable (s : Session) : String := if s.display.isError then "" else s.display.text

/-- Adds a text at the end. -/
def append (s : Session) (text : String) : Session := s.edit (s.editable ++ text)

/-- Removes the last character. -/
def clearEntry (s : Session) : Session := s.edit (String.ofList s.editable.toList.dropLast)

/-- Removes the minus at the front, or puts one there. -/
def negate (s : Session) : Session :=
  match s.editable.toList with
  | '-' :: rest => s.edit (String.ofList rest)
  | cs => s.edit (String.ofList ('-' :: cs))

/-! ## Registers -/

/-- Combines the memory with the number shown, if a plain number is shown. -/
def updateMemory (s : Session) (combine : Float → Float → Float) : Session :=
  if s.display.isError then s
  else
    match plainNumber s.display.text with
    | some x => { s with memory := combine s.memory x }
    | none => s

/-! ## Results -/

/-- The result of a calculation, with a function applied to it if there is one. -/
def applyAfter (f : Option Function) (result : Except CalcError Float) : Except CalcError Float :=
  match f with
  | none => result
  | some f => result.bind fun x => (f.apply [x]).mapError CalcError.domain

/-- Shows a result and keeps it as the answer, or shows the error marker. -/
def settle (s : Session) : Except CalcError Float → Session
  | .ok x => { s with answer := x }.edit (formatNumber x)
  | .error _ => s.replace ⟨s.settings.errorMarker, true⟩

end Session

/-! ## Keys -/

/-- The label under which calculations are counted. -/
def calculationLabel : Label := ⟨"engine", "evaluate"⟩

/-- A session in use, and the registry that its calculations are counted in. -/
structure Desk where
  session : Session
  counts : Registry := {}

namespace Desk

/-- Changes the session and leaves the counts alone. -/
def update (d : Desk) (change : Session → Session) : Desk := { d with session := change d.session }

/-- Evaluates the text shown, if it is no error, and applies a function to the result if there is
one. The calculation is measured, the function is applied behind that. -/
def evaluate (d : Desk) (f : Option Function) : Desk :=
  if d.session.display.isError then d
  else
    let (result, counts) :=
      d.counts.measure calculationLabel fun _ => calculate d.session.display.text
    { session := d.session.settle (Session.applyAfter f result), counts }

/-- The desk after a button. -/
def pressButton (d : Desk) : Button → Desk
  | .clear => d.update fun s => s.edit ""
  | .clearEntry => d.update Session.clearEntry
  | .evaluate => d.evaluate none
  | .answer => d.update fun s => s.append (formatNumber s.answer)
  | .memoryStore => d.update fun s => s.updateMemory fun _ x => x
  | .memoryAdd => d.update fun s => s.updateMemory fun m x => m + x
  | .memorySubtract => d.update fun s => s.updateMemory fun m x => m - x
  | .negate => d.update Session.negate
  | .undo => d.update fun s => { s with history := s.history.undo }
  | .redo => d.update fun s => { s with history := s.history.redo s.limit }

/-- The desk after a key. -/
def pressKey (d : Desk) : Key → Desk
  | .button b => d.pressButton b
  | .constant c => d.update fun s => s.append (formatNumber c.value)
  | .function f => d.evaluate (some f)
  | .text text => d.update fun s => s.append text

/-- The desk after the key that a text stands for. -/
def press (d : Desk) (text : String) : Desk := d.pressKey (.ofText text)

/-- The desk after some presses, in order. -/
def run (d : Desk) (texts : List String) : Desk := texts.foldl press d

end Desk

/-! ## Sessions without counts

No count is looked at by a press, so what it makes of a session can be read off any desk. -/

namespace Session

/-- What an evaluation makes of the session. -/
def evaluate (s : Session) (f : Option Function) : Session := (Desk.evaluate { session := s } f).session

/-- What a key makes of the session. -/
def pressKey (s : Session) (k : Key) : Session := (Desk.pressKey { session := s } k).session

/-- What the key that a text stands for makes of the session. -/
def press (s : Session) (text : String) : Session := s.pressKey (.ofText text)

/-- The session after some presses, in order. -/
def run (s : Session) (texts : List String) : Session := texts.foldl press s

end Session

namespace Desk

/-- The session does not depend on the counts. -/
theorem session_evaluate (d : Desk) (f : Option Function) :
    (d.evaluate f).session = d.session.evaluate f := by
  unfold Session.evaluate evaluate
  dsimp only
  split <;> rfl

theorem session_pressKey (d : Desk) (k : Key) :
    (d.pressKey k).session = d.session.pressKey k := by
  cases k with
  | button b =>
    cases b with
    | evaluate => exact d.session_evaluate none
    | _ => rfl
  | function f => exact d.session_evaluate (some f)
  | constant c => rfl
  | text text => rfl

theorem session_press (d : Desk) (text : String) :
    (d.press text).session = d.session.press text := d.session_pressKey _

/-- A run on a desk is a run of its session. -/
theorem session_run (d : Desk) (texts : List String) :
    (d.run texts).session = d.session.run texts := by
  induction texts generalizing d with
  | nil => rfl
  | cons text rest ih =>
    show ((d.press text).run rest).session = (d.session.press text).run rest
    rw [ih, session_press]

end Desk

end DeskCalc
