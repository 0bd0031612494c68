/-!
# Settings

What can be set: two things about a session, and how the console writes the display.
-/

namespace DeskCalc

/-- The settings of a session. -/
structure SessionSettings where
  /-- What the display shows when an evaluation fails. -/
  errorMarker : String := "Error"
  /-- How many displays undo can restore. A session takes no less than one. -/
  historyLimit : Nat := 100
  deriving DecidableEq, Repr

/-- How the console writes a display. -/
inductive OutputFormat where
  | plain
  | json
  deriving DecidableEq, Repr

/-- The name of a format. -/
def OutputFormat.name : OutputFormat → String
  | plain => "plain"
  | json => "json"

/-- The settings of the console. -/
structure ConsoleSettings where
  output : OutputFormat := .plain
  session : SessionSettings := {}
  deriving DecidableEq, Repr

end DeskCalc
