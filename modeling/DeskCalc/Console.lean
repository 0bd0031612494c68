import DeskCalc.Session
import DeskCalc.Text.JsonString

/-!
# The console

The console reads lines. A line of words presses a key for each word and then writes the display;
a line that begins with a colon is a command; a blank line does nothing. Lines are read one at a
time, so what follows the end of a run, be it `:quit` or a line that is no UTF-8, is never looked
at, and what was written before it stays.

The console works on a desk: `:memory` reports the registers of its session, and `:metrics` its
counts, by an `Exposition` that is up to the caller.
-/

namespace DeskCalc

/-! ## Lines -/

/-- The lines of some bytes, after the start of a line, last byte first. Line feeds end lines, and
the last line need not be ended. -/
def linesFrom (current : List UInt8) : List UInt8 → List (List UInt8)
  | [] => if current.isEmpty then [] else [current.reverse]
  | b :: bytes =>
    if b = 10 then current.reverse :: linesFrom [] bytes else linesFrom (b :: current) bytes

/-- The lines of some bytes. -/
def lines (bytes : List UInt8) : List (List UInt8) := linesFrom [] bytes

/-- What a line asks for. -/
inductive Command where
  | nothing
  | quit
  | registers
  | metrics
  | unknown (text : String)
  | press (texts : List String)
  deriving DecidableEq, Repr

/-- What a line asks for, by its text without the blanks at either end. -/
def Command.ofLine (line : String) : Command :=
  match trim line.toList with
  | [] => nothing
  | ':' :: name =>
    let text := String.ofList (':' :: name)
    if text = ":quit" then quit
    else if text = ":memory" then registers
    else if text = ":metrics" then metrics
    else unknown text
  | cs => press ((words cs).map String.ofList)

/-! ## Output -/

/-- A display as a line of output. -/
def OutputFormat.render (format : OutputFormat) (d : Display) : String :=
  match format with
  | .plain => d.text ++ "\n"
  | .json =>
    "\x7b\"text\":" ++ jsonString d.text ++ ",\"is_error\":" ++ (if d.isError then "true" else "false")
      ++ "\x7d\n"

/-- The report of the registers. -/
def Session.registerReport (s : Session) : String :=
  "memory = " ++ numberText s.memory ++ "\nanswer = " ++ numberText s.answer ++ "\n"

/-! ## A run -/

/-- Why a run stops before its end. -/
inductive ConsoleError where
  /-- A line is no UTF-8. -/
  | invalidText
  deriving DecidableEq, Repr

/-- The wording of a console error. -/
def ConsoleError.message : ConsoleError → String
  | invalidText => "stream did not contain valid UTF-8"

/-- What a line does: the run goes on with a desk, or it ends. -/
inductive Reaction where
  | next (desk : Desk) (output : String)
  | stop (failure : Option ConsoleError)

/-- What a command does. -/
def Command.react (exposition : Exposition) (format : OutputFormat) (d : Desk) : Command → Reaction
  | nothing => .next d ""
  | quit => .stop none
  | registers => .next d d.session.registerReport
  | metrics => .next d (exposition.encode d.counts)
  | unknown text => .next d ("unknown command " ++ text ++ "\n")
  | press texts =>
    let pressed := d.run texts
    .next pressed (format.render pressed.session.display)

/-- What a line does. -/
def reactToLine (exposition : Exposition) (format : OutputFormat) (d : Desk) (line : List UInt8) :
    Reaction :=
  match String.fromUTF8? line.toByteArray with
  | some text => (Command.ofLine text).react exposition format d
  | none => .stop (some .invalidText)

/-- What a run leaves behind. -/
structure Transcript where
  output : String
  failure : Option ConsoleError
  desk : Desk

/-- The run of some lines. -/
def runLines (exposition : Exposition) (format : OutputFormat) (d : Desk) :
    List (List UInt8) → Transcript
  | [] => ⟨"", none, d⟩
  | line :: rest =>
    match reactToLine exposition format d line with
    | .next pressed output =>
      let after := runLines exposition format pressed rest
      { after with output := output ++ after.output }
    | .stop failure => ⟨"", failure, d⟩

/-- The run of some bytes of input. -/
def runConsole (exposition : Exposition) (format : OutputFormat) (d : Desk) (input : List UInt8) :
    Transcript :=
  runLines exposition format d (lines input)

end DeskCalc
