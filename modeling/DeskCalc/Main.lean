import DeskCalc.Console
import DeskCalc.Settings.Environment

/-!
# The console program

Reads its settings from the environment and then lines from standard input, and answers each line
on standard output as soon as it is read.
-/

namespace DeskCalc

/-- The next line of a stream without the line feed behind it, after the bytes already read, latest
first. At the end of the stream there is none. -/
partial def nextLine? (input : IO.FS.Stream) (current : List UInt8) : IO (Option (List UInt8)) := do
  match (← input.read 1).toList with
  | [b] => if b = 10 then return some current.reverse else nextLine? input (b :: current)
  | _ => return if current.isEmpty then none else some current.reverse

/-- Answers the lines of a stream until they end or a line ends the run. -/
partial def serve (format : OutputFormat) (d : Desk) (input output : IO.FS.Stream) :
    IO (Option ConsoleError) := do
  match ← nextLine? input [] with
  | none => return none
  | some line =>
    match reactToLine textExposition format d line with
    | .next pressed text =>
      output.putStr text
      output.flush
      serve format pressed input output
    | .stop failure => return failure

end DeskCalc

open DeskCalc in
/-- The program: exit code 1 if the settings cannot be read or a line cannot. -/
def main : IO UInt32 := do
  let block ← IO.FS.readFile "/proc/self/environ"
  match (Environment.ofBlock block).consoleSettings .standard with
  | .error error =>
    IO.eprintln error.message
    return 1
  | .ok settings =>
    let desk : Desk := { session := .start settings.session }
    match ← serve settings.output desk (← IO.getStdin) (← IO.getStdout) with
    | none => return 0
    | some failure =>
      IO.eprintln failure.message
      return 1
