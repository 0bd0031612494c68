import DeskCalc.Settings.Loader

/-!
# Settings from the environment

A variable sets something if its name begins with `APP_`, in any case. The first underscore behind
that parts a group of settings from a setting in it, so `APP_ENGINE_HISTORY_LIMIT` sets
`history_limit` in the group `engine`. All variables together make one table, a later one winning
over an earlier; `consoleSettings` and `sessionSettings` read it by way of a `Loader`.
-/

namespace DeskCalc

/-! ## The environment -/

/-- Named variables with their values, each name once. -/
structure Environment where
  assigned : List (String × String)

namespace Environment

/-- The environment after some assignments, in order. A variable keeps the place of its first. -/
def ofAssignments (pairs : List (String × String)) : Environment :=
  ⟨pairs.foldl (fun assigned p => put p.1 p.2 assigned) []⟩

/-- The name and the value of an assignment `name=value`. -/
def assignment (cs : List Char) : String × String :=
  (String.ofList (cs.takeWhile (· != '=')), String.ofList ((cs.dropWhile (· != '=')).drop 1))

/-- The environment of a block of assignments `name=value`, each with a null character behind it. -/
def ofBlock (block : String) : Environment :=
  ofAssignments ((block.toList.splitBy fun a _ => a != '\x00').map fun cs =>
    assignment (cs.filter (· != '\x00')))

end Environment

/-! ## From variables to a table -/

/-- What the names of variables that set something begin with, in lower case. -/
def variableStart : List Char := ['a', 'p', 'p', '_']

/-- A text with its first underscore replaced by a point. -/
def pointForUnderscore : List Char → List Char
  | [] => []
  | c :: cs => if c = '_' then '.' :: cs else c :: pointForUnderscore cs

/-- The parts of a text between points. The part read so far is `current`, last character first. -/
def partsFrom (current : List Char) : List Char → List (List Char)
  | [] => [current.reverse]
  | c :: cs => if c = '.' then current.reverse :: partsFrom [] cs else partsFrom (c :: current) cs

/-- The path in the table that a variable of a given name sets, if it sets something: no part of it
is empty. -/
def settingPath? (name : String) : Option (List String) :=
  let cs := (trim name.toList).map Char.toLower
  if variableStart.isPrefixOf cs then
    let parts := partsFrom [] (trim (pointForUnderscore (cs.drop variableStart.length)))
    if parts.any List.isEmpty then none else some (parts.map String.ofList)
  else none

/-- A value at the end of a path of tables. -/
def Entry.nest (value : Entry) : List String → Entry
  | [] => value
  | name :: path => table [(name, nest value path)]

namespace Environment

/-- What is set so far, joined by what one more variable sets. -/
def assign (load : Loader) (table : Entry) (p : String × String) : Entry :=
  match settingPath? p.1 with
  | some path => load.merge (some table) ((load.value p.2).nest path)
  | none => table

/-- The table that the variables of an environment set together. -/
def settings (load : Loader) (env : Environment) : Entry :=
  env.assigned.foldl (assign load) (.table [])

/-! ## From a table to settings -/

/-- The settings of a session alone. They fail when nothing is set in their group. -/
def sessionSettings (load : Loader) (env : Environment) : Except SettingsError SessionSettings :=
  load.sessionAt sessionGroup (env.settings load)

/-- The settings of the console. What is not set has its default. -/
def consoleSettings (load : Loader) (env : Environment) : Except SettingsError ConsoleSettings :=
  load.console (env.settings load)

end Environment

end DeskCalc
