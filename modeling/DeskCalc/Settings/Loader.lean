import DeskCalc.Settings
import DeskCalc.Settings.Entry

/-!
# Loading settings

A `Loader` is what turns named texts into settings: it reads a text as a value, joins the values
that are set at one place, and reads settings from a value. Nothing else is asked of it than its
laws: a later value takes the place of an earlier one, but tables are joined field by field; settings
are read from the fields of a table, and a field that is missing has its default.

`Loader.standard` is the loader in use.
-/

namespace DeskCalc

/-- A setting cannot be read. -/
inductive SettingsError where
  /-- The setting has a value of a kind or a form that it does not take. -/
  | badValue (name : String)
  /-- Nothing is set in the group. -/
  | nothingSet (group : String)
  deriving DecidableEq, Repr

/-- The wording of a setting that cannot be read. -/
def SettingsError.message : SettingsError → String
  | badValue name => "invalid value for setting " ++ name
  | nothingSet group => "nothing is set in group " ++ group

/-- A field read by a reader of its values, or its default if it is missing. -/
def readField {α : Type} (read : Entry → Except SettingsError α) (default : α) :
    Option Entry → Except SettingsError α
  | none => .ok default
  | some value => read value

/-- The group of the settings of a session. -/
def sessionGroup : String := "engine"

/-- What loads settings, with its laws. -/
structure Loader where
  /-- The value that a text spells. -/
  value : String → Entry
  /-- What is at a place, perhaps nothing, joined by a later value. -/
  merge : Option Entry → Entry → Entry
  /-- Reads an output format. -/
  output : Entry → Except SettingsError OutputFormat
  /-- Reads the settings of a session. -/
  session : Entry → Except SettingsError SessionSettings
  /-- Reads the settings of a session that are in a group of a table. -/
  sessionAt : String → Entry → Except SettingsError SessionSettings
  /-- Reads the settings of the console. -/
  console : Entry → Except SettingsError ConsoleSettings
  /-- Any value but a table takes the place of what is there. -/
  merge_of_not_table : ∀ earlier later, (∀ fields, later ≠ .table fields) →
    merge earlier later = later
  /-- A table is joined by a field: the field's value joins the one of that name. -/
  merge_field : ∀ fields name value, merge (some (.table fields)) (.table [(name, value)]) =
    .table (put name (merge (fields.lookup name) value) fields)
  /-- A format is read by its name. -/
  output_name : ∀ format, output (.text format.name) = .ok format
  /-- In a group that is there, its value is read. -/
  sessionAt_of_some : ∀ fields group value, fields.lookup group = some value →
    sessionAt group (.table fields) = session value
  /-- A group that is missing cannot be read. -/
  sessionAt_of_none : ∀ fields group, fields.lookup group = none →
    ∃ e, sessionAt group (.table fields) = .error e
  /-- The settings of the console are read field by field. Other fields are left alone. -/
  console_table : ∀ fields settings, console (.table fields) = .ok settings ↔
    readField output .plain (fields.lookup "output") = .ok settings.output ∧
      readField session {} (fields.lookup sessionGroup) = .ok settings.session

/-! ## The standard loader -/

namespace Entry

mutual

/-- A value joined by a later one: two tables field by field, else the later one. -/
def merge (earlier : Option Entry) : Entry → Entry
  | table fields =>
    match earlier with
    | some (table existing) => table (mergeFields existing fields)
    | _ => table fields
  | later => later

/-- The fields of a table joined by later ones. -/
def mergeFields (existing : List (String × Entry)) :
    List (String × Entry) → List (String × Entry)
  | [] => existing
  | (name, value) :: rest =>
    mergeFields (put name (merge (existing.lookup name) value) existing) rest

end

/-- A text, plain or quoted. -/
def text? : Entry → Option String
  | text s => some s
  | character c => some (String.singleton c)
  | _ => none

/-- A whole number that is not negative. -/
def nat? : Entry → Option Nat
  | whole n => if 0 ≤ n then some n.toNat else none
  | _ => none

/-- The name of an output format. -/
def outputFormat? : Entry → Option OutputFormat
  | text s =>
    if s = OutputFormat.plain.name then some .plain
    else if s = OutputFormat.json.name then some .json
    else none
  | _ => none

/-- What a reader makes of the value of a setting. -/
def read {α : Type} (name : String) (read? : Entry → Option α) (value : Entry) :
    Except SettingsError α :=
  match read? value with
  | some x => .ok x
  | none => .error (.badValue name)

end Entry

/-- The settings of a session, read from the value of each of them. -/
def SessionSettings.ofValues (errorMarker historyLimit : Option Entry) :
    Except SettingsError SessionSettings := do
  let defaults : SessionSettings := {}
  let errorMarker ←
    readField (Entry.read "error_marker" Entry.text?) defaults.errorMarker errorMarker
  let historyLimit ←
    readField (Entry.read "history_limit" Entry.nat?) defaults.historyLimit historyLimit
  return { errorMarker, historyLimit }

/-- The settings of a session, read from their group: a table gives them by name, a list in the
order error marker, history limit. What else is there is left alone. -/
def SessionSettings.ofEntry : Entry → Except SettingsError SessionSettings
  | .table fields => ofValues (fields.lookup "error_marker") (fields.lookup "history_limit")
  | .list items => ofValues items[0]? items[1]?
  | _ => .error (.badValue sessionGroup)

/-- The settings of a session, read from a group of a table. -/
def SessionSettings.ofGroup (group : String) : Entry → Except SettingsError SessionSettings
  | .table fields =>
    match fields.lookup group with
    | some value => ofEntry value
    | none => .error (.nothingSet group)
  | _ => .error (.nothingSet group)

/-- The settings of the console, read from a table. -/
def ConsoleSettings.ofEntry : Entry → Except SettingsError ConsoleSettings
  | .table fields => do
    let output ← readField (Entry.read "output" Entry.outputFormat?) .plain (fields.lookup "output")
    let session ← readField SessionSettings.ofEntry {} (fields.lookup sessionGroup)
    return { output, session }
  | _ => .error (.badValue "output")

theorem ConsoleSettings.ofEntry_eq_ok_iff {fields : List (String × Entry)}
    {settings : ConsoleSettings} : ofEntry (.table fields) = .ok settings ↔
      readField (Entry.read "output" Entry.outputFormat?) .plain (fields.lookup "output")
          = .ok settings.output ∧
        readField SessionSettings.ofEntry {} (fields.lookup sessionGroup) = .ok settings.session := by
  simp only [ofEntry]
  cases readField (Entry.read "output" Entry.outputFormat?) .plain (fields.lookup "output") with
  | error e => exact ⟨fun h => (nomatch h), fun h => (nomatch h.1)⟩
  | ok output =>
    cases readField SessionSettings.ofEntry {} (fields.lookup sessionGroup) with
    | error e => exact ⟨fun h => (nomatch h), fun h => (nomatch h.2)⟩
    | ok session =>
      obtain ⟨output', session'⟩ := settings
      show Except.ok (ConsoleSettings.mk output session) = _ ↔ _
      simp

/-- The loader in use. -/
def Loader.standard : Loader where
  value := Entry.ofText
  merge := Entry.merge
  output := Entry.read "output" Entry.outputFormat?
  session := SessionSettings.ofEntry
  sessionAt := SessionSettings.ofGroup
  console := ConsoleSettings.ofEntry
  merge_of_not_table _ later h := by
    cases later with
    | table fields => exact absurd rfl (h fields)
    | _ => simp only [Entry.merge]
  merge_field fields name value := by simp only [Entry.merge, Entry.mergeFields]
  output_name format := by cases format <;> rfl
  sessionAt_of_some fields group value h := by simp only [SessionSettings.ofGroup, h]
  sessionAt_of_none fields group h := ⟨.nothingSet group, by simp only [SessionSettings.ofGroup, h]⟩
  console_table fields settings := ConsoleSettings.ofEntry_eq_ok_iff

end DeskCalc
