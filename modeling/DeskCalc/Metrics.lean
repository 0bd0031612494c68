import DeskCalc.Error
import DeskCalc.Text.Fnv

/-!
# Counting calls

Calls are counted under a label of two parts. A call that returns counts as a success, and so does
one whose error is no failure; the class `Severity` says which errors are. Every call is also
timed once.

A registry tells labels apart by a key. Labels of one key share one set of counts, which bears the
name of the label that came first and is found under that name alone: `tally_count` says whose
counts a call changes. Unless it is told otherwise, a registry takes the hash of a label's two parts
in a row for its key.

An `Exposition` writes the counts for a scraper. `textExposition` is the one in use.
-/

namespace DeskCalc

/-- Which errors of a type are failures. By default all are. -/
class Severity (ε : Type) where
  isFailure : ε → Bool := fun _ => true

/-- An error that says nothing is no failure. -/
instance : Severity Unit := ⟨fun _ => false⟩

instance : Severity Empty := ⟨fun _ => false⟩

/-- An error of any kind, known by its text. -/
structure AnyError where
  message : String
  deriving DecidableEq, Repr

instance : Severity AnyError := {}

instance : Severity CalcError := {}

/-- What calls are counted under. -/
structure Label where
  layer : String
  function : String
  deriving DecidableEq, Repr

/-- The hash of a label's parts, one after the other. -/
def Label.hash (l : Label) : Nat := (fnv (l.layer.toUTF8.toList ++ l.function.toUTF8.toList)).toNat

/-- The counts of one label. -/
structure Tally where
  success : Nat := 0
  failure : Nat := 0
  timed : Nat := 0
  deriving DecidableEq, Repr

/-- One more call, by whether it succeeded. -/
def Tally.add (t : Tally) (succeeded : Bool) : Tally :=
  if succeeded then { t with success := t.success + 1, timed := t.timed + 1 }
  else { t with failure := t.failure + 1, timed := t.timed + 1 }

/-- How much counts have grown since earlier ones. -/
def Tally.since (later earlier : Tally) : Tally :=
  { success := later.success - earlier.success
    failure := later.failure - earlier.failure
    timed := later.timed - earlier.timed }

/-- What counts as a success: a value, or an error that is no failure. -/
def succeeded {ε α : Type} [Severity ε] : Except ε α → Bool
  | .ok _ => true
  | .error e => !Severity.isFailure e

/-- The counts of all labels, one entry for each key, under the label that came first. -/
structure Registry where
  key : Label → Nat := Label.hash
  entries : List (Label × Tally) := []

namespace Registry

/-- The counts that bear the name of a label, zero if none do. -/
def tally (r : Registry) (l : Label) : Tally := (r.entries.lookup l).getD {}

/-- The label that the calls of a label are counted under. -/
def owner (r : Registry) (l : Label) : Label :=
  ((r.entries.find? fun e => r.key e.1 == r.key l).map Prod.fst).getD l

/-- The entries with the counts of a label's key changed; a new key comes last. -/
def changed (key : Label → Nat) (l : Label) (change : Tally → Tally) :
    List (Label × Tally) → List (Label × Tally)
  | [] => [(l, change {})]
  | (k, t) :: rest =>
    if key k = key l then (k, change t) :: rest else (k, t) :: changed key l change rest

/-- Makes an entry for a label, if there is none for its key. -/
def register (r : Registry) (l : Label) : Registry :=
  { r with entries := changed r.key l id r.entries }

/-- Counts a call by its result. -/
def count {ε α : Type} [Severity ε] (r : Registry) (l : Label) (result : Except ε α) : Registry :=
  { r with entries := changed r.key l (·.add (succeeded result)) r.entries }

theorem lookup_changed (key : Label → Nat) (l other : Label) (change : Tally → Tally)
    (entries : List (Label × Tally)) :
    ((changed key l change entries).lookup other).getD {} =
      if other = ((entries.find? fun e => key e.1 == key l).map Prod.fst).getD l
      then change ((entries.lookup other).getD {}) else (entries.lookup other).getD {} := by
  induction entries with
  | nil =>
    by_cases h : other = l
    · subst h; simp [changed]
    · simp [changed, List.lookup_cons, beq_false_of_ne h, h]
  | cons entry rest ih =>
    obtain ⟨k, t⟩ := entry
    by_cases hk : key k = key l
    · by_cases h : other = k
      · subst h; simp [changed, hk]
      · simp [changed, hk, List.lookup_cons, beq_false_of_ne h, h]
    · by_cases h : other = k
      · subst h
        have found : other ≠ ((rest.find? fun e => key e.1 == key l).map Prod.fst).getD l := by
          intro same
          apply hk
          rw [same]
          cases hf : rest.find? fun e => key e.1 == key l with
          | none => rfl
          | some e => simpa using List.find?_some hf
        simp [changed, hk, found]
      · simp [changed, hk, List.lookup_cons, beq_false_of_ne h, ih]

/-- A call adds itself to the counts of its label's owner and leaves all others alone. -/
theorem tally_count {ε α : Type} [Severity ε] (r : Registry) (l other : Label)
    (result : Except ε α) :
    (r.count l result).tally other =
      if other = r.owner l then (r.tally other).add (succeeded result) else r.tally other :=
  lookup_changed r.key l other _ r.entries

/-- The labels that the entries are under. -/
def labels (r : Registry) : List Label := r.entries.map Prod.fst

theorem owner_eq (r : Registry) (l : Label) :
    r.owner l = (r.labels.find? fun k => r.key k == r.key l).getD l := by
  rw [labels, List.find?_map]
  rfl

/-- To a search for a key, changed entries are those from before with the changed label behind them. -/
theorem find?_changed (key : Label → Nat) (l : Label) (change : Tally → Tally)
    (entries : List (Label × Tally)) (n : Nat) :
    ((changed key l change entries).map Prod.fst).find? (fun k => key k == n) =
      (entries.map Prod.fst ++ [l]).find? fun k => key k == n := by
  induction entries with
  | nil => rfl
  | cons entry rest ih =>
    obtain ⟨k, t⟩ := entry
    by_cases hn : key k = n
    · subst hn
      by_cases hk : key k = key l <;> simp [changed, hk]
    · by_cases hk : key k = key l
      · have hl : ¬ key l = n := hk ▸ hn
        simp [changed, hk, hl]
      · simpa [changed, hk, hn] using ih

/-- Calls of a label stay under the same owner. -/
theorem owner_count {ε α : Type} [Severity ε] (r : Registry) (l : Label) (result : Except ε α) :
    (r.count l result).owner l = r.owner l := by
  rw [owner_eq, owner_eq, labels, count, find?_changed, List.find?_append, labels]
  cases (r.entries.map Prod.fst).find? fun k => r.key k == r.key l <;> simp

/-- Registering a label changes no counts. -/
theorem tally_register (r : Registry) (l other : Label) :
    (r.register l).tally other = r.tally other := by
  simp [register, tally, lookup_changed]

/-- Makes a call that is counted, and returns its result unchanged. -/
def measure {ε α : Type} [Severity ε] (r : Registry) (l : Label) (call : Unit → Except ε α) :
    Except ε α × Registry :=
  let result := call ()
  (result, r.count l result)

end Registry

/-! ## Exposition -/

/-- A way to write counts for a scraper. What it writes besides them, such as how long the calls
took, changes with a call, so it goes with the counts. Without entries it writes nothing. -/
structure Exposition where
  encode : Registry → String
  encode_nil : ∀ r : Registry, r.entries = [] → encode r = ""

/-- A family of counts: its name, what it counts, its type for a scraper, and the name and the value
of a sample of it. -/
structure Family where
  name : String
  help : String
  type : String
  sample : String
  value : Tally → Nat

/-- The families, by name. Of the timer only the number of calls is kept. -/
def families : List Family :=
  [⟨"failure_counter", "Failure Count", "counter", "failure_counter", Tally.failure⟩,
   ⟨"success_counter", "Success Count", "counter", "success_counter", Tally.success⟩,
   ⟨"timer", "Duration in seconds", "histogram", "timer_count", Tally.timed⟩]

/-- The two lines that head a family. -/
def Family.heading (f : Family) : String :=
  "# HELP " ++ f.name ++ " " ++ f.help ++ "\n# TYPE " ++ f.name ++ " " ++ f.type ++ "\n"

/-- A character inside the quotes of a label. -/
def labelChar : Char → List Char
  | '\\' => ['\\', '\\']
  | '"' => ['\\', '"']
  | '\n' => ['\\', 'n']
  | c => [c]

/-- A part of a label in quotes. -/
def labelText (s : String) : String := String.ofList ('"' :: (s.toList.flatMap labelChar ++ ['"']))

/-- The line of a sample. -/
def Family.line (f : Family) (l : Label) (t : Tally) : String :=
  f.sample ++ "\x7bapp_layer=" ++ labelText l.layer ++ ",class_function=" ++ labelText l.function
    ++ "\x7d " ++ toString (f.value t) ++ "\n"

/-- A family with a sample for each entry. -/
def Family.text (f : Family) (entries : List (Label × Tally)) : String :=
  f.heading ++ String.join (entries.map fun (l, t) => f.line l t)

/-- Writes each family with its samples, in the order of the entries. -/
def textExposition : Exposition where
  encode r := if r.entries.isEmpty then "" else String.join (families.map (·.text r.entries))
  encode_nil _ h := by rw [h]; rfl

end DeskCalc
