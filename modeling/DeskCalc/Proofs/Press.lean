import DeskCalc.Proofs.Keys
import DeskCalc.Session

/-!
# What a press does

`Pressed s s'` lists what a press can make of a session: it edits the text, it stores a number, it
settles a calculation, it moves along the timeline, or it leaves the session alone. Facts about runs
go through these cases and never through the keys.

`Evaluates` and `Remembers` list the texts of the keys that evaluate and of the memory keys, each with
what its key works with. `Paired` is the list of `Pressed` for two sessions that show the same: a press
does the same to both, whatever their histories and settings are.
-/

namespace DeskCalc

namespace Session

/-- What a press can make of a session. Numbers are stored and calculations settled only while the
display shows no error. -/
inductive Pressed (s : Session) : Session → Prop
  | kept : Pressed s s
  | edited (text : String) : Pressed s (s.edit text)
  | stored (x m : Float) : s.display.isError = false → plainNumber s.display.text = some x →
      m = x ∨ m = s.memory + x ∨ m = s.memory - x → Pressed s { s with memory := m }
  | settled (f : Option Function) : s.display.isError = false →
      Pressed s (s.settle (applyAfter f (calculate s.display.text)))
  | undone : Pressed s { s with history := s.history.undo }
  | redone : Pressed s { s with history := s.history.redo s.limit }

theorem pressed_negate (s : Session) : Pressed s s.negate := by
  unfold negate
  split <;> exact .edited _

theorem pressed_updateMemory (s : Session) {combine : Float → Float → Float}
    (hc : ∀ m x, combine m x = x ∨ combine m x = m + x ∨ combine m x = m - x) :
    Pressed s (s.updateMemory combine) := by
  unfold updateMemory
  split
  · exact .kept
  · next he =>
    split
    · next x hx => exact .stored x _ (Bool.eq_false_iff.2 he) hx (hc s.memory x)
    · exact .kept

/-- The memory keys change the memory alone. -/
theorem updateMemory_eq (s : Session) (combine : Float → Float → Float) :
    s.updateMemory combine = { s with memory := (s.updateMemory combine).memory } := by
  unfold updateMemory
  split
  · rfl
  · split <;> rfl

/-- Evaluating a text that is no error settles its calculation. -/
theorem evaluate_eq {s : Session} (h : s.display.isError = false) (f : Option Function) :
    s.evaluate f = s.settle (applyAfter f (calculate s.display.text)) := by
  rw [evaluate, Desk.evaluate, h]
  rfl

/-- Evaluating an error does nothing. -/
theorem evaluate_error {s : Session} (h : s.display.isError = true) (f : Option Function) :
    s.evaluate f = s := by
  rw [evaluate, Desk.evaluate, h]
  rfl

theorem pressed_evaluate (s : Session) (f : Option Function) : Pressed s (s.evaluate f) := by
  cases h : s.display.isError with
  | true =>
    rw [evaluate_error h]
    exact .kept
  | false =>
    rw [evaluate_eq h]
    exact .settled f h

/-- Every press does one of these things. -/
theorem pressed (s : Session) (text : String) : Pressed s (s.press text) := by
  unfold press
  cases Key.ofText text with
  | button b =>
    cases b with
    | clear | clearEntry | answer => exact .edited _
    | evaluate => exact pressed_evaluate s none
    | memoryStore => exact pressed_updateMemory s fun _ _ => .inl rfl
    | memoryAdd => exact pressed_updateMemory s fun _ _ => .inr (.inl rfl)
    | memorySubtract => exact pressed_updateMemory s fun _ _ => .inr (.inr rfl)
    | negate => exact pressed_negate s
    | undo => exact .undone
    | redo => exact .redone
  | constant c => exact .edited _
  | function f => exact pressed_evaluate s (some f)
  | text text => exact .edited _

theorem settings_settle (s : Session) (r : Except CalcError Float) :
    (s.settle r).settings = s.settings := by
  cases r <;> rfl

theorem press_key {text : String} {k : Key} (h : Key.ofText text = k) (s : Session) :
    s.press text = s.pressKey k := congrArg s.pressKey h

/-- No press changes the settings. -/
theorem settings_press (s : Session) (text : String) : (s.press text).settings = s.settings := by
  have h := pressed s text
  generalize s.press text = s' at h
  cases h with
  | settled f _ => exact settings_settle s _
  | _ => rfl

/-- The texts of the keys that evaluate the display, with the function that each applies to the
result. -/
inductive Evaluates : String → Option Function → Prop
  | equals : Evaluates "=" none
  | execute : Evaluates "EXE" none
  | function (f : Function) : Evaluates f.name (some f)

theorem Evaluates.desk_press {text : String} {f : Option Function} (h : Evaluates text f)
    (d : Desk) : d.press text = d.evaluate f := by
  have hpress : ∀ {k : Key}, Key.ofText text = k → d.press text = d.pressKey k := fun hk =>
    congrArg d.pressKey hk
  cases h with
  | equals => exact hpress (k := .button .evaluate) (by decide)
  | execute => exact hpress (k := .button .evaluate) (by decide)
  | function f => exact hpress (k := .function f) (by cases f <;> decide)

theorem Evaluates.press_eq {text : String} {f : Option Function} (h : Evaluates text f)
    (s : Session) : s.press text = s.evaluate f :=
  congrArg Desk.session (h.desk_press { session := s })

/-- A key that evaluates settles the calculation of a text that is no error. -/
theorem Evaluates.press_settle {s : Session} {text : String} {f : Option Function}
    (h : Evaluates text f) (hd : s.display.isError = false) :
    s.press text = s.settle (applyAfter f (calculate s.display.text)) := by
  rw [h.press_eq, evaluate_eq hd]

/-- The texts of the memory keys, with what each makes of the memory and the number shown. -/
inductive Remembers : String → (Float → Float → Float) → Prop
  | store : Remembers "M" fun _ x => x
  | add : Remembers "M+" fun m x => m + x
  | subtract : Remembers "M-" fun m x => m - x

theorem Remembers.press_eq {text : String} {combine : Float → Float → Float}
    (h : Remembers text combine) (s : Session) : s.press text = s.updateMemory combine := by
  cases h with
  | store => exact press_key (k := .button .memoryStore) (by decide) s
  | add => exact press_key (k := .button .memoryAdd) (by decide) s
  | subtract => exact press_key (k := .button .memorySubtract) (by decide) s

/-- How a function is applied to the result of a calculation. -/
inductive Applied : Option Function → Except CalcError Float → Except CalcError Float → Prop
  | plain (result : Except CalcError Float) : Applied none result result
  | unreached (f : Function) (e : CalcError) : Applied (some f) (.error e) (.error e)
  | value {f : Function} {x y : Float} : f.apply [x] = .ok y → Applied (some f) (.ok x) (.ok y)
  | noValue {f : Function} {x : Float} {e : DomainError} : f.apply [x] = .error e →
      Applied (some f) (.ok x) (.error (.domain e))

theorem applied (f : Option Function) (result : Except CalcError Float) :
    Applied f result (applyAfter f result) := by
  cases f with
  | none => exact .plain result
  | some f =>
    cases result with
    | error e => exact .unreached f e
    | ok x =>
      show Applied (some f) (.ok x) ((f.apply [x]).mapError CalcError.domain)
      cases h : f.apply [x] with
      | error e => exact .noValue h
      | ok y => exact .value h

/-! ## Two sessions under one key -/

/-- What a press makes of two sessions, where the two do the same. -/
inductive Paired (text : String) (s s' : Session) : Session → Session → Prop
  | kept : Paired text s s' s s'
  | edited (shown : String) : Paired text s s' (s.edit shown) (s'.edit shown)
  | stored (combine : Float → Float → Float) (x : Float) :
      Paired text s s' { s with memory := combine s.memory x }
        { s' with memory := combine s'.memory x }
  | settled (result : Except CalcError Float) :
      Paired text s s' (s.settle result) (s'.settle result)
  | undone : text = "Undo" → Paired text s s' { s with history := s.history.undo }
      { s' with history := s'.history.undo }
  | redone : text = "Redo" → Paired text s s' { s with history := s.history.redo s.limit }
      { s' with history := s'.history.redo s'.limit }

section Paired

variable {s s' : Session} {text : String} (hd : s.display = s'.display)
include hd

theorem editable_eq : s.editable = s'.editable := by rw [editable, editable, hd]

theorem paired_append (more : String) : Paired text s s' (s.append more) (s'.append more) := by
  rw [append, append, editable_eq hd]
  exact .edited _

theorem paired_clearEntry : Paired text s s' s.clearEntry s'.clearEntry := by
  rw [clearEntry, clearEntry, editable_eq hd]
  exact .edited _

theorem paired_negate : Paired text s s' s.negate s'.negate := by
  unfold negate
  rw [editable_eq hd]
  split <;> exact .edited _

theorem paired_updateMemory (combine : Float → Float → Float) :
    Paired text s s' (s.updateMemory combine) (s'.updateMemory combine) := by
  unfold updateMemory
  rw [hd]
  split
  · exact .kept
  · split
    · exact .stored combine _
    · exact .kept

theorem paired_evaluate (f : Option Function) :
    Paired text s s' (s.evaluate f) (s'.evaluate f) := by
  cases h : s'.display.isError with
  | true =>
    rw [evaluate_error h, evaluate_error (hd ▸ h)]
    exact .kept
  | false =>
    rw [evaluate_eq h, evaluate_eq (hd ▸ h), hd]
    exact .settled _

/-- A press does the same to sessions that show the same, and only `ANS` looks at the answer. -/
theorem paired (ha : text = "ANS" → s.answer = s'.answer) :
    Paired text s s' (s.press text) (s'.press text) := by
  unfold press
  cases hkey : Key.ofText text with
  | button b =>
    cases b with
    | clear => exact .edited ""
    | clearEntry => exact paired_clearEntry hd
    | evaluate => exact paired_evaluate hd none
    | answer =>
      have hanswer := ha (Key.text_of_ofText hkey nofun)
      show Paired text s s' (s.append (formatNumber s.answer)) (s'.append (formatNumber s'.answer))
      rw [hanswer]
      exact paired_append hd _
    | memoryStore => exact paired_updateMemory hd fun _ x => x
    | memoryAdd => exact paired_updateMemory hd fun m x => m + x
    | memorySubtract => exact paired_updateMemory hd fun m x => m - x
    | negate => exact paired_negate hd
    | undo => exact .undone (Key.text_of_ofText hkey nofun)
    | redo => exact .redone (Key.text_of_ofText hkey nofun)
  | constant c => exact paired_append hd _
  | function f => exact paired_evaluate hd (some f)
  | text more => exact paired_append hd more

end Paired

/-! ## Single keys -/

theorem press_text {text : String} (h : Key.ofText text = .text text) (s : Session) :
    s.press text = s.append text := press_key h s

theorem press_clear (s : Session) : s.press "CLR" = s.edit "" :=
  press_key (k := .button .clear) (by decide) s

theorem press_answer (s : Session) : s.press "ANS" = s.append (formatNumber s.answer) :=
  press_key (k := .button .answer) (by decide) s

theorem press_negate (s : Session) : s.press "Neg" = s.negate :=
  press_key (k := .button .negate) (by decide) s

theorem press_undo (s : Session) : s.press "Undo" = { s with history := s.history.undo } :=
  press_key (k := .button .undo) (by decide) s

theorem press_redo (s : Session) :
    s.press "Redo" = { s with history := s.history.redo s.limit } :=
  press_key (k := .button .redo) (by decide) s

/-! ## Runs -/

theorem run_nil (s : Session) : s.run [] = s := rfl

theorem run_cons (s : Session) (text : String) (rest : List String) :
    s.run (text :: rest) = (s.press text).run rest := rfl

theorem run_append (s : Session) (a b : List String) : s.run (a ++ b) = (s.run a).run b :=
  List.foldl_append

/-- What one press keeps, a run keeps. -/
theorem run_keeps {P : Session → Prop} (hP : ∀ s text, P s → P (s.press text)) {s : Session}
    (h : P s) (texts : List String) : P (s.run texts) := by
  induction texts generalizing s with
  | nil => exact h
  | cons text rest ih => exact ih (hP s text h)

theorem settings_run (s : Session) (texts : List String) : (s.run texts).settings = s.settings :=
  run_keeps (P := fun s' => s'.settings = s.settings)
    (fun s' text h => (settings_press s' text).trans h) rfl texts

end Session

theorem Desk.run_append (d : Desk) (a b : List String) : d.run (a ++ b) = (d.run a).run b :=
  List.foldl_append

end DeskCalc
