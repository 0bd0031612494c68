import DeskCalc.Proofs.Press

/-!
# The text of the error marker

**Theorem (`marker_text_invisible`).** Two sessions that differ only in the text of the error marker
agree, press for press, on both registers, on whether the display is an error, on how far undo and
redo reach, and on every text that is no error.

`remark marker` exchanges the marker in a session: in its settings and wherever an error is shown.
Every press commutes with it (`remark_press`), because what a press reads is the text of a display
that is no error. The one place where two displays are compared is a change, and there one of the
two is no error, so exchanging the marker neither makes them equal nor tells them apart
(`Display.remark_inj`).
-/

namespace DeskCalc

/-! ## Histories under a map -/

namespace History

variable {α β : Type} (f : α → β) (limit : Nat) (h : History α)

/-- The history with every value replaced. -/
def map : History β := ⟨h.past.map f, f h.present, h.future.map f⟩

theorem present_map : (h.map f).present = f h.present := rfl

theorem recorded_map : (h.map f).recorded limit = (h.recorded limit).map f := by
  rw [recorded, recorded, List.map_take]
  rfl

theorem undo_map : (h.map f).undo = h.undo.map f := by
  obtain ⟨past, present, future⟩ := h
  cases past <;> rfl

theorem redo_map : (h.map f).redo limit = (h.redo limit).map f := by
  obtain ⟨past, present, future⟩ := h
  cases future with
  | nil => rfl
  | cons x later => exact congrArg (History.mk · (f x) (later.map f)) (recorded_map f limit _)

/-- A map that does not merge the new value with another present commutes with a change. -/
theorem change_map [DecidableEq α] [DecidableEq β] {x : α}
    (hf : f x = f h.present → x = h.present) :
    (h.map f).change limit (f x) = (h.change limit x).map f := by
  unfold change
  rw [present_map]
  by_cases hx : x = h.present
  · rw [if_pos hx, if_pos (congrArg f hx)]
    rfl
  · rw [if_neg hx, if_neg fun heq => hx (hf heq), recorded_map]
    rfl

end History

/-! ## Displays under another marker -/

namespace Display

/-- The display with the text of another marker if it is an error. -/
def remark (marker : String) (d : Display) : Display := if d.isError then ⟨marker, true⟩ else d

variable {marker : String} {d d' : Display}

theorem remark_of_not_error (h : d.isError = false) : d.remark marker = d := by
  rw [remark, h]
  rfl

@[simp] theorem isError_remark : (d.remark marker).isError = d.isError := by
  unfold remark
  split
  · next h => exact h.symm
  · rfl

/-- Only errors can become equal. -/
theorem remark_inj (h : d.isError = false ∨ d'.isError = false)
    (heq : d.remark marker = d'.remark marker) : d = d' := by
  have hboth : d.isError = d'.isError := by simpa using congrArg isError heq
  have hd : d.isError = false := h.elim id hboth.trans
  rwa [remark_of_not_error hd, remark_of_not_error (hboth ▸ hd)] at heq

end Display

namespace Session

/-! ## Sessions under another marker -/

/-- The session with another marker. -/
def remark (marker : String) (s : Session) : Session :=
  { s with
    settings := { s.settings with errorMarker := marker }
    history := s.history.map (Display.remark marker) }

variable (marker : String) {s : Session}

theorem isError_remark : (s.remark marker).display.isError = s.display.isError :=
  Display.isError_remark

theorem text_remark (h : s.display.isError = false) :
    (s.remark marker).display.text = s.display.text :=
  congrArg Display.text (Display.remark_of_not_error h)

theorem replace_remark {d : Display} (h : d.isError = false ∨ s.display.isError = false) :
    (s.remark marker).replace (d.remark marker) = (s.replace d).remark marker :=
  congrArg (fun h => { s.remark marker with history := h })
    (History.change_map (Display.remark marker) s.limit s.history (Display.remark_inj h))

theorem edit_remark (text : String) : (s.remark marker).edit text = (s.edit text).remark marker :=
  replace_remark marker (d := ⟨text, false⟩) (.inl rfl)

theorem editable_remark : (s.remark marker).editable = s.editable := by
  unfold editable
  rw [isError_remark]
  split
  · rfl
  · next h => exact text_remark marker (Bool.eq_false_iff.2 h)

theorem append_remark (text : String) :
    (s.remark marker).append text = (s.append text).remark marker := by
  unfold append
  rw [editable_remark, edit_remark]

theorem clearEntry_remark : (s.remark marker).clearEntry = s.clearEntry.remark marker := by
  unfold clearEntry
  rw [editable_remark, edit_remark]

theorem negate_remark : (s.remark marker).negate = s.negate.remark marker := by
  unfold negate
  rw [editable_remark]
  split <;> exact edit_remark marker _

theorem updateMemory_remark (combine : Float → Float → Float) :
    (s.remark marker).updateMemory combine = (s.updateMemory combine).remark marker := by
  unfold updateMemory
  rw [isError_remark]
  split
  · rfl
  · next h =>
    rw [text_remark marker (Bool.eq_false_iff.2 h)]
    split <;> rfl

theorem evaluate_remark (f : Option Function) :
    (s.remark marker).evaluate f = (s.evaluate f).remark marker := by
  cases h : s.display.isError with
  | true =>
    have h' : (s.remark marker).display.isError = true := (isError_remark marker).trans h
    rw [evaluate_error h, evaluate_error h']
  | false =>
    have h' : (s.remark marker).display.isError = false := (isError_remark marker).trans h
    rw [evaluate_eq h, evaluate_eq h', text_remark marker h]
    cases applyAfter f (calculate s.display.text) with
    | ok x => exact edit_remark (s := { s with answer := x }) marker (formatNumber x)
    | error e => exact replace_remark marker (d := ⟨s.settings.errorMarker, true⟩) (.inr h)

/-! ## Presses -/

theorem pressKey_button_remark (b : Button) :
    (s.remark marker).pressKey (.button b) = (s.pressKey (.button b)).remark marker := by
  cases b with
  | clear => exact edit_remark marker ""
  | clearEntry => exact clearEntry_remark marker
  | evaluate => exact evaluate_remark marker none
  | answer => exact append_remark marker (formatNumber s.answer)
  | memoryStore => exact updateMemory_remark marker fun _ x => x
  | memoryAdd => exact updateMemory_remark marker fun m x => m + x
  | memorySubtract => exact updateMemory_remark marker fun m x => m - x
  | negate => exact negate_remark marker
  | undo => exact congrArg (fun h => { s.remark marker with history := h }) (History.undo_map ..)
  | redo => exact congrArg (fun h => { s.remark marker with history := h }) (History.redo_map ..)

/-- No press looks at the text of the marker. -/
theorem remark_press (text : String) :
    (s.remark marker).press text = (s.press text).remark marker := by
  unfold press
  cases Key.ofText text with
  | button b => exact pressKey_button_remark marker b
  | constant c => exact append_remark marker (formatNumber c.value)
  | function f => exact evaluate_remark marker (some f)
  | text text => exact append_remark marker text

theorem remark_run (texts : List String) :
    (s.remark marker).run texts = (s.run texts).remark marker := by
  induction texts generalizing s with
  | nil => rfl
  | cons text rest ih => rw [run_cons, run_cons, remark_press, ih]

/-- A session under another marker is that session with the markers exchanged. -/
theorem run_remarked (marker marker' : String) (limit : Nat) (texts : List String) :
    (start ⟨marker', limit⟩).run texts = ((start ⟨marker, limit⟩).run texts).remark marker' :=
  remark_run (s := start ⟨marker, limit⟩) marker' texts

/-- **The text of the error marker is invisible.** Whatever the two markers are, the same presses
leave the same registers, errors at the same times, as many displays to undo and to redo, and the
same text wherever the display is no error. -/
theorem marker_text_invisible (marker marker' : String) (limit : Nat) (texts : List String) :
    let s := (start ⟨marker, limit⟩).run texts
    let s' := (start ⟨marker', limit⟩).run texts
    s.memory = s'.memory ∧ s.answer = s'.answer ∧ s.display.isError = s'.display.isError ∧
      s.history.past.length = s'.history.past.length ∧
      s.history.future.length = s'.history.future.length ∧
      (s.display.isError = false → s.display.text = s'.display.text) := by
  intro s s'
  have hs : s' = s.remark marker' := run_remarked marker marker' limit texts
  rw [hs]
  refine ⟨rfl, rfl, (isError_remark marker').symm, List.length_map .. |>.symm,
    List.length_map .. |>.symm, fun h => (text_remark marker' h).symm⟩

/-- Storing, adding and evaluating while the marker shows, be it `7` or nothing, leaves no trace
behind an undo. -/
theorem marker_text_seven :
    let texts := ["1/0", "=", "M", "M+", "sqrt", "Undo"]
    let s := (start ⟨"7", 100⟩).run texts
    let s' := (start ⟨"", 100⟩).run texts
    s.display.isError = false ∧ s.memory = s'.memory ∧ s.answer = s'.answer ∧
      s.display.text = s'.display.text := by
  intro texts s s'
  have hd : s.display.isError = false := by decide +kernel
  obtain ⟨hmemory, hanswer, -, -, -, htext⟩ := marker_text_invisible "7" "" 100 texts
  exact ⟨hd, hmemory, hanswer, htext hd⟩

end Session

end DeskCalc
