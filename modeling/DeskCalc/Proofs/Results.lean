import DeskCalc.Proofs.Memory
import DeskCalc.Proofs.Redoable
import DeskCalc.Proofs.Registers
import DeskCalc.Proofs.RoundTrip
import DeskCalc.Proofs.Values

/-!
# A result stands

**Theorem (`result_stands`).** A result that a key has just shown is a text like any other, and one that
evaluates to itself: `=` shows it again and touches neither the history nor the memory, `M` stores it,
and `ANS` on a cleared display brings it back. Only the sign of zero is lost, since the display shows
`0` for both zeros.

All of it follows from two facts. The display holds the text of the answer, and the answer is finite
(`Standing`); and such a text reads back as the answer (`calculate_formatNumber`).
-/

namespace DeskCalc

/-! ## Numbers that were displayed -/

theorem Binary64.beq_self {x : Float} (hx : x.isFinite = true) : (x == x) = true := by
  change x.toModel.unpack.isFinite = true at hx
  show x.toModel.unpack.beq x.toModel.unpack = true
  cases h : x.toModel.unpack with
  | notANumber | infinity => rw [h] at hx; cases hx
  | zero s => cases s <;> rfl
  | finite s m e hm =>
    cases s <;> simp [Float.Model.UnpackedFloat.beq, Float.Model.UnpackedFloat.compare]

/-- A number is equal to what its text reads as. -/
theorem displayValue_beq {v : Float} (hv : v.isFinite = true) : (displayValue v == v) = true := by
  unfold displayValue
  split
  · next hzero => rcases (Binary64.beq_zero_iff v).1 hzero with rfl | rfl <;> rfl
  · exact Binary64.beq_self hv

/-- And it is the same number, unless it is negative zero. -/
theorem displayValue_of_ne {v : Float} (hne : v ≠ -0) : displayValue v = v := by
  unfold displayValue
  split
  · next hzero => exact (((Binary64.beq_zero_iff v).1 hzero).resolve_right hne).symm
  · rfl

/-- What a text reads as is displayed by that text. -/
theorem formatNumber_displayValue (v : Float) : formatNumber (displayValue v) = formatNumber v := by
  unfold displayValue
  split
  · next hzero =>
    have hself : ((0 : Float) == 0) = true := rfl
    rw [formatNumber, formatNumber, if_pos hself, if_pos hzero]
  · rfl

namespace Session

/-! ## A display that holds the answer -/

/-- The display shows the answer, and there is nothing to redo. -/
structure Standing (s : Session) : Prop where
  display : s.display = ⟨formatNumber s.answer, false⟩
  future : s.history.future = []
  finite : s.answer.isFinite = true

theorem standing_press {s : Session} {text : String} {f : Option Function} {x : Float}
    (ht : Evaluates text f) (hd : s.display.isError = false)
    (hx : applyAfter f (calculate s.display.text) = .ok x) : (s.press text).Standing := by
  rw [ht.press_settle hd, hx]
  exact ⟨display_edit _ _, future_replace _ _, isFinite_of_applyAfter hx⟩

namespace Standing

variable {s : Session} (hs : s.Standing)
include hs

theorem calculate_text : calculate s.display.text = .ok (displayValue s.answer) := by
  rw [hs.display]
  exact calculate_formatNumber hs.finite

/-- Showing the same again changes nothing. -/
theorem edit_text (x : Float) :
    { s with answer := x }.edit (formatNumber s.answer) = { s with answer := x } := by
  have hpresent : s.history.present = ⟨formatNumber s.answer, false⟩ := hs.display
  have hchange : s.history.change s.limit ⟨formatNumber s.answer, false⟩ = s.history := by
    rw [History.change, if_pos hpresent.symm, ← hs.future]
  exact congrArg (fun h => { s with answer := x, history := h }) hchange

/-- Nothing but the sign of zero changes when the result is evaluated again. -/
theorem press_equals : s.press "=" = { s with answer := displayValue s.answer } := by
  have hd : s.display.isError = false := by rw [hs.display]
  rw [Evaluates.equals.press_settle hd, hs.calculate_text]
  show { s with answer := displayValue s.answer }.edit (formatNumber (displayValue s.answer)) = _
  rw [formatNumber_displayValue, hs.edit_text]

theorem memory_store : (s.press "M").memory = displayValue s.answer := by
  have hshown : s.shown? = some (displayValue s.answer) := by
    rw [shown?, hs.display]
    exact plainNumber_formatNumber hs.finite
  rw [Remembers.store.memory_eq, hshown]
  rfl

/-- The answer, recalled and evaluated, looks as before. -/
theorem display_again : (s.run ["CLR", "ANS", "="]).display = s.display := by
  have hrecall : (s.run ["CLR", "ANS"]).display = s.display := s.display_recall.trans hs.display.symm
  have hd : (s.run ["CLR", "ANS"]).display.isError = false := by rw [hrecall, hs.display]
  show ((s.run ["CLR", "ANS"]).press "=").display = s.display
  rw [Evaluates.equals.press_settle hd, hrecall, hs.calculate_text, hs.display]
  show ({ s.run ["CLR", "ANS"] with answer := displayValue s.answer }.edit
    (formatNumber (displayValue s.answer))).display = _
  rw [display_edit, formatNumber_displayValue]

end Standing

/-- **A result stands.** Where a press of a key that evaluates has just succeeded, pressing `=` succeeds
as well, keeps the display, both stacks of the history and the memory, and leaves an equal answer, the
same one unless it is negative zero. Pressing `M` stores a number equal to the answer, and pressing
`CLR`, `ANS` and `=` shows the same again. -/
theorem result_stands (settings : SessionSettings) (texts : List String) {text : String}
    {f : Option Function} {x : Float} (ht : Evaluates text f)
    (hd : ((start settings).run texts).display.isError = false)
    (hx : applyAfter f (calculate ((start settings).run texts).display.text) = .ok x) :
    let s := ((start settings).run texts).press text
    let again := s.press "="
    (s.display.isError = false ∧ ∃ y, applyAfter none (calculate s.display.text) = .ok y) ∧
      again.history = s.history ∧ again.memory = s.memory ∧
      (again.answer == s.answer) = true ∧ (s.answer ≠ -0 → again.answer = s.answer) ∧
      ((s.press "M").memory == s.answer) = true ∧
      (s.run ["CLR", "ANS", "="]).display = s.display := by
  intro s again
  have hs : s.Standing := standing_press ht hd hx
  have hagain : again = { s with answer := displayValue s.answer } := hs.press_equals
  rw [hagain]
  refine ⟨⟨by rw [hs.display], _, hs.calculate_text⟩, rfl, rfl, displayValue_beq hs.finite,
    displayValue_of_ne, ?_, hs.display_again⟩
  rw [hs.memory_store]
  exact displayValue_beq hs.finite

/-- Negative zero is shown as `0` and is zero when it is evaluated again; any other result stays. -/
theorem result_stands_signed :
    let s := (start ⟨"7", 2⟩).run ["5/0", "=", "Undo", "M", "CLR", "-0"]
    let s' := s.press "EXE"
    let t := (start {}).run ["6-9"]
    let t' := t.press "="
    (s.display.isError = false ∧ applyAfter none (calculate s.display.text) = .ok (-0)) ∧
      (s'.answer = -0 ∧ s'.display = ⟨"0", false⟩ ∧ (s'.press "=").answer = 0 ∧
        (s'.press "=").history = s'.history ∧ ((s'.press "=").answer == s'.answer) = true ∧
        ((s'.press "M").memory == s'.answer) = true ∧
        (s'.run ["CLR", "ANS", "="]).display = s'.display) ∧
      (t.display.isError = false ∧ applyAfter none (calculate t.display.text) = .ok (-3)) ∧
      t'.answer ≠ -0 ∧ (t'.press "=").answer = t'.answer := by
  intro s s' t t'
  have hd : s.display.isError = false := by decide +kernel
  have hx : applyAfter none (calculate s.display.text) = .ok (-0) := by decide +kernel
  have hanswer : s'.answer = -0 := by decide +kernel
  have hshown : s'.display = ⟨"0", false⟩ := by decide +kernel
  have hzero : (s'.press "=").answer = 0 := by decide +kernel
  have hd' : t.display.isError = false := by decide +kernel
  have hx' : applyAfter none (calculate t.display.text) = .ok (-3) := by decide +kernel
  have hne : t'.answer ≠ -0 := by decide +kernel
  obtain ⟨-, hhistory, -, hequal, -, hmemory, hrecalled⟩ :=
    result_stands ⟨"7", 2⟩ ["5/0", "=", "Undo", "M", "CLR", "-0"] .execute hd hx
  obtain ⟨-, -, -, -, hsame, -⟩ := result_stands {} ["6-9"] .equals hd' hx'
  exact ⟨⟨hd, hx⟩, ⟨hanswer, hshown, hzero, hhistory, hequal, hmemory, hrecalled⟩, ⟨hd', hx'⟩,
    hne, hsame hne⟩

end Session

end DeskCalc
