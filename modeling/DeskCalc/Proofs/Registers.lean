import DeskCalc.Proofs.Doubles
import DeskCalc.Proofs.Timeline
import DeskCalc.Proofs.Transcript

/-!
# The report of the registers

**Theorem (`report_of_registers`).** `:memory` writes the answer as `ANS` shows it on an empty
display, and the memory as the display would show it, unless the register holds negative zero.
There the report writes `-0`, where the display shows `0`.

The report and the display write numbers by two functions, `numberText` and `formatNumber`. They
differ at the zeros only, and only one of the zeros is written differently (`numberText_eq`).
-/

namespace DeskCalc

/-- The two ways to write a number differ at negative zero alone. -/
theorem numberText_eq {x : Float} (hx : x ≠ -0) : numberText x = formatNumber x := by
  rw [formatNumber]
  split
  next hzero =>
    rcases (Binary64.beq_zero_iff x).1 hzero with rfl | rfl
    · decide +kernel
    · exact absurd rfl hx
  next => rfl

theorem texts_of_negative_zero : numberText (-0) = "-0" ∧ formatNumber (-0) = "0" := by
  decide +kernel

/-- On an empty display, `ANS` shows the answer. -/
theorem Session.display_recall (s : Session) :
    (s.run ["CLR", "ANS"]).display = ⟨formatNumber s.answer, false⟩ := by
  rw [run_cons, run_cons, run_nil, press_clear, press_answer, append, editable, display_edit,
    display_edit]
  exact congrArg (Display.mk · false) String.empty_append

theorem Session.display_answer (s : Session) :
    (s.run ["CLR", "ANS"]).display.text = formatNumber s.answer := congrArg Display.text s.display_recall

theorem runConsole_registers (exposition : Exposition) (format : OutputFormat) (d : Desk) :
    (runConsole exposition format d ":memory\n".toUTF8.data.toList).output
      = d.session.registerReport := by
  have hlines : lines ":memory\n".toUTF8.data.toList = [utf8 ":memory".toList] := by decide +kernel
  have hreact : reactToLine exposition format d (utf8 ":memory".toList)
      = .next d d.session.registerReport := by
    rw [reactToLine, fromUTF8?_utf8]
    rfl
  rw [runConsole, hlines, runLines_next hreact]
  exact String.append_empty

/-- **What `:memory` writes of the registers.** -/
theorem report_of_registers (exposition : Exposition) (format : OutputFormat) (d : Desk) :
    let s := d.session
    let shown := (s.run ["CLR", "ANS"]).display.text
    ∃ memory answer : String,
      (runConsole exposition format d ":memory\n".toUTF8.data.toList).output
        = "memory = " ++ memory ++ "\nanswer = " ++ answer ++ "\n" ∧
      (s.memory ≠ -0 → memory = formatNumber s.memory) ∧
      (s.memory = -0 → memory = "-0" ∧ formatNumber s.memory = "0") ∧
      (s.answer ≠ -0 → answer = shown) ∧
      (s.answer = -0 → answer = "-0" ∧ shown = "0") := by
  intro s
  obtain ⟨hreport, hdisplay⟩ := texts_of_negative_zero
  refine ⟨numberText s.memory, numberText s.answer, runConsole_registers exposition format d,
    numberText_eq, fun h => ?_, fun h => ?_, fun h => ?_⟩
  · rw [h]
    exact ⟨hreport, hdisplay⟩
  · rw [s.display_answer, numberText_eq h]
  · rw [s.display_answer, h]
    exact ⟨hreport, hdisplay⟩

/-- With `-0` stored and evaluated, the report writes both registers as the display never does. -/
theorem report_of_negative_zero :
    let s := (Session.start {}).run ["-0", "M", "="]
    (runConsole textExposition .plain { session := s } ":memory\n".toUTF8.data.toList).output
        = "memory = -0\nanswer = -0\n" ∧
      formatNumber s.memory = "0" ∧ (s.run ["CLR", "ANS"]).display.text = "0" := by
  decide +kernel

end DeskCalc
