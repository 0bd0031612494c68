import DeskCalc.Proofs.Memory
import DeskCalc.Proofs.Redoable

/-!
# The registers as folds of the trace

**Theorem (`registers_of_run`).** What a user sees of a run, the display before each press and the text
pressed, determines both registers. The answer is the value of the latest evaluation that succeeded, and
zero before the first one; the memory is what the memory keys make, one after the other, of zero and the
plain numbers shown. No other press touches a register, so undo and redo roll nothing back.

Everything is said of one press (`answer_press_eq`, `memory_press_eq`) and carried over to runs by
induction from the last press.
-/

namespace DeskCalc

namespace Session

/-! ## What is seen of a press -/

/-- What a user sees of a press: the display that it finds, and its text. -/
structure Sight where
  shown : Display
  text : String

namespace Sight

/-- The value that the press evaluates to, if it asks for one and there is one. -/
def value? (p : Sight) : Option Float :=
  if p.text ∈ Key.evaluating ∧ p.shown.isError = false then
    (applyAfter (Function.ofName? p.text) (calculate p.shown.text)).toOption
  else none

/-- The plain number shown, if it is no error. -/
def number? (p : Sight) : Option Float :=
  if p.shown.isError then none else plainNumber p.shown.text

/-- What the press makes of the memory. -/
def remember (memory : Float) (p : Sight) : Float :=
  match p.text, p.number? with
  | "M", some x => x
  | "M+", some x => memory + x
  | "M-", some x => memory - x
  | _, _ => memory

/-- Without a memory key on a plain number, nothing. -/
theorem remember_of_storing {p : Sight} (h : p.text ∈ Key.storing → p.number? = none)
    (memory : Float) : remember memory p = memory := by
  unfold remember
  split
  case h_4 => rfl
  all_goals
    next htext hnumber =>
    rw [h (htext ▸ by decide)] at hnumber
    cases hnumber

end Sight

/-- What a press of a text would be seen as now. -/
def sight (s : Session) (text : String) : Sight := ⟨s.display, text⟩

/-- What is seen of the presses of a run, in order. -/
def trace (s : Session) (texts : List String) : List Sight :=
  (s.presses texts).map fun p => p.before.sight p.text

theorem trace_snoc (s : Session) (texts : List String) (text : String) :
    s.trace (texts ++ [text]) = s.trace texts ++ [(s.run texts).sight text] := by
  rw [trace, presses_snoc, List.map_append]
  rfl

/-! ## One press -/

section Press

variable {s : Session} {text : String}

/-- Only a key that evaluates touches the answer. -/
theorem answer_press_of_not_mem (h : text ∉ Key.evaluating) :
    (s.press text).answer = s.answer := by
  have hkey : (Key.ofText text).evaluates ≠ true := fun hkey =>
    h ((Key.evaluates_ofText_iff text).1 hkey)
  unfold press
  cases hof : Key.ofText text with
  | button b =>
    cases b with
    | evaluate => exact absurd (by rw [hof]; rfl) hkey
    | memoryStore | memoryAdd | memorySubtract =>
      show (s.updateMemory _).answer = s.answer
      rw [updateMemory_eq]
    | negate =>
      show s.negate.answer = s.answer
      unfold negate
      split <;> rfl
    | clear | clearEntry | answer | undo | redo => rfl
  | function f => exact absurd (by rw [hof]; rfl) hkey
  | constant c => rfl
  | text more => rfl

theorem value?_eq_some_iff {x : Float} :
    (s.sight text).value? = some x ↔ text ∈ Key.evaluating ∧ s.display.isError = false ∧
      applyAfter (Function.ofName? text) (calculate s.display.text) = .ok x := by
  unfold Sight.value? sight
  dsimp only
  split
  · next h =>
    cases applyAfter (Function.ofName? text) (calculate s.display.text) <;>
      simp [Except.toOption, h]
  · next h => simpa using fun ht hd => absurd ⟨ht, hd⟩ h

/-- A value that is seen is shown and kept as the answer. -/
theorem press_of_value? {x : Float} (h : (s.sight text).value? = some x) :
    s.press text = { s with answer := x }.edit (formatNumber x) := by
  obtain ⟨ht, hd, hx⟩ := value?_eq_some_iff.1 h
  rw [(evaluates_of_mem ht).press_settle hd, hx]
  rfl

/-- Without a value that is seen, the answer stays. -/
theorem answer_press_of_value?_eq_none (h : (s.sight text).value? = none) :
    (s.press text).answer = s.answer := by
  by_cases ht : text ∈ Key.evaluating
  · cases hd : s.display.isError with
    | true => rw [press_error ht hd]
    | false =>
      rw [(evaluates_of_mem ht).press_settle hd]
      cases hx : applyAfter (Function.ofName? text) (calculate s.display.text) with
      | ok x =>
        rw [value?_eq_some_iff.2 ⟨ht, hd, hx⟩] at h
        cases h
      | error e => rfl
  · exact answer_press_of_not_mem ht

/-- The answer after a press, by what is seen of it. -/
theorem answer_press_eq (s : Session) (text : String) :
    (s.press text).answer = (s.sight text).value?.getD s.answer := by
  cases h : (s.sight text).value? with
  | none => exact answer_press_of_value?_eq_none h
  | some x =>
    rw [press_of_value? h]
    rfl

/-- The memory after a press, by what is seen of it. -/
theorem memory_press_eq (s : Session) (text : String) :
    (s.press text).memory = (s.sight text).remember s.memory := by
  by_cases ht : ∃ combine, Remembers text combine
  · obtain ⟨combine, ht⟩ := ht
    have hnumber : (s.sight text).number? = s.shown? := rfl
    rw [ht.memory_eq, Sight.remember, hnumber]
    cases s.shown? <;> cases ht <;> rfl
  · rw [memory_press (not_exists.1 ht),
      Sight.remember_of_storing fun hmem => absurd (remembers_of_mem hmem) ht]

end Press

/-! ## Runs -/

theorem answer_run (s : Session) (texts : List String) :
    (s.run texts).answer = ((s.trace texts).filterMap Sight.value?).getLastD s.answer := by
  induction texts using List.reverseRecOn with
  | nil => rfl
  | append_singleton texts text ih =>
    rw [run_append, run_cons, run_nil, answer_press_eq, trace_snoc, List.filterMap_append, ih]
    cases h : ((s.run texts).sight text).value? with
    | none => simp [h]
    | some x => simp [h]

theorem memory_run (s : Session) (texts : List String) :
    (s.run texts).memory = (s.trace texts).foldl Sight.remember s.memory := by
  induction texts using List.reverseRecOn with
  | nil => rfl
  | append_singleton texts text ih =>
    rw [run_append, run_cons, run_nil, memory_press_eq, trace_snoc, List.foldl_append, ih]
    rfl

/-- **The registers are folds of the trace.** After any presses, the answer is the value of the latest
evaluation that succeeded, or zero if none did, and the memory is what the memory keys make of zero and
the plain numbers shown. A value that a press evaluates to is shown by it. A press that evaluates to
nothing keeps the answer, one that is no memory key on a plain number keeps the memory, and a memory key
keeps the answer, the display and both stacks of the history. -/
theorem registers_of_run (settings : SessionSettings) (texts : List String) :
    let s := (start settings).run texts
    let trace := (start settings).trace texts
    s.answer = (trace.filterMap Sight.value?).getLastD 0 ∧
      s.memory = trace.foldl Sight.remember 0 ∧
      ∀ text,
        (∀ x, (s.sight text).value? = some x →
          (s.press text).answer = x ∧ (s.press text).display = ⟨formatNumber x, false⟩) ∧
        ((s.sight text).value? = none → (s.press text).answer = s.answer) ∧
        ((text ∈ Key.storing → (s.sight text).number? = none) →
          (s.press text).memory = s.memory) ∧
        (text ∈ Key.storing → (s.press text).answer = s.answer ∧
          (s.press text).history = s.history) := by
  intro s trace
  refine ⟨answer_run _ texts, memory_run _ texts, fun text => ⟨fun x hx => ?_,
    answer_press_of_value?_eq_none, fun hnumber => ?_, fun ht => ?_⟩⟩
  · rw [press_of_value? hx]
    exact ⟨rfl, display_edit _ _⟩
  · rw [memory_press_eq, Sight.remember_of_storing hnumber]
  · rw [press_storing ht s]
    exact ⟨rfl, rfl⟩

/-- With a marker that reads as a number: the sum is added to the memory twice, undone and divided by
zero, and neither register notices the last three presses. Of a sum in the display a press of the root
makes the answer, and of a difference below zero it makes none. -/
theorem registers_of_division_undone :
    let s₀ := (start ⟨"7", 2⟩).run ["9-6"]
    let s := (start ⟨"7", 2⟩).run ["9-6", "=", "M+", "M+", "Undo", "/0", "="]
    let rooted := (start ⟨"7", 2⟩).run ["9+7", "sqrt", "CLR", "6-9"]
    ((s₀.sight "=").value? = some 3 ∧ (s.sight "=").value? = none ∧
        (s.sight "M").number? = none ∧ "M" ∈ Key.storing) ∧
      (s.answer = 3 ∧ s.memory = 6 ∧ (s₀.press "=").answer = 3 ∧
        (s₀.press "=").display = ⟨formatNumber 3, false⟩ ∧ (s.press "=").answer = s.answer ∧
        (s.press "M").memory = s.memory ∧ (s.press "M").history = s.history) ∧
      ((rooted.sight "abs").value? = some 3 ∧ (rooted.sight "sqrt").value? = none) ∧
      rooted.answer = 4 ∧ (rooted.press "abs").answer = 3 ∧
      (rooted.press "abs").display = ⟨formatNumber 3, false⟩ ∧
      (rooted.press "sqrt").answer = rooted.answer := by
  intro s₀ s rooted
  have hvalue : (s₀.sight "=").value? = some 3 := by decide +kernel
  have hnone : (s.sight "=").value? = none := by decide +kernel
  have hnumber : (s.sight "M").number? = none := by decide +kernel
  have hstore : "M" ∈ Key.storing := by decide
  have habs : (rooted.sight "abs").value? = some 3 := by decide +kernel
  have hroot : (rooted.sight "sqrt").value? = none := by decide +kernel
  obtain ⟨-, -, hpress₀⟩ := registers_of_run ⟨"7", 2⟩ ["9-6"]
  obtain ⟨hanswer, hmemory, hpress⟩ :=
    registers_of_run ⟨"7", 2⟩ ["9-6", "=", "M+", "M+", "Undo", "/0", "="]
  obtain ⟨hrooted, -, hpressRooted⟩ :=
    registers_of_run ⟨"7", 2⟩ ["9+7", "sqrt", "CLR", "6-9"]
  obtain ⟨hshown, -⟩ := hpress₀ "="
  obtain ⟨-, hkept, -⟩ := hpress "="
  obtain ⟨-, -, hmemoryKept, hhistory⟩ := hpress "M"
  obtain ⟨hshownAbs, -⟩ := hpressRooted "abs"
  obtain ⟨-, hkeptRoot, -⟩ := hpressRooted "sqrt"
  refine ⟨⟨hvalue, hnone, hnumber, hstore⟩, ⟨hanswer.trans ?_, hmemory.trans ?_,
    (hshown 3 hvalue).1, (hshown 3 hvalue).2, hkept hnone, hmemoryKept fun _ => hnumber,
    (hhistory hstore).2⟩, ⟨habs, hroot⟩, hrooted.trans ?_, (hshownAbs 3 habs).1,
    (hshownAbs 3 habs).2, hkeptRoot hroot⟩
  · decide +kernel
  · decide +kernel
  · decide +kernel

end Session

end DeskCalc
