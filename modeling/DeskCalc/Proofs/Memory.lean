import DeskCalc.Proofs.Press
import DeskCalc.Proofs.Sums
import DeskCalc.Proofs.Timeline

/-!
# The memory register

**Theorem (`memory_of_run`).** The memory is finite as long as no press of `M+` or `M-` makes it
overflow: as long as the exact sum or difference of the memory and the number shown stays below the
threshold of the doubles. A press that overflows leaves it infinite, and infinite it stays until `M`
stores a number again. It is never NaN.

A memory key works with the plain number shown, and that number is finite (`isFinite_shown`). So an
infinity can come only from the addition itself, whose result nothing checks. It takes three presses
(`memory_overflows`).
-/

namespace DeskCalc

theorem isFinite_plainNumber {text : String} {x : Float} (h : plainNumber text = some x) :
    x.isFinite = true := by
  unfold plainNumber at h
  split at h
  · exact (Option.filter_eq_some_iff.1 h).2
  · cases h

namespace Session

open Binary64

variable {s : Session} {text : String} {x : Float}

/-- The number that the memory keys work with: the plain number shown, if it is no error. -/
def shown? (s : Session) : Option Float :=
  if s.display.isError then none else plainNumber s.display.text

theorem isFinite_shown (h : s.shown? = some x) : x.isFinite = true := by
  unfold shown? at h
  split at h
  · cases h
  · exact isFinite_plainNumber h

theorem memory_updateMemory (s : Session) (combine : Float → Float → Float) :
    (s.updateMemory combine).memory = (s.shown?.map (combine s.memory)).getD s.memory := by
  unfold updateMemory shown?
  split
  · rfl
  · cases plainNumber s.display.text <;> rfl

theorem Remembers.memory_eq {combine : Float → Float → Float} (h : Remembers text combine)
    (s : Session) : (s.press text).memory = (s.shown?.map (combine s.memory)).getD s.memory := by
  rw [h.press_eq, memory_updateMemory]

theorem memory_evaluate (s : Session) (f : Option Function) : (s.evaluate f).memory = s.memory := by
  cases hd : s.display.isError with
  | true => rw [evaluate_error hd]
  | false =>
    rw [evaluate_eq hd]
    cases applyAfter f (calculate s.display.text) <;> rfl

/-- No other key touches the memory. -/
theorem memory_press (h : ∀ combine, ¬ Remembers text combine) :
    (s.press text).memory = s.memory := by
  unfold press
  cases hkey : Key.ofText text with
  | button b =>
    cases b with
    | memoryStore =>
      obtain rfl : text = "M" := Key.text_of_ofText hkey nofun
      exact absurd .store (h _)
    | memoryAdd =>
      obtain rfl : text = "M+" := Key.text_of_ofText hkey nofun
      exact absurd .add (h _)
    | memorySubtract =>
      obtain rfl : text = "M-" := Key.text_of_ofText hkey nofun
      exact absurd .subtract (h _)
    | evaluate => exact memory_evaluate s none
    | negate =>
      show s.negate.memory = s.memory
      unfold negate
      split <;> rfl
    | clear | clearEntry | answer | undo | redo => rfl
  | function f => exact memory_evaluate s (some f)
  | constant c => rfl
  | text text => rfl

/-! ## One press -/

/-- No press leaves in the memory what is no number. -/
theorem isNaN_press (hm : s.memory.isNaN = false) (text : String) :
    (s.press text).memory.isNaN = false := by
  by_cases htext : ∃ combine, Remembers text combine
  · obtain ⟨combine, htext⟩ := htext
    rw [htext.memory_eq]
    cases hshown : s.shown? with
    | none => exact hm
    | some x =>
      have hx := isFinite_shown hshown
      cases htext with
      | store => exact isNaN_of_isFinite hx
      | add => exact isNaN_add hm hx
      | subtract => exact isNaN_sub hm hx
  · rwa [memory_press (not_exists.1 htext)]

/-- A press makes the memory overflow: what `M+` or `M-` would put there is past the doubles. -/
def Overflows (s : Session) (text : String) : Prop :=
  ∃ x, s.shown? = some x ∧
    (text = "M+" ∧ thresholdUnits ≤ (units s.memory + units x).natAbs ∨
      text = "M-" ∧ thresholdUnits ≤ (units s.memory - units x).natAbs)

theorem not_overflows (hadd : text ≠ "M+") (hsub : text ≠ "M-") : ¬ s.Overflows text := by
  rintro ⟨x, _, ⟨rfl, _⟩ | ⟨rfl, _⟩⟩
  · exact hadd rfl
  · exact hsub rfl

/-- A finite memory stays finite, except where it overflows. -/
theorem isFinite_press_iff (hm : s.memory.isFinite = true) (text : String) :
    (s.press text).memory.isFinite = true ↔ ¬ s.Overflows text := by
  by_cases htext : ∃ combine, Remembers text combine
  · obtain ⟨combine, htext⟩ := htext
    rw [htext.memory_eq, Overflows]
    cases hshown : s.shown? with
    | none => exact iff_of_true hm (by simp)
    | some x =>
      have hx := isFinite_shown hshown
      cases htext with
      | store => exact iff_of_true hx (by simp)
      | add => simpa using isFinite_add_iff hm hx
      | subtract => simpa using isFinite_sub_iff hm hx
  · rw [memory_press (not_exists.1 htext)]
    refine iff_of_true hm (not_overflows ?_ ?_)
    · rintro rfl
      exact htext ⟨_, .add⟩
    · rintro rfl
      exact htext ⟨_, .subtract⟩

/-- A memory that is not finite keeps what it has until a number is stored. -/
theorem memory_press_of_not_isFinite (hm : s.memory.isFinite = false) (text : String) :
    (s.press text).memory = if text = "M" then s.shown?.getD s.memory else s.memory := by
  by_cases htext : ∃ combine, Remembers text combine
  · obtain ⟨combine, htext⟩ := htext
    rw [htext.memory_eq]
    cases hshown : s.shown? with
    | none => exact (ite_self _).symm
    | some x =>
      have hx := isFinite_shown hshown
      cases htext with
      | store => rfl
      | add => exact add_of_not_isFinite hm hx
      | subtract => exact sub_of_not_isFinite hm hx
  · have hne : text ≠ "M" := by
      rintro rfl
      exact htext ⟨_, .store⟩
    rw [memory_press (not_exists.1 htext), if_neg hne]

/-! ## Runs -/

/-- No press of a run makes the memory overflow. -/
def NeverOverflows (s : Session) : List String → Prop
  | [] => True
  | text :: rest => ¬ s.Overflows text ∧ (s.press text).NeverOverflows rest

theorem isFinite_run (hm : s.memory.isFinite = true) {texts : List String}
    (h : s.NeverOverflows texts) : (s.run texts).memory.isFinite = true := by
  induction texts generalizing s with
  | nil => exact hm
  | cons text rest ih => exact ih ((isFinite_press_iff hm text).2 h.1) h.2

/-- **The memory is finite until it overflows.** After any presses the memory is a number or
infinite, and finite if no press made it overflow. From a finite memory exactly the presses that
overflow lead to an infinite one, and that one changes only when `M` stores the number shown. -/
theorem memory_of_run (settings : SessionSettings) (texts : List String) :
    let s := (start settings).run texts
    s.memory.isNaN = false ∧
    ((start settings).NeverOverflows texts → s.memory.isFinite = true) ∧
    ∀ text,
      (s.memory.isFinite = true → ((s.press text).memory.isFinite = false ↔ s.Overflows text)) ∧
      (s.memory.isFinite = false →
        (s.press text).memory = if text = "M" then s.shown?.getD s.memory else s.memory) := by
  intro s
  have hstart : (start settings).memory.isFinite = true := by
    show (0 : Float).isFinite = true
    rw [zero_eq_ofParts]
    exact isFinite_ofParts false (by decide)
  refine ⟨?_, isFinite_run hstart, fun text => ⟨fun hm => ?_, fun hm => ?_⟩⟩
  · exact run_keeps (P := fun s => s.memory.isNaN = false) (fun s text h => isNaN_press h text)
      (isNaN_of_isFinite hstart) texts
  · rw [← not_iff_not, ← isFinite_press_iff hm, Bool.not_eq_false]
  · exact memory_press_of_not_isFinite hm text

/-! ## Three presses to infinity -/

/-- The numeral of 308 nines. It reads as a double, and twice that double is none. -/
def nines : Numeral := ⟨List.replicate 308 '9', []⟩

theorem shown_press_text (settings : SessionSettings) (h : Key.ofText text = .text text) :
    ((start settings).press text).shown? = plainNumber text := by
  have hdisplay : ((start settings).press text).display = ⟨"" ++ text, false⟩ := by
    rw [press_key h]
    exact display_edit _ _
  rw [shown?, hdisplay, String.empty_append]
  rfl

theorem shown_nines :
    ((start {}).press (String.ofList nines.whole)).shown? = some nines.toFloat := by
  rw [shown_press_text {} (by decide +kernel), plainNumber, tokenize, String.toList_ofList]
  decide +kernel

/-- The memory keys leave the display alone. -/
theorem Remembers.shown_eq {combine : Float → Float → Float} (h : Remembers text combine)
    (s : Session) : (s.press text).shown? = s.shown? := by
  rw [h.press_eq, updateMemory]
  split
  · rfl
  · split <;> rfl

/-- After `M` the number shown is in the memory, and still shown. -/
theorem press_store (h : s.shown? = some x) :
    (s.press "M").shown? = some x ∧ (s.press "M").memory = x := by
  rw [Remembers.store.shown_eq, Remembers.store.memory_eq, h]
  exact ⟨rfl, rfl⟩

theorem not_isFinite_nines : (nines.toFloat + nines.toFloat).isFinite = false := by decide +kernel

/-- Any number shown can be doubled in the memory, without a look at the result. -/
theorem run_store_add (h : (s.press text).shown? = some x) :
    (s.run [text, "M", "M+"]).memory = x + x := by
  obtain ⟨hshown, hmemory⟩ := press_store h
  rw [run_cons, run_cons, run_cons, run_nil, Remembers.add.memory_eq, hshown, hmemory]
  rfl

/-- With the 308 nines in the memory, adding them once more overflows. -/
theorem memory_of_nines :
    let s := (start {}).run [String.ofList nines.whole, "M"]
    let s' := s.press "M+"
    s.memory.isNaN = false ∧
      ((start {}).NeverOverflows [String.ofList nines.whole, "M"] ∧ s.memory.isFinite = true) ∧
      (s'.memory.isFinite = false ∧ s.Overflows "M+") ∧ (s'.press "M-").memory = s'.memory := by
  have hshown := shown_nines
  have hadd : String.ofList nines.whole ≠ "M+" := by decide +kernel
  have hsub : String.ofList nines.whole ≠ "M-" := by decide +kernel
  -- Nothing below looks at the digits.
  generalize String.ofList nines.whole = text at hshown hadd hsub ⊢
  have hnever : (start {}).NeverOverflows [text, "M"] :=
    ⟨not_overflows hadd hsub, not_overflows (by decide) (by decide), trivial⟩
  have hdouble := run_store_add hshown
  have hall := memory_of_run {} [text, "M"]
  have hall' := memory_of_run {} [text, "M", "M+"]
  have hs' : (start {}).run [text, "M", "M+"] = ((start {}).run [text, "M"]).press "M+" := by
    rw [run_cons, run_cons, run_cons, run_nil, run_cons, run_cons, run_nil]
  rw [hs'] at hdouble hall'
  generalize (start {}).run [text, "M"] = s at hdouble hall hall' ⊢
  obtain ⟨hnan, hfinite, hpress⟩ := hall
  obtain ⟨-, -, hagain⟩ := hall'
  have hfin := hfinite hnever
  have hinf : (s.press "M+").memory.isFinite = false := by rw [hdouble, not_isFinite_nines]
  have hkept := (hagain "M-").2 hinf
  rw [if_neg (by decide)] at hkept
  exact ⟨hnan, ⟨hnever, hfin⟩, ⟨hinf, ((hpress "M+").1 hfin).1 hinf⟩, hkept⟩

/-- Storing 308 nines and adding them to the memory leaves it infinite. -/
theorem memory_overflows :
    ((start {}).run [String.ofList nines.whole, "M", "M+"]).memory.isFinite = false := by
  rw [run_store_add shown_nines, not_isFinite_nines]

end Session

end DeskCalc
