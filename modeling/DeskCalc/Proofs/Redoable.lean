import DeskCalc.Proofs.Counting
import Mathlib.Data.List.DropRight

/-!
# What can be redone

**Theorem (`future_of_run`).** After any presses, redo can restore one display for each undo that took
effect since the last press that clears the future, less one for each redo that took effect since. Most
presses clear the future, also those that leave the display as it is. Undo, redo and the memory keys
do not, and neither does a key that evaluates if it finds an error.

An undo or redo takes effect if it moves along the timeline at all. `future_of_clears` and
`future_of_spares` say what one press does to the future; the theorem follows by induction from the
last press of a run.
-/

namespace DeskCalc

/-- The texts of the memory keys. -/
def Key.storing : List String := ["M", "M+", "M-"]

namespace History

variable {α : Type}

theorem future_change [DecidableEq α] (limit : Nat) (x : α) (h : History α) :
    (h.change limit x).future = [] := by
  unfold change
  split <;> rfl

/-- An undo adds to the future exactly if it does anything. -/
theorem length_future_undo [DecidableEq α] (h : History α) :
    h.undo.future.length = h.future.length + if h.undo ≠ h then 1 else 0 := by
  obtain ⟨past, present, future⟩ := h
  cases past with
  | nil => simp [undo]
  | cons x earlier => simp [undo]

/-- A redo does something exactly if there is a value to restore. -/
theorem redo_ne_iff (limit : Nat) (h : History α) : h.redo limit ≠ h ↔ h.future ≠ [] := by
  obtain ⟨past, present, future⟩ := h
  cases future with
  | nil => simp [redo]
  | cons x later => simp [redo]

/-- A redo takes from the future exactly if it does anything. -/
theorem length_future_redo [DecidableEq α] (limit : Nat) (h : History α) :
    (h.redo limit).future.length + (if h.redo limit ≠ h then 1 else 0) = h.future.length := by
  rw [future_redo, List.length_tail]
  by_cases hf : h.future = []
  · have : ¬ h.redo limit ≠ h := fun hne => (redo_ne_iff limit h).1 hne hf
    rw [if_neg this, hf]
    rfl
  · rw [if_pos ((redo_ne_iff limit h).2 hf)]
    exact Nat.sub_add_cancel (List.length_pos_of_ne_nil hf)

end History

namespace Session

/-! ## Which presses clear the future -/

namespace Press

/-- The press clears the future: its key is not undo, redo or a memory key, and does not ask for the
value of an error. -/
def clears (p : Press) : Bool :=
  decide (p.text ∉ "Undo" :: "Redo" :: Key.storing) &&
    !(decide (p.text ∈ Key.evaluating) && p.before.display.isError)

/-- The press moves along the timeline or changes it. -/
def takesEffect (p : Press) : Bool :=
  decide ((p.before.press p.text).history ≠ p.before.history)

/-- The press is an undo that takes effect. -/
def undoes (p : Press) : Bool := decide (p.text = "Undo") && p.takesEffect

/-- The press is a redo that takes effect. -/
def redoes (p : Press) : Bool := decide (p.text = "Redo") && p.takesEffect

end Press

/-! ## One press -/

theorem remembers_of_mem {text : String} (h : text ∈ Key.storing) :
    ∃ combine, Remembers text combine := by
  simp only [Key.storing, List.mem_cons, List.not_mem_nil, or_false] at h
  rcases h with rfl | rfl | rfl
  · exact ⟨_, .store⟩
  · exact ⟨_, .add⟩
  · exact ⟨_, .subtract⟩

/-- The memory keys change the memory alone. -/
theorem press_storing {text : String} (ht : text ∈ Key.storing) (s : Session) :
    s.press text = { s with memory := (s.press text).memory } := by
  obtain ⟨combine, hcombine⟩ := remembers_of_mem ht
  rw [hcombine.press_eq]
  exact updateMemory_eq s combine

theorem history_store {text : String} (ht : text ∈ Key.storing) (s : Session) :
    (s.press text).history = s.history := by
  rw [press_storing ht s]

/-- An error has no value to ask for. -/
theorem press_error {s : Session} {text : String} (ht : text ∈ Key.evaluating)
    (hd : s.display.isError = true) : s.press text = s := by
  rw [(evaluates_of_mem ht).press_eq, evaluate_error hd]

theorem future_replace (s : Session) (d : Display) : (s.replace d).history.future = [] :=
  History.future_change _ _ _

theorem future_settle (s : Session) (result : Except CalcError Float) :
    (s.settle result).history.future = [] := by
  cases result <;> exact future_replace _ _

theorem future_negate (s : Session) : s.negate.history.future = [] := by
  unfold negate
  split <;> exact future_replace _ _

namespace Press

variable {p : Press}

theorem clears_iff :
    p.clears = true ↔ p.text ∉ "Undo" :: "Redo" :: Key.storing ∧
      (p.text ∈ Key.evaluating → p.before.display.isError = false) := by
  simp [clears, or_iff_not_imp_left]

/-- A press that clears the future leaves nothing to redo, whatever it does to the display. -/
theorem future_of_clears (h : p.clears = true) :
    (p.before.press p.text).history.future = [] := by
  obtain ⟨s, text⟩ := p
  obtain ⟨hspares, herror⟩ := clears_iff.1 h
  show (s.pressKey (Key.ofText text)).history.future = []
  have hevaluates : (Key.ofText text).evaluates = true → s.display.isError = false := fun hkey =>
    herror ((Key.evaluates_ofText_iff text).1 hkey)
  have hbutton : ∀ b, Key.ofText text = .button b → b ≠ .evaluate →
      b.label ∉ "Undo" :: "Redo" :: Key.storing := fun b hkey hb =>
    Key.text_of_ofText hkey hb ▸ hspares
  cases hkey : Key.ofText text with
  | button b =>
    cases b with
    | clear | clearEntry | answer => exact future_replace _ _
    | negate => exact future_negate s
    | evaluate =>
      show (s.evaluate none).history.future = []
      rw [evaluate_eq (hevaluates (hkey ▸ rfl))]
      exact future_settle _ _
    | memoryStore | memoryAdd | memorySubtract | undo | redo =>
      exact absurd (by decide) (hbutton _ hkey nofun)
  | constant c => exact future_replace _ _
  | function f =>
    show (s.evaluate (some f)).history.future = []
    rw [evaluate_eq (hevaluates (hkey ▸ rfl))]
    exact future_settle _ _
  | text more => exact future_replace _ _

/-- Any other press adds to the future what an undo brings, and takes from it what a redo restores. -/
theorem future_of_spares (h : p.clears = false) :
    (p.before.press p.text).history.future.length + (if p.redoes then 1 else 0) =
      p.before.history.future.length + if p.undoes then 1 else 0 := by
  obtain ⟨s, text⟩ := p
  by_cases hundo : text = "Undo"
  · subst hundo
    have hpress : (s.press "Undo").history = s.history.undo := by rw [press_undo]
    simp [undoes, redoes, takesEffect, hpress, History.length_future_undo]
  by_cases hredo : text = "Redo"
  · subst hredo
    have hpress : (s.press "Redo").history = s.history.redo s.limit := by rw [press_redo]
    have hlength := History.length_future_redo s.limit s.history
    simpa [undoes, redoes, takesEffect, hpress] using hlength
  have hsame : (s.press text).history = s.history := by
    by_cases hstore : text ∈ Key.storing
    · exact history_store hstore s
    · have : text ∈ Key.evaluating ∧ s.display.isError = true := by
        simpa [clears, hundo, hredo, hstore] using h
      rw [press_error this.1 this.2]
  simp [undoes, redoes, hundo, hredo, hsame]

theorem redoes_iff_future (s : Session) :
    redoes ⟨s, "Redo"⟩ = true ↔ s.history.future ≠ [] := by
  rw [← History.redo_ne_iff s.limit s.history, redoes, takesEffect, press_redo]
  simp

end Press

/-! ## Runs -/

theorem presses_snoc (s : Session) (texts : List String) (text : String) :
    s.presses (texts ++ [text]) = s.presses texts ++ [⟨s.run texts, text⟩] := by
  induction texts generalizing s with
  | nil => rfl
  | cons first rest ih => exact congrArg (⟨s, first⟩ :: ·) (ih (s.press first))

/-- The presses of a run behind the last one that clears the future. -/
def sinceCleared (s : Session) (texts : List String) : List Press :=
  (s.presses texts).rtakeWhile fun p => !p.clears

/-- Presses that do not clear the future keep its balance of undos and redos. -/
theorem balance_run {s : Session} (hs : s.history.future = []) (texts : List String) :
    (s.run texts).history.future.length + (s.sinceCleared texts).countP Press.redoes =
      (s.sinceCleared texts).countP Press.undoes := by
  induction texts using List.reverseRecOn with
  | nil => simp [sinceCleared, presses, run_nil, hs]
  | append_singleton texts text ih =>
    rw [run_append, run_cons, run_nil, sinceCleared, presses_snoc]
    cases hclears : Press.clears ⟨s.run texts, text⟩ with
    | true =>
      rw [List.rtakeWhile_concat_neg _ _ _ (by simp [hclears])]
      have hnone := Press.future_of_clears hclears
      simpa using hnone
    | false =>
      rw [List.rtakeWhile_concat_pos _ _ _ (by simp [hclears]), List.countP_append,
        List.countP_append, List.countP_singleton, List.countP_singleton]
      have hstep := Press.future_of_spares hclears
      dsimp only at hstep
      rw [sinceCleared] at ih
      omega

theorem future_redos (s : Session) (k : Nat) :
    (s.run (List.replicate k "Redo")).history.future = s.history.future.drop k := by
  induction k generalizing s with
  | zero => rfl
  | succ k ih =>
    rw [List.replicate_succ, run_cons, ih, press_redo, ← List.drop_tail]
    exact congrArg (List.drop k) (History.future_redo _ _)

/-- As many redos in a row take effect as there are displays in the future. -/
theorem redoes_iff (s : Session) (k : Nat) :
    Press.redoes ⟨s.run (List.replicate k "Redo"), "Redo"⟩ = true ↔ k < s.history.future.length := by
  rw [Press.redoes_iff_future, future_redos, ne_eq, List.drop_eq_nil_iff, not_le]

/-- **What can be redone.** After any presses, as many redos in a row take effect as there were undos
that took effect since the last press that cleared the future, or since the start, less the redos that
took effect since. So there is nothing to redo right behind a press that clears the future; and memory
keys leave what can be redone as it is. -/
theorem future_of_run (settings : SessionSettings) (texts : List String) :
    let s := (start settings).run texts
    let since := (start settings).sinceCleared texts
    s.history.future.length + since.countP Press.redoes = since.countP Press.undoes ∧
      (∀ k, Press.redoes ⟨s.run (List.replicate k "Redo"), "Redo"⟩ = true ↔
        k < s.history.future.length) ∧
      (∀ text, Press.clears ⟨s, text⟩ = true → (s.press text).history.future = []) ∧
      ∀ text ∈ Key.storing, (s.press text).history.future = s.history.future := by
  intro s since
  refine ⟨balance_run rfl texts, redoes_iff s, fun text h => Press.future_of_clears h, ?_⟩
  exact fun text ht => congrArg History.future (history_store ht s)

/-- With room for two displays: `sqrt` and `M` between the undos and redos clear nothing, and adding
an empty text clears the future without a change of the display. -/
theorem future_of_undone_division :
    let s := (start ⟨"Error", 2⟩).run ["1", "/0", "=", "sqrt", "Undo", "Undo", "M", "Redo"]
    let since := (start ⟨"Error", 2⟩).sinceCleared
      ["1", "/0", "=", "sqrt", "Undo", "Undo", "M", "Redo"]
    (since.countP Press.undoes = 2 ∧ since.countP Press.redoes = 1 ∧
        Press.clears ⟨s, ""⟩ = true ∧ "M+" ∈ Key.storing) ∧
      s.history.future.length = 1 ∧ (s.press "").display = s.display ∧
      (s.press "").history.future = [] ∧ (s.press "M+").history.future = s.history.future := by
  intro s since
  have hundos : since.countP Press.undoes = 2 := by decide +kernel
  have hredos : since.countP Press.redoes = 1 := by decide +kernel
  have hclears : Press.clears ⟨s, ""⟩ = true := by decide +kernel
  have hdisplay : (s.press "").display = s.display := by decide +kernel
  have hstore : "M+" ∈ Key.storing := by decide
  obtain ⟨hbalance, -, hnone, hkept⟩ :=
    future_of_run ⟨"Error", 2⟩ ["1", "/0", "=", "sqrt", "Undo", "Undo", "M", "Redo"]
  have hlength : s.history.future.length + 1 = 2 := hundos ▸ hredos ▸ hbalance
  exact ⟨⟨hundos, hredos, hclears, hstore⟩, Nat.succ.inj hlength, hdisplay, hnone "" hclears,
    hkept "M+" hstore⟩

end Session

end DeskCalc
