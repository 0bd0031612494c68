import DeskCalc.Proofs.Timeline

/-!
# A cleared session

**Theorem (`clear_starts_afresh`).** Behind `CLR` a session shows what a new session shows, press
for press, whatever was pressed before, and each evaluation that succeeds leaves the same answer in
both. This goes on for as long as no key recalls what the session remembers: its answer, or a display
to undo or to redo.

All other keys work on the display, and on the error marker, which no press changes. So it is enough
that two sessions agree on these two (`Alike`), and clearing brings the display of any session to that
of a new one.
-/

namespace DeskCalc

/-- The texts of the keys that bring back something from before: the answer, or another display. -/
def Key.recalling : List String := ["ANS", "Undo", "Redo"]

namespace Session

/-- The sessions show the same, now and when an evaluation fails. -/
structure Alike (s s' : Session) : Prop where
  marker : s.settings.errorMarker = s'.settings.errorMarker
  display : s.display = s'.display

namespace Alike

variable {s s' : Session}

theorem replace (h : Alike s s') (d : Display) : Alike (s.replace d) (s'.replace d) where
  marker := h.marker
  display := by rw [display_replace, display_replace]

theorem settle (h : Alike s s') (result : Except CalcError Float) :
    Alike (s.settle result) (s'.settle result) where
  marker := by rw [settings_settle, settings_settle, h.marker]
  display := by rw [display_settle, display_settle, h.marker]

/-- A key that recalls nothing shows the same in sessions that are alike. -/
theorem press (h : Alike s s') {text : String} (ht : text ∉ Key.recalling) :
    Alike (s.press text) (s'.press text) := by
  have hpaired : Paired text s s' (s.press text) (s'.press text) :=
    paired h.display fun hanswer => absurd (hanswer ▸ by decide) ht
  generalize s.press text = t, s'.press text = t' at hpaired
  cases hpaired with
  | kept => exact h
  | edited shown => exact h.replace ⟨shown, false⟩
  | stored combine x => exact ⟨h.marker, h.display⟩
  | settled result => exact h.settle result
  | undone hundo => exact absurd (hundo ▸ by decide) ht
  | redone hredo => exact absurd (hredo ▸ by decide) ht

theorem run (h : Alike s s') {texts : List String} (ht : ∀ text ∈ texts, text ∉ Key.recalling) :
    Alike (s.run texts) (s'.run texts) := by
  induction texts generalizing s s' with
  | nil => exact h
  | cons text rest ih =>
    exact ih (h.press (ht text List.mem_cons_self)) fun t hmem => ht t (List.mem_cons_of_mem _ hmem)

end Alike

/-- However it was used, a session that is cleared is like a new one. -/
theorem alike_clear (settings : SessionSettings) (earlier : List String) :
    Alike (((start settings).run earlier).press "CLR") (start settings) where
  marker := by rw [settings_press, settings_run]
  display := by rw [press_clear, display_edit]; rfl

/-- An evaluation that succeeds keeps its result as the answer. -/
theorem answer_press {s : Session} {text : String} {f : Option Function} {x : Float}
    (ht : Evaluates text f) (hd : s.display.isError = false)
    (h : applyAfter f (calculate s.display.text) = .ok x) : (s.press text).answer = x := by
  rw [ht.press_settle hd, h]
  rfl

/-- **Clearing starts afresh.** After any presses and `CLR`, keys that recall nothing show the same
after each press as in a new session; and a key that evaluates the display with success anywhere among them
leaves the same answer in both sessions, its result. -/
theorem clear_starts_afresh (settings : SessionSettings) (earlier texts : List String)
    (ht : ∀ text ∈ texts, text ∉ Key.recalling) (k : Nat) :
    let s := (((start settings).run earlier).press "CLR").run (texts.take k)
    let s' := (start settings).run (texts.take k)
    s.display = s'.display ∧
      ∀ (text : String) (f : Option Function) (x : Float), Evaluates text f →
        s.display.isError = false → applyAfter f (calculate s.display.text) = .ok x →
        (s.press text).answer = x ∧ (s'.press text).answer = x := by
  intro s s'
  have halike : Alike s s' :=
    (alike_clear settings earlier).run fun text hmem => ht text (List.mem_of_mem_take hmem)
  have hdisplay := halike.display
  refine ⟨hdisplay, fun text f x htext hd hx => ⟨answer_press htext hd hx, ?_⟩⟩
  rw [hdisplay] at hd hx
  exact answer_press htext hd hx

/-- After an error that reads as a number, undo and a stored memory, clearing forgets all of it: `2*3`
is typed as in a new session, and is `6` in both. -/
theorem clear_starts_afresh_six :
    let earlier := ["5/0", "=", "Undo", "CLR", "8", "M", "+1", "=", "1/0", "="]
    let texts := ["2", "M+", "*3", "=", "Neg"]
    let s := (((start ⟨"7", 2⟩).run earlier).press "CLR").run (texts.take 3)
    let s' := (start ⟨"7", 2⟩).run (texts.take 3)
    (∀ text ∈ texts, text ∉ Key.recalling) ∧
      (s.display.isError = false ∧ applyAfter none (calculate s.display.text) = .ok 6) ∧
      s.answer ≠ s'.answer ∧ s.display = s'.display ∧
      (s.press "=").answer = 6 ∧ (s'.press "=").answer = 6 := by
  intro earlier texts s s'
  have ht : ∀ text ∈ texts, text ∉ Key.recalling := by decide
  have hd : s.display.isError = false := by decide +kernel
  have hx : applyAfter none (calculate s.display.text) = .ok 6 := by decide +kernel
  have hdiffer : s.answer ≠ s'.answer := by decide +kernel
  obtain ⟨hdisplay, hanswer⟩ := clear_starts_afresh ⟨"7", 2⟩ earlier texts ht 3
  exact ⟨ht, ⟨hd, hx⟩, hdiffer, hdisplay, hanswer "=" none 6 .equals hd hx⟩

end Session

end DeskCalc
