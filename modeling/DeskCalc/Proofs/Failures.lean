import DeskCalc.Proofs.Timeline

/-!
# What an error display goes back to

**Theorem (`errors_of_run`).** On the timeline of a session every error shows the marker, and what
stands before it, if anything is left there, is a text that is no error and whose evaluation fails.
A press that fails to evaluate leaves the registers alone, shows the marker, and one undo brings the
text back.

The timeline changes only where a press shows something new: an edit shows a text that is no error,
and a failed evaluation shows the marker behind the text that failed (`traced_press`). Undo and redo
move along the timeline and leave it as it is, and what the limit cuts off is its oldest part.
-/

namespace DeskCalc

/-- The evaluation of a text fails: its calculation does, or a function applied to its value. -/
def Fails (text : String) : Prop :=
  (∃ e, calculate text = .error e) ∨
    ∃ x, calculate text = .ok x ∧ ∃ (f : Function) (e : DomainError), f.apply [x] = .error e

namespace History

/-- Errors on a timeline show the marker, and each stands behind a text whose evaluation fails. -/
structure Traced (marker : String) (h : History Display) : Prop where
  marked : ∀ d ∈ h.timeline, d.isError = true → d.text = marker
  caused : h.timeline.IsChain fun d d' => d'.isError = true → d.isError = false ∧ Fails d.text

variable {marker : String} {limit : Nat} {h : History Display}

theorem traced_start (marker : String) : Traced marker (start {}) where
  marked := by
    intro d hd
    obtain rfl : d = {} := List.mem_singleton.1 hd
    nofun
  caused := .singleton _

theorem Traced.congr {h' : History Display} (ht : Traced marker h)
    (heq : h'.timeline = h.timeline) : Traced marker h' where
  marked := heq ▸ ht.marked
  caused := heq ▸ ht.caused

theorem traced_change (hl : 1 ≤ limit) (ht : Traced marker h) {d : Display}
    (hmarked : d.isError = true → d.text = marker)
    (hcaused : d.isError = true → h.present.isError = false ∧ Fails h.present.text) :
    Traced marker (h.change limit d) where
  marked := by
    intro d' hd'
    rcases mem_timeline_change hl hd' with hd' | rfl
    · exact ht.marked d' hd'
    · exact hmarked
  caused := isChain_change hl ht.caused fun _ => hcaused

end History

namespace Session

/-! ## Presses -/

theorem fails_of_applyAfter {f : Option Function} {text : String} {e : CalcError}
    (h : applyAfter f (calculate text) = .error e) : Fails text := by
  have ha := applied f (calculate text)
  rw [h] at ha
  generalize hresult : calculate text = result at ha
  cases ha with
  | plain => exact .inl ⟨_, hresult⟩
  | unreached f e => exact .inl ⟨e, hresult⟩
  | noValue happly => exact .inr ⟨_, hresult, _, _, happly⟩

/-- The errors on the timeline of a session are traced. -/
def Traced (s : Session) : Prop := s.history.Traced s.settings.errorMarker

theorem traced_edit {s : Session} (ht : s.Traced) (text : String) : (s.edit text).Traced :=
  History.traced_change s.one_le_limit ht nofun nofun

theorem traced_press {s : Session} (hs : s.Sound) (ht : s.Traced) (text : String) :
    (s.press text).Traced := by
  have h := pressed s text
  generalize s.press text = s' at h
  cases h with
  | kept => exact ht
  | edited text => exact traced_edit ht text
  | stored x m _ _ _ => exact ht
  | settled f herror =>
    cases hresult : applyAfter f (calculate s.display.text) with
    | ok x => exact traced_edit ht (formatNumber x)
    | error e =>
      exact History.traced_change s.one_le_limit ht (fun _ => rfl)
        fun _ => ⟨herror, fails_of_applyAfter hresult⟩
  | undone => exact ht.congr (History.timeline_undo _)
  | redone => exact ht.congr (History.timeline_redo hs)

theorem traced_run (settings : SessionSettings) (texts : List String) :
    ((start settings).run texts).Traced := by
  have hstart : (start settings).Sound ∧ (start settings).Traced :=
    ⟨History.sound_start _ _, History.traced_start _⟩
  have hrun := run_keeps (P := fun s => s.Sound ∧ s.Traced)
    (fun s text h => ⟨sound_press h.1 text, traced_press h.1 h.2 text⟩) hstart texts
  exact hrun.2

/-! ## A failed evaluation -/

/-- A failed evaluation puts the marker behind the display and changes nothing else. -/
theorem press_fails {s : Session} {text : String} {f : Option Function} {e : CalcError}
    (ht : Evaluates text f) (hd : s.display.isError = false)
    (h : applyAfter f (calculate s.display.text) = .error e) :
    s.press text = s.replace ⟨s.settings.errorMarker, true⟩ := by
  rw [ht.press_settle hd, h]
  rfl

/-- **Errors go back to what failed.** After any presses, every error on the timeline shows the
marker, and what stands right before it is no error and fails to evaluate. A press of a key that
evaluates, where the evaluation fails, keeps both registers and shows the marker as an error; one
undo then shows the text again, and not as an error. -/
theorem errors_of_run (settings : SessionSettings) (texts : List String) :
    let s := (start settings).run texts
    (∀ d ∈ s.history.timeline, d.isError = true → d.text = settings.errorMarker) ∧
    (s.history.timeline.IsChain fun d d' => d'.isError = true →
      d.isError = false ∧ Fails d.text) ∧
    ∀ (text : String) (f : Option Function) (e : CalcError), Evaluates text f →
      s.display.isError = false → applyAfter f (calculate s.display.text) = .error e →
      (s.press text).memory = s.memory ∧ (s.press text).answer = s.answer ∧
      (s.press text).display = ⟨settings.errorMarker, true⟩ ∧
      ((s.press text).press "Undo").display = ⟨s.display.text, false⟩ := by
  intro s
  have ht : s.Traced := traced_run settings texts
  have hsettings : s.settings = settings := settings_run _ _
  rw [Traced, hsettings] at ht
  refine ⟨ht.marked, ht.caused, fun text f e htext hd hfails => ?_⟩
  rw [press_fails htext hd hfails, hsettings]
  have hne : ⟨settings.errorMarker, true⟩ ≠ s.display := fun heq => by
    rw [← heq] at hd
    cases hd
  refine ⟨rfl, rfl, History.present_change _ _ _, ?_⟩
  rw [press_undo, ← hd]
  exact History.present_undo_change s.one_le_limit hne

/-- With room for one display and a marker that reads as a number: the marker stands behind the
division by zero, and undo brings the division back. The root of a difference below zero fails alike,
although the difference has a value. -/
theorem errors_of_division_by_zero :
    let s := (start ⟨"7", 1⟩).run ["5/0"]
    let s' := (start ⟨"7", 1⟩).run ["5/0", "="]
    let below := (start ⟨"7", 1⟩).run ["4-6"]
    (s'.display ∈ s'.history.timeline ∧ s'.display.isError = true ∧ s'.display.text = "7") ∧
      (s'.history.timeline = [s.display, s'.display] ∧ Fails s.display.text) ∧
      (s.display.isError = false ∧
        applyAfter none (calculate s.display.text) = .error (.domain .divisionByZero)) ∧
      ((s.press "=").memory = s.memory ∧ (s.press "=").answer = s.answer ∧
        (s.press "=").display = ⟨"7", true⟩ ∧
        ((s.press "=").press "Undo").display = ⟨s.display.text, false⟩) ∧
      (calculate below.display.text = .ok (-2) ∧ below.display.isError = false ∧
        applyAfter (some .sqrt) (calculate below.display.text)
          = .error (.domain (.negativeSqrt (-2)))) ∧
      (below.press "sqrt").memory = below.memory ∧ (below.press "sqrt").answer = below.answer ∧
      (below.press "sqrt").display = ⟨"7", true⟩ ∧
      ((below.press "sqrt").press "Undo").display = ⟨below.display.text, false⟩ := by
  intro s s' below
  have hmem : s'.display ∈ s'.history.timeline := by decide +kernel
  have herror : s'.display.isError = true := by decide +kernel
  have htimeline : s'.history.timeline = [s.display, s'.display] := by decide +kernel
  have hd : s.display.isError = false := by decide +kernel
  have hfails : applyAfter none (calculate s.display.text) = .error (.domain .divisionByZero) := by
    decide +kernel
  have hvalue : calculate below.display.text = .ok (-2) := by decide +kernel
  have hbelow : below.display.isError = false := by decide +kernel
  have hroot : applyAfter (some .sqrt) (calculate below.display.text)
      = .error (.domain (.negativeSqrt (-2))) := by decide +kernel
  obtain ⟨hmarked, hcaused, -⟩ := errors_of_run ⟨"7", 1⟩ ["5/0", "="]
  obtain ⟨-, -, hpress⟩ := errors_of_run ⟨"7", 1⟩ ["5/0"]
  obtain ⟨-, -, hpressBelow⟩ := errors_of_run ⟨"7", 1⟩ ["4-6"]
  rw [htimeline] at hcaused
  exact ⟨⟨hmem, herror, hmarked _ hmem herror⟩,
    ⟨htimeline, (List.isChain_pair.1 hcaused herror).2⟩, ⟨hd, hfails⟩,
    hpress "=" none _ .equals hd hfails, ⟨hvalue, hbelow, hroot⟩,
    hpressBelow "sqrt" (some .sqrt) _ (.function .sqrt) hbelow hroot⟩

end Session

end DeskCalc
