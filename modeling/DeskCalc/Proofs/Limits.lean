import DeskCalc.Proofs.Press
import Mathlib.Data.List.Infix

/-!
# The history limit

**Theorem (`limit_invisible`).** Two sessions that differ only in the history limit show the same,
hold the same registers and can redo the same after every press, and the past of the one with the
lower limit is the latest part of the past of the other. This goes on until an undo finds nothing to
restore in the one session and something in the other.

The relation `Recent` between two sessions says all of this at once. A press does the same to both
(`paired`), so it is enough that `Recent` is kept by a change, an undo and a redo of the histories.
A change and a redo cut both pasts, at different lengths, but always the shorter one at the shorter
length (`Recent.recorded`).
-/

namespace DeskCalc

/-! ## Histories -/

namespace History

variable {α : Type} {limit limit' : Nat} {h h' : History α}

/-- The first history is the second one, except that it may have forgotten the earliest values of
the past. -/
structure Recent (h h' : History α) : Prop where
  past : h.past <+: h'.past
  present : h.present = h'.present
  future : h.future = h'.future

namespace Recent

theorem refl (h : History α) : Recent h h := ⟨List.prefix_refl _, rfl, rfl⟩

theorem recorded (hr : Recent h h') (hl : limit ≤ limit') :
    h.recorded limit <+: h'.recorded limit' := by
  have hjoined : h.present :: h.past <+: h'.present :: h'.past := by
    rw [hr.present]
    exact (List.prefix_cons_inj _).2 hr.past
  exact (hjoined.take limit).trans (List.take_prefix_take_left hl)

theorem change [DecidableEq α] (hr : Recent h h') (hl : limit ≤ limit') (x : α) :
    Recent (h.change limit x) (h'.change limit' x) := by
  unfold History.change
  rw [hr.present]
  split
  · exact ⟨hr.past, rfl, rfl⟩
  · exact ⟨hr.recorded hl, rfl, rfl⟩

theorem redo (hr : Recent h h') (hl : limit ≤ limit') :
    Recent (h.redo limit) (h'.redo limit') := by
  unfold History.redo
  rw [hr.future]
  split
  · exact hr
  · exact ⟨hr.recorded hl, rfl, rfl⟩

/-- An undo that finds a value in both pasts, or in neither, finds the same. -/
theorem undo (hr : Recent h h') (hp : h.past = [] → h'.past = []) : Recent h.undo h'.undo := by
  obtain ⟨past, present, future⟩ := h
  obtain ⟨past', present', future'⟩ := h'
  obtain ⟨⟨rest, rfl⟩, rfl, rfl⟩ := hr
  cases past with
  | nil =>
    obtain rfl : rest = [] := hp rfl
    exact refl _
  | cons x earlier => exact ⟨List.prefix_append _ _, rfl, rfl⟩

end Recent

end History

namespace Session

/-! ## Sessions -/

/-- The first session is the second one, except that its limit may be lower and that it may have
forgotten the earliest displays. -/
structure Recent (s s' : Session) : Prop where
  marker : s.settings.errorMarker = s'.settings.errorMarker
  limit : s.limit ≤ s'.limit
  history : s.history.Recent s'.history
  memory : s.memory = s'.memory
  answer : s.answer = s'.answer

namespace Recent

variable {s s' : Session}

theorem replace (hr : Recent s s') (d : Display) : Recent (s.replace d) (s'.replace d) :=
  { hr with history := hr.history.change hr.limit d }

theorem settle (hr : Recent s s') (result : Except CalcError Float) :
    Recent (s.settle result) (s'.settle result) := by
  cases result with
  | ok x =>
    have hx : Recent { s with answer := x } { s' with answer := x } := { hr with answer := rfl }
    exact hx.replace ⟨formatNumber x, false⟩
  | error e =>
    show Recent (s.replace ⟨s.settings.errorMarker, true⟩) (s'.replace ⟨s'.settings.errorMarker, true⟩)
    rw [hr.marker]
    exact hr.replace ⟨s'.settings.errorMarker, true⟩

/-- A press keeps the relation, unless it is an undo that runs out in one session only. -/
theorem press (hr : Recent s s') {text : String}
    (hundo : text = "Undo" → s.history.past = [] → s'.history.past = []) :
    Recent (s.press text) (s'.press text) := by
  have h : Paired text s s' (s.press text) (s'.press text) :=
    paired hr.history.present fun _ => hr.answer
  generalize s.press text = t, s'.press text = t' at h
  cases h with
  | kept => exact hr
  | edited shown => exact hr.replace ⟨shown, false⟩
  | stored combine x => exact { hr with memory := by rw [hr.memory] }
  | settled result => exact hr.settle result
  | undone htext => exact { hr with history := hr.history.undo (hundo htext) }
  | redone => exact { hr with history := hr.history.redo hr.limit }

theorem run (hr : Recent s s') {texts : List String}
    (hundo : ∀ k, texts[k]? = some "Undo" →
      (s.run (texts.take k)).history.past = [] → (s'.run (texts.take k)).history.past = []) :
    Recent (s.run texts) (s'.run texts) := by
  induction texts generalizing s s' with
  | nil => exact hr
  | cons text rest ih =>
    have hpress : Recent (s.press text) (s'.press text) :=
      hr.press fun htext => hundo 0 (congrArg some htext)
    exact ih hpress fun k => hundo (k + 1)

end Recent

/-- **The history limit is invisible** until an undo runs out. Under a lower limit the same presses
leave the same display, the same registers and the same displays to redo, and the past, latest
display first, is the first part of the past under the higher limit; provided that no undo among the
presses found an empty past under the lower limit and not under the higher one. -/
theorem limit_invisible (marker : String) {limit limit' : Nat}
    (hlimit : max limit 1 ≤ max limit' 1) (texts : List String)
    (hundo : ∀ k, texts[k]? = some "Undo" →
      ((start ⟨marker, limit⟩).run (texts.take k)).history.past = [] →
      ((start ⟨marker, limit'⟩).run (texts.take k)).history.past = []) :
    let s := (start ⟨marker, limit⟩).run texts
    let s' := (start ⟨marker, limit'⟩).run texts
    s.display = s'.display ∧ s.memory = s'.memory ∧ s.answer = s'.answer ∧
      s.history.future = s'.history.future ∧ s.history.past <+: s'.history.past := by
  intro s s'
  have hstart : Recent (start ⟨marker, limit⟩) (start ⟨marker, limit'⟩) :=
    ⟨rfl, hlimit, .refl _, rfl, rfl⟩
  have hr : Recent s s' := hstart.run hundo
  exact ⟨hr.history.present, hr.memory, hr.answer, hr.history.future, hr.history.past⟩

/-- With room for one display, which a limit of zero leaves, and for three: after an undo, a redo
and a failed evaluation the sessions differ in their pasts alone. -/
theorem limit_invisible_zero_three :
    let texts := ["1", "/0", "Undo", "Redo", "="]
    let s := (start ⟨"Error", 0⟩).run texts
    let s' := (start ⟨"Error", 3⟩).run texts
    max 0 1 ≤ max 3 1 ∧
      (∀ k, texts[k]? = some "Undo" →
        ((start ⟨"Error", 0⟩).run (texts.take k)).history.past = [] →
        ((start ⟨"Error", 3⟩).run (texts.take k)).history.past = []) ∧
      (s.history.past ≠ s'.history.past ∧ s.display = s'.display ∧
        s.history.past <+: s'.history.past) := by
  intro texts s s'
  have hundo : ∀ k, texts[k]? = some "Undo" →
      ((start ⟨"Error", 0⟩).run (texts.take k)).history.past = [] →
      ((start ⟨"Error", 3⟩).run (texts.take k)).history.past = [] := by
    intro k hk hpast
    have htwo : k = 2 := by
      rcases k with _ | _ | _ | _ | _ | k <;> simp [texts] at hk ⊢
    subst htwo
    exact absurd hpast (by decide +kernel)
  have hdiffer : s.history.past ≠ s'.history.past := by decide +kernel
  have hlimit : max 0 1 ≤ max 3 1 := by decide
  obtain ⟨hdisplay, -, -, -, hpast⟩ := limit_invisible "Error" hlimit texts hundo
  exact ⟨hlimit, hundo, hdiffer, hdisplay, hpast⟩

end Session

end DeskCalc
