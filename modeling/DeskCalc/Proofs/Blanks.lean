import DeskCalc.Proofs.Keys
import DeskCalc.Proofs.Lines
import DeskCalc.Proofs.Printing
import DeskCalc.Proofs.Scanning
import DeskCalc.Proofs.Timeline

/-!
# No blanks on the display

The words of a line have no blanks in them (`noBlank_word`), and neither have the texts of numbers
(`noBlank_formatNumber`). All that is shown is made of these and of the error marker, so a blank that
is not in the marker is never shown.

`Session.Lacks c` is the invariant: the character `c` stands neither in the marker nor in any display
on the timeline, which undo and redo can bring back. For a blank `c`, a press of a text without `c`
keeps it (`Lacks.press`), and so do runs of such presses (`Lacks.run`).
-/

namespace DeskCalc

/-! ## Words and numbers -/

/-- A text without blanks. -/
def NoBlank (cs : List Char) : Prop := ∀ c ∈ cs, isBlank c = false

instance (cs : List Char) : Decidable (NoBlank cs) :=
  List.decidableBAll (fun c => isBlank c = false) cs

theorem noBlank_nil : NoBlank [] := List.forall_mem_nil _

theorem noBlank_append {a b : List Char} (ha : NoBlank a) (hb : NoBlank b) : NoBlank (a ++ b) :=
  fun c hc => (List.mem_append.1 hc).elim (ha c) (hb c)

theorem NoBlank.notMem {cs : List Char} (h : NoBlank cs) {c : Char} (hc : isBlank c = true) :
    c ∉ cs := fun hmem => by
  rw [h c hmem] at hc
  contradiction

theorem noBlank_wordFrom {current cs w : List Char} (hcurrent : NoBlank current)
    (hw : w ∈ wordsFrom current cs) : NoBlank w := by
  have hword : NoBlank current.reverse := fun c hc => hcurrent c (List.mem_reverse.1 hc)
  induction cs generalizing current with
  | nil =>
    rw [wordsFrom] at hw
    split at hw
    · exact absurd hw List.not_mem_nil
    · rwa [List.mem_singleton.1 hw]
  | cons x cs ih =>
    rw [wordsFrom] at hw
    split at hw
    · split at hw
      · exact ih noBlank_nil hw noBlank_nil
      · rcases List.mem_cons.1 hw with rfl | hw
        · exact hword
        · exact ih noBlank_nil hw noBlank_nil
    · next hx =>
      have hlonger : NoBlank (x :: current) :=
        List.forall_mem_cons.2 ⟨Bool.eq_false_iff.2 hx, hcurrent⟩
      exact ih hlonger hw fun c hc => hlonger c (List.mem_reverse.1 hc)

theorem noBlank_word {cs w : List Char} (hw : w ∈ words cs) : NoBlank w :=
  noBlank_wordFrom noBlank_nil hw

theorem noBlank_magnitudeText (p : Nat) : NoBlank (magnitudeText p).toList := by
  unfold magnitudeText
  split
  · show NoBlank ['0']
    decide
  · split
    · show NoBlank ['i', 'n', 'f']
      decide
    · rw [String.toList_ofList]
      exact fun c hc => (Lexeme.number (Shortest.shortest p).layout_written).isBlank hc

theorem noBlank_numberText (x : Float) : NoBlank (numberText x).toList := by
  unfold numberText
  split
  · show NoBlank ['N', 'a', 'N']
    decide
  · split
    · have hminus : NoBlank ['-'] := by decide
      rw [String.toList_append]
      exact noBlank_append hminus (noBlank_magnitudeText _)
    · exact noBlank_magnitudeText _

theorem noBlank_formatNumber (x : Float) : NoBlank (formatNumber x).toList := by
  unfold formatNumber
  split
  · show NoBlank ['0']
    decide
  · exact noBlank_numberText x

namespace Session

/-! ## What is never shown -/

/-- A character that is neither in the marker nor in any display on the timeline. -/
structure Lacks (c : Char) (s : Session) : Prop where
  sound : s.Sound
  marker : c ∉ s.settings.errorMarker.toList
  shown : ∀ d ∈ s.history.timeline, c ∉ d.text.toList

namespace Lacks

variable {c : Char} {s : Session}

theorem start {settings : SessionSettings} (h : c ∉ settings.errorMarker.toList) :
    Lacks c (Session.start settings) where
  sound := History.sound_start _ _
  marker := h
  shown d hd := by
    rw [List.mem_singleton.1 hd]
    exact List.not_mem_nil

theorem display (h : Lacks c s) : c ∉ s.display.text.toList :=
  h.shown s.display (List.mem_append_right _ List.mem_cons_self)

theorem editable (h : Lacks c s) : c ∉ s.editable.toList := by
  unfold Session.editable
  split
  · exact List.not_mem_nil
  · exact h.display

theorem replace (h : Lacks c s) {d : Display} (hd : c ∉ d.text.toList) : Lacks c (s.replace d) where
  sound := sound_replace h.sound d
  marker := h.marker
  shown d' hd' := by
    rcases History.mem_timeline_change s.one_le_limit hd' with hd' | rfl
    · exact h.shown d' hd'
    · exact hd

theorem edit (h : Lacks c s) {cs : List Char} (hcs : c ∉ cs) : Lacks c (s.edit (String.ofList cs)) :=
  h.replace (by rwa [String.toList_ofList])

theorem append (h : Lacks c s) {text : String} (ht : c ∉ text.toList) : Lacks c (s.append text) := by
  refine h.replace ?_
  rw [String.toList_append, List.mem_append]
  exact not_or.2 ⟨h.editable, ht⟩

theorem clearEntry (h : Lacks c s) : Lacks c s.clearEntry :=
  h.edit fun hc => h.editable (List.dropLast_subset _ hc)

theorem negate (h : Lacks c s) (hc : isBlank c = true) : Lacks c s.negate := by
  have heditable := h.editable
  have hminus : c ≠ '-' := by
    rintro rfl
    exact absurd hc (by decide)
  unfold Session.negate
  split
  · next rest hrest =>
    rw [hrest] at heditable
    exact h.edit fun hmem => heditable (List.mem_cons_of_mem _ hmem)
  · exact h.edit fun hmem => (List.mem_cons.1 hmem).elim hminus heditable

theorem updateMemory (h : Lacks c s) (combine : Float → Float → Float) :
    Lacks c (s.updateMemory combine) := by
  rw [updateMemory_eq]
  exact ⟨h.sound, h.marker, h.shown⟩

theorem evaluate (h : Lacks c s) (hc : isBlank c = true) (f : Option Function) :
    Lacks c (s.evaluate f) := by
  cases herror : s.display.isError with
  | true => rwa [evaluate_error herror]
  | false =>
    rw [evaluate_eq herror]
    cases applyAfter f (calculate s.display.text) with
    | error e => exact h.replace h.marker
    | ok x =>
      have hx : Lacks c { s with answer := x } := ⟨h.sound, h.marker, h.shown⟩
      exact hx.replace ((noBlank_formatNumber x).notMem hc)

/-- Nothing joins the timeline but what is pressed, numbers and the marker. -/
theorem press (h : Lacks c s) (hc : isBlank c = true) {text : String} (ht : c ∉ text.toList) :
    Lacks c (s.press text) := by
  have hlabel := Key.labelled text
  unfold Session.press
  generalize Key.ofText text = k at hlabel
  cases hlabel with
  | equals => exact h.evaluate hc none
  | button b =>
    cases b with
    | clear => exact h.replace List.not_mem_nil
    | clearEntry => exact h.clearEntry
    | evaluate => exact h.evaluate hc none
    | answer => exact h.append ((noBlank_formatNumber s.answer).notMem hc)
    | memoryStore => exact h.updateMemory fun _ x => x
    | memoryAdd => exact h.updateMemory fun m x => m + x
    | memorySubtract => exact h.updateMemory fun m x => m - x
    | negate => exact h.negate hc
    | undo =>
      exact ⟨History.sound_undo h.sound, h.marker, (History.timeline_undo s.history).symm ▸ h.shown⟩
    | redo =>
      exact ⟨History.sound_redo h.sound, h.marker, (History.timeline_redo h.sound).symm ▸ h.shown⟩
  | constant k => exact h.append ((noBlank_formatNumber k.value).notMem hc)
  | function f => exact h.evaluate hc (some f)
  | text => exact h.append ht

theorem run (h : Lacks c s) (hc : isBlank c = true) {texts : List String}
    (ht : ∀ text ∈ texts, c ∉ text.toList) : Lacks c (s.run texts) := by
  induction texts generalizing s with
  | nil => exact h
  | cons text rest ih =>
    obtain ⟨htext, hrest⟩ := List.forall_mem_cons.1 ht
    exact ih (h.press hc htext) hrest

end Lacks

end Session

end DeskCalc
