import DeskCalc.Proofs.Lines

/-!
# Runs of the console, piece by piece

**Theorem (`runConsole_append`).** Let some bytes be none or end with a line feed. If a line of them
ends the run, bytes behind them change nothing: not the output, not the failure, not the desk.
If no line does, the run goes on over what follows as a run of its own, from the desk reached,
and writes behind what is written. So a line that says `:quit`, or is no UTF-8, leaves everything
written before it and hides everything behind it.

Whether a line ends the run does not depend on the desk or on the form of the output
(`reactToLine_eq_stop_iff`), so a run over some lines either meets such a line, and is the same
whatever lines follow, or hands its desk to the lines that follow (`runLines_append`). The cut
behind a line feed is one between lines (`lines_append`).
-/

namespace DeskCalc

/-! ## What a line asks for -/

/-- What a line asks for, read off the line without the blanks at its ends. -/
inductive Asked (cs : List Char) : Command → Prop
  | nothing : trim cs = [] → Asked cs .nothing
  | quit : trim cs = ":quit".toList → Asked cs .quit
  | registers : trim cs = ":memory".toList → Asked cs .registers
  | metrics : trim cs = ":metrics".toList → Asked cs .metrics
  | unknown : (trim cs).head? = some ':' →
      trim cs ∉ [":quit".toList, ":memory".toList, ":metrics".toList] →
      Asked cs (.unknown (String.ofList (trim cs)))
  | press : trim cs ≠ [] → (trim cs).head? ≠ some ':' →
      Asked cs (.press ((words cs).map String.ofList))

theorem asked (cs : List Char) : Asked cs (Command.ofLine (String.ofList cs)) := by
  have htext : ∀ {text : String}, String.ofList (trim cs) = text ↔ trim cs = text.toList :=
    ⟨fun h => by rw [← h, String.toList_ofList], fun h => by rw [h, String.ofList_toList]⟩
  rw [Command.ofLine, String.toList_ofList]
  split
  next h => exact .nothing h
  next name h =>
    dsimp only
    rw [← h]
    split
    next hquit => exact .quit (htext.1 hquit)
    next hquit =>
      split
      next hmemory => exact .registers (htext.1 hmemory)
      next hmemory =>
        split
        next hmetrics => exact .metrics (htext.1 hmetrics)
        next hmetrics =>
          rw [htext] at hquit hmemory hmetrics
          refine .unknown (by rw [h]; rfl) ?_
          simp only [List.mem_cons, List.not_mem_nil, or_false, not_or]
          exact ⟨hquit, hmemory, hmetrics⟩
  next hne hcolon =>
    rw [words_trim]
    refine .press hne fun hhead => ?_
    obtain ⟨name, hname⟩ := List.head?_eq_some_iff.1 hhead
    exact hcolon name hname

/-! ## Lines that end a run -/

/-- A line that ends a run, with the failure the run then has: the line is no UTF-8, or it is all
`:quit`. -/
inductive EndsRun (line : List UInt8) : Option ConsoleError → Prop
  | invalid : String.fromUTF8? line.toByteArray = none → EndsRun line (some .invalidText)
  | quit {text : String} : String.fromUTF8? line.toByteArray = some text →
      trim text.toList = ":quit".toList → EndsRun line none

/-- A line of UTF-8 ends the run only by `:quit`. -/
theorem trim_eq_of_endsRun {cs : List Char} {failure : Option ConsoleError}
    (h : EndsRun (utf8 cs) failure) : trim cs = ":quit".toList := by
  have hread := fromUTF8?_utf8 cs
  cases h with
  | invalid hnone =>
    rw [hread] at hnone
    cases hnone
  | quit htext hquit =>
    rwa [← Option.some.inj (hread.symm.trans htext), String.toList_ofList] at hquit

theorem not_endsRun_nil {failure : Option ConsoleError} : ¬ EndsRun [] failure := fun h =>
  absurd (trim_eq_of_endsRun (show EndsRun (utf8 []) failure from h)) (by decide)

variable {exposition : Exposition} {format : OutputFormat} {d : Desk} {line : List UInt8}

theorem Command.react_eq_stop {command : Command} {failure : Option ConsoleError}
    (h : command.react exposition format d = .stop failure) :
    command = .quit ∧ failure = none := by
  cases command <;> cases h
  exact ⟨rfl, rfl⟩

/-- Whether a line ends the run, and how, is read off the line alone. -/
theorem reactToLine_eq_stop_iff {failure : Option ConsoleError} :
    reactToLine exposition format d line = .stop failure ↔ EndsRun line failure := by
  constructor
  · intro h
    rw [reactToLine] at h
    split at h
    next text htext =>
      obtain ⟨hquit, rfl⟩ := Command.react_eq_stop h
      have hasked := asked text.toList
      rw [String.ofList_toList, hquit] at hasked
      cases hasked with
      | quit hline => exact .quit htext hline
    next hnone =>
      cases h
      exact .invalid hnone
  · rintro (hnone | ⟨htext, hquit⟩)
    · rw [reactToLine, hnone]
    · rw [reactToLine, htext]
      dsimp only
      rw [Command.ofLine, hquit]
      rfl

/-! ## Runs -/

/-- A transcript, and behind it that of the lines that follow. -/
def Transcript.followedBy (first second : Transcript) : Transcript :=
  ⟨first.output ++ second.output, second.failure, second.desk⟩

theorem runLines_stop {failure : Option ConsoleError} (h : EndsRun line failure)
    (rest : List (List UInt8)) : runLines exposition format d (line :: rest) = ⟨"", failure, d⟩ := by
  rw [runLines, reactToLine_eq_stop_iff.2 h]

theorem runLines_next {desk : Desk} {output : String}
    (h : reactToLine exposition format d line = .next desk output) (rest : List (List UInt8)) :
    runLines exposition format d (line :: rest)
      = (⟨output, none, desk⟩ : Transcript).followedBy (runLines exposition format desk rest) := by
  rw [runLines, h]
  rfl

theorem exists_reaction (exposition : Exposition) (format : OutputFormat) (d : Desk)
    (hgoes : ∀ failure, ¬ EndsRun line failure) :
    ∃ desk output, reactToLine exposition format d line = .next desk output := by
  cases hline : reactToLine exposition format d line with
  | next desk output => exact ⟨desk, output, rfl⟩
  | stop failure => exact absurd (reactToLine_eq_stop_iff.1 hline) (hgoes failure)

/-- Behind a line that ends the run no line is looked at. -/
theorem runLines_append_of_ends {xs : List (List UInt8)}
    (hends : ∃ line ∈ xs, ∃ failure, EndsRun line failure) (ys : List (List UInt8)) :
    runLines exposition format d (xs ++ ys) = runLines exposition format d xs := by
  induction xs generalizing d with
  | nil =>
    obtain ⟨line, hline, -⟩ := hends
    exact absurd hline List.not_mem_nil
  | cons x xs ih =>
    rw [List.cons_append]
    cases hx : reactToLine exposition format d x with
    | stop failure =>
      have hend := reactToLine_eq_stop_iff.1 hx
      rw [runLines_stop hend, runLines_stop hend]
    | next desk output =>
      obtain ⟨line, hline, failure, hend⟩ := hends
      rcases List.mem_cons.1 hline with rfl | hline
      · rw [reactToLine_eq_stop_iff.2 hend] at hx
        cases hx
      · rw [runLines_next hx, runLines_next hx, ih ⟨line, hline, failure, hend⟩]

/-- Lines that do not end the run hand their desk to those that follow. -/
theorem runLines_append {xs : List (List UInt8)}
    (hgoes : ∀ line ∈ xs, ∀ failure, ¬ EndsRun line failure) (ys : List (List UInt8)) :
    runLines exposition format d (xs ++ ys)
      = (runLines exposition format d xs).followedBy
          (runLines exposition format (runLines exposition format d xs).desk ys) := by
  induction xs generalizing d with
  | nil => simp [runLines, Transcript.followedBy]
  | cons x xs ih =>
    obtain ⟨hx, hxs⟩ := List.forall_mem_cons.1 hgoes
    obtain ⟨desk, output, hnext⟩ := exists_reaction exposition format d hx
    rw [List.cons_append, runLines_next hnext, runLines_next hnext, ih hxs]
    simp [Transcript.followedBy, String.append_assoc]

/-- **Runs of the console are incremental.** -/
theorem runConsole_append (exposition : Exposition) (format : OutputFormat) (d : Desk)
    {a : List UInt8} (ha : a = [] ∨ a.getLast? = some 10) :
    ((∃ line ∈ lines a, ∃ failure, EndsRun line failure) →
      ∀ b, runConsole exposition format d (a ++ b) = runConsole exposition format d a) ∧
    ((∀ line ∈ lines a, ∀ failure, ¬ EndsRun line failure) →
      let first := runConsole exposition format d a
      (∀ b, let second := runConsole exposition format first.desk b
        runConsole exposition format d (a ++ b)
          = ⟨first.output ++ second.output, second.failure, second.desk⟩) ∧
      ∀ line failure b, 10 ∉ line → EndsRun line failure → (b = [] ∨ b.head? = some 10) →
        runConsole exposition format d (a ++ (line ++ b)) = ⟨first.output, failure, first.desk⟩) := by
  refine ⟨fun hends b => ?_, fun hgoes => ?_⟩
  · rw [runConsole, lines_append ha]
    exact runLines_append_of_ends hends _
  · intro first
    have happend : ∀ b, runConsole exposition format d (a ++ b)
        = first.followedBy (runConsole exposition format first.desk b) := fun b => by
      rw [runConsole, lines_append ha]
      exact runLines_append hgoes _
    refine ⟨happend, fun line failure b hline hend hb => ?_⟩
    have hrest : ∃ rest, lines (line ++ b) = line :: rest := by
      rcases hb with rfl | hb
      · rw [List.append_nil]
        exact ⟨[], lines_open hline fun hnil => not_endsRun_nil (hnil ▸ hend)⟩
      · obtain ⟨b, rfl⟩ := List.head?_eq_some_iff.1 hb
        exact ⟨lines b, lines_line hline b⟩
    obtain ⟨rest, hrest⟩ := hrest
    have hstop : runConsole exposition format first.desk (line ++ b) = ⟨"", failure, first.desk⟩ := by
      rw [runConsole, hrest, runLines_stop hend]
    rw [happend, hstop, Transcript.followedBy, String.append_empty]

/-- What stands before a line that is no UTF-8 is written, and nothing behind the line is read;
behind a line that says `:quit` no line fails. -/
theorem runConsole_append_invalid :
    let five : List UInt8 := [53, 10]
    let quit : List UInt8 := [58, 113, 117, 105, 116, 10]
    let d : Desk := { session := .start {} }
    five.getLast? = some 10 ∧ (∀ line ∈ lines five, ∀ failure, ¬ EndsRun line failure) ∧
    EndsRun [255] (some .invalidText) ∧
    runConsole textExposition .plain d (five ++ ([255] ++ [10, 54, 10]))
      = ⟨"5\n", some .invalidText, (runConsole textExposition .plain d five).desk⟩ ∧
    quit.getLast? = some 10 ∧ (∃ line ∈ lines quit, ∃ failure, EndsRun line failure) ∧
    runConsole textExposition .plain d (quit ++ [255]) = runConsole textExposition .plain d quit := by
  have hgoes : ∀ line ∈ lines [53, 10], ∀ failure, ¬ EndsRun line failure := by
    intro line hline failure hend
    obtain rfl : line = [53] := by simpa [lines, linesFrom] using hline
    exact absurd (trim_eq_of_endsRun (show EndsRun (utf8 ['5']) failure from hend)) (by decide)
  have hinvalid : EndsRun [255] (some .invalidText) := .invalid (by decide +kernel)
  have hquit : EndsRun [58, 113, 117, 105, 116] none := by
    have hread : String.fromUTF8? [58, 113, 117, 105, 116].toByteArray = some ":quit" := by
      decide +kernel
    exact .quit hread (by decide)
  have hends : ∃ line ∈ lines [58, 113, 117, 105, 116, 10], ∃ failure, EndsRun line failure :=
    ⟨_, by simp [lines, linesFrom], none, hquit⟩
  have houtput : (runConsole textExposition .plain { session := .start {} } [53, 10]).output
      = "5\n" := by decide +kernel
  refine ⟨rfl, hgoes, hinvalid, ?_, rfl, hends, ?_⟩
  · rw [← houtput]
    exact ((runConsole_append textExposition .plain _ (.inr rfl)).2 hgoes).2 [255] _ _ (by decide)
      hinvalid (.inr rfl)
  · exact (runConsole_append textExposition .plain _ (.inr rfl)).1 hends [255]

end DeskCalc
