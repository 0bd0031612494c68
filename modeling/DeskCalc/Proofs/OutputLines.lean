import DeskCalc.Proofs.Blanks
import DeskCalc.Proofs.Dialogue
import DeskCalc.Proofs.JsonReading

/-!
# Cutting the output into displays

**Theorem (`splitOn_output`).** Let a text have no line that begins with a colon. What the console
writes for it can be cut at the line feeds into one line for each line of the text that is not blank.
In JSON each is read as the text of the display after that line and whether it is an error, whatever
the text is. In plain form each is the text of the display, if there is no line feed in the marker.

Each display is written as a line and a line feed, so all rests on there being no line feed within
the line (`splitOn_ended`). In JSON that is so because a line feed is escaped
(`newline_notMem_jsonLine`). In plain form it is so because no line feed is ever shown: the words
that are pressed have none, and so have all displays that are made of them (`Session.Lacks`).
-/

namespace DeskCalc

/-! ## Lines with their ends -/

/-- Lines with line feeds behind them, and none in them, are cut at the line feeds into the same
lines and what stands behind the last line feed. -/
theorem splitOn_ended {ls : List (List Char)} (h : ∀ line ∈ ls, '\n' ∉ line) :
    (ls.flatMap fun line => line ++ ['\n']).splitOn '\n' = ls ++ [[]] := by
  induction ls with
  | nil => rfl
  | cons line ls ih =>
    obtain ⟨hline, hls⟩ := List.forall_mem_cons.1 h
    rw [List.flatMap_cons, List.append_assoc, List.singleton_append,
      List.splitOn_append_cons_self_of_not_mem hline, ih hls, List.cons_append]

/-- Displays that are each written as a line are cut into these lines. -/
theorem splitOn_join {format : OutputFormat} {line : Display → List Char}
    (hrender : ∀ d, (format.render d).toList = line d ++ ['\n']) {shown : List Display}
    (hline : ∀ d ∈ shown, '\n' ∉ line d) :
    (String.join (shown.map format.render)).toList.splitOn '\n' = shown.map line ++ [[]] := by
  have hlines : (String.join (shown.map format.render)).toList
      = (shown.map line).flatMap fun w => w ++ ['\n'] := by
    rw [String.toList_join, List.flatMap_map, List.flatMap_map]
    exact List.flatMap_congr fun d _ => hrender d
  rw [hlines]
  refine splitOn_ended fun w hw => ?_
  obtain ⟨d, hd, rfl⟩ := List.mem_map.1 hw
  exact hline d hd

theorem toList_render_plain (d : Display) :
    (OutputFormat.plain.render d).toList = d.text.toList ++ ['\n'] := String.toList_append

/-! ## Displays after lines -/

theorem length_shownAfter (s : Session) (ls : List (List Char)) :
    (shownAfter s ls).length = (ls.filter fun line => trim line ≠ []).length := by
  induction ls generalizing s with
  | nil => rfl
  | cons line ls ih =>
    by_cases hblank : trim line = []
    · rw [shownAfter_blank hblank, ih, List.filter_cons_of_neg (by simpa using hblank)]
    · rw [shownAfter_words hblank, List.filter_cons_of_pos (by simpa using hblank),
        List.length_cons, List.length_cons, ih]

/-- No line of words presses a blank. -/
theorem notMem_keysOf {c : Char} (hc : isBlank c = true) (line : List Char) :
    ∀ text ∈ keysOf line, c ∉ text.toList := by
  intro text htext
  unfold keysOf at htext
  split at htext
  · exact nomatch htext
  · obtain ⟨w, hw, rfl⟩ := List.mem_map.1 htext
    rw [String.toList_ofList]
    exact (noBlank_word hw).notMem hc

/-- A blank that is not in the marker stands in no display after a line. -/
theorem notMem_shownAfter {c : Char} (hc : isBlank c = true) {s : Session} (h : s.Lacks c)
    (ls : List (List Char)) : ∀ d ∈ shownAfter s ls, c ∉ d.text.toList := by
  induction ls generalizing s with
  | nil => exact nofun
  | cons line ls ih =>
    by_cases hblank : trim line = []
    · rw [shownAfter_blank hblank]
      exact ih h
    · have hafter := h.run hc (notMem_keysOf hc line)
      rw [shownAfter_words hblank, List.forall_mem_cons]
      exact ⟨hafter.display, ih hafter⟩

/-- **The output is cut into the displays.** -/
theorem splitOn_output (exposition : Exposition) (counts : Registry) (settings : SessionSettings)
    (text : String)
    (h : ∀ line ∈ text.toList.splitOn '\n', (trim line).head? ≠ some ':') :
    let ls := text.toList.splitOn '\n'
    let shown := shownAfter (.start settings) ls
    let done := fun format =>
      runConsole exposition format ⟨.start settings, counts⟩ text.toUTF8.data.toList
    shown.length = (ls.filter fun line => trim line ≠ []).length ∧
    (∀ format, (done format).failure = none) ∧
    (∃ written, (done .json).output.toList.splitOn '\n' = written ++ [[]] ∧
      written.map Json.read? = shown.map fun d => some d.json) ∧
    ('\n' ∉ settings.errorMarker.toList →
      (done .plain).output.toList.splitOn '\n' = (shown.map fun d => d.text.toList) ++ [[]]) := by
  intro ls shown done
  have hdone : ∀ format, done format = ⟨String.join (shown.map format.render), none,
      Desk.run ⟨.start settings, counts⟩ (keysOfLines ls)⟩ := fun format => by
    rw [← runLines_words exposition format ⟨.start settings, counts⟩ h]
    exact runConsole_utf8 exposition format _ text
  refine ⟨length_shownAfter _ ls, fun format => by rw [hdone], ?_, fun hmarker => ?_⟩
  · refine ⟨shown.map Display.jsonLine, ?_, ?_⟩
    · rw [hdone]
      exact splitOn_join toList_render_json fun d _ => newline_notMem_jsonLine d
    · rw [List.map_map]
      exact List.map_congr_left fun d _ => read?_jsonLine d
  · rw [hdone]
    exact splitOn_join toList_render_plain
      (notMem_shownAfter (by decide) (Session.Lacks.start hmarker) ls)

/-- A marker with a line break and quotes is one line of JSON; a marker that is one line is one line
of the plain output, and so is a text with a quote, a backslash and a letter that is no ASCII. -/
theorem splitOn_output_quotes :
    let text := "1 / 0 =\n \r\né\" \\ -\n"
    let broken : SessionSettings := { errorMarker := "no\n\"value\"" }
    let whole : SessionSettings := { errorMarker := "⚠" }
    let bytes := text.toUTF8.data.toList
    (∀ line ∈ text.toList.splitOn '\n', (trim line).head? ≠ some ':') ∧
    (∃ written, (runConsole textExposition .json { session := .start broken }
        bytes).output.toList.splitOn '\n' = written ++ [[]] ∧
      written.map Json.read? = [some (Display.json ⟨"no\n\"value\"", true⟩),
        some (Display.json ⟨"é\"\\-", false⟩)]) ∧
    '\n' ∉ whole.errorMarker.toList ∧
    (runConsole textExposition .plain { session := .start whole } bytes).output.toList.splitOn '\n'
      = ["⚠".toList, "é\"\\-".toList, []] := by
  have htext : ∀ line ∈ "1 / 0 =\n \r\né\" \\ -\n".toList.splitOn '\n',
      (trim line).head? ≠ some ':' := by decide +kernel
  have hbroken : shownAfter (.start { errorMarker := "no\n\"value\"" })
      ("1 / 0 =\n \r\né\" \\ -\n".toList.splitOn '\n')
      = [⟨"no\n\"value\"", true⟩, ⟨"é\"\\-", false⟩] := by decide +kernel
  have hwhole : shownAfter (.start { errorMarker := "⚠" })
      ("1 / 0 =\n \r\né\" \\ -\n".toList.splitOn '\n')
      = [⟨"⚠", true⟩, ⟨"é\"\\-", false⟩] := by decide +kernel
  have hmarker : '\n' ∉ ("⚠" : String).toList := by decide +kernel
  have hjson := (splitOn_output textExposition {} { errorMarker := "no\n\"value\"" } _ htext).2.2.1
  have hplain := (splitOn_output textExposition {} { errorMarker := "⚠" } _ htext).2.2.2 hmarker
  rw [hbroken] at hjson
  rw [hwhole] at hplain
  exact ⟨htext, hjson, hmarker, hplain⟩

end DeskCalc
