import DeskCalc.Console
import Mathlib.Data.List.TakeWhile

/-!
# Lines and words of a text

The console reads bytes, and the words it presses are parts of a text. In UTF-8 only the line feed
has the byte of the line feed, so the lines of the bytes are the bytes of the text's lines
(`splitOn_utf8`). Line feeds are blank, so the words of a text are the words of its lines, wherever
the lines end (`words_lines`), and the blanks at either end of a line, among them the carriage
return of a line that ends in two characters, take no part in them (`words_trim`).

Bytes that end with a line feed, or are none, leave no line open: what follows them begins a line of
its own (`lines_append`).
-/

namespace DeskCalc

/-! ## UTF-8 -/

/-- The bytes of a text in UTF-8. -/
def utf8 (cs : List Char) : List UInt8 := cs.flatMap String.utf8EncodeChar

theorem toList_toUTF8 (text : String) : text.toUTF8.data.toList = utf8 text.toList := by
  conv => lhs; rw [← String.ofList_toList (s := text)]
  rw [String.toUTF8_eq_toByteArray, String.toByteArray_ofList, List.utf8Encode,
    List.data_toByteArray]
  rfl

/-- The bytes of a text are read as that text. -/
theorem fromUTF8?_utf8 (cs : List Char) :
    String.fromUTF8? (utf8 cs).toByteArray = some (String.ofList cs) := by
  have hbytes : (utf8 cs).toByteArray = (String.ofList cs).toByteArray := by
    rw [String.toByteArray_ofList]
    rfl
  rw [hbytes, String.fromUTF8?, dif_pos (String.isValidUTF8 _)]
  rfl

/-- Only the line feed has its byte: all bytes of longer characters are at least `128`. -/
theorem newline_notMem_utf8 {c : Char} (hc : c ≠ '\n') : 10 ∉ String.utf8EncodeChar c := by
  have hval : c.val.toNat ≠ 10 := fun h => hc (Char.ext (UInt32.toNat.inj h))
  have hten : (10 : UInt8).toNat = 10 := rfl
  intro hb
  unfold String.utf8EncodeChar at hb
  dsimp only at hb
  generalize c.val.toNat = v at *
  repeat' split at hb
  all_goals
    simp only [List.mem_cons, List.not_mem_nil, or_false, ← UInt8.toNat_inj,
      UInt8.toNat_ofNat'] at hb
    omega

theorem modifyHead_nil_append {α : Type} (ls : List (List α)) : ls.modifyHead ([] ++ ·) = ls := by
  cases ls <;> rfl

theorem splitOn_append_of_notMem {α : Type} [BEq α] [LawfulBEq α] {a : α} {xs : List α}
    (h : a ∉ xs) (ys : List α) : (xs ++ ys).splitOn a = (ys.splitOn a).modifyHead (xs ++ ·) := by
  induction xs with
  | nil => rw [List.nil_append, modifyHead_nil_append]
  | cons x xs ih =>
    rw [List.mem_cons, not_or] at h
    rw [List.cons_append, List.splitOn_cons_eq_if_modifyHead, beq_false_of_ne (Ne.symm h.1),
      ih h.2, if_neg Bool.false_ne_true, List.modifyHead_modifyHead]
    rfl

/-- The lines of a text's bytes are the bytes of its lines. -/
theorem splitOn_utf8 (cs : List Char) : (utf8 cs).splitOn 10 = (cs.splitOn '\n').map utf8 := by
  induction cs with
  | nil => rfl
  | cons c cs ih =>
    rw [List.splitOn_cons_eq_if_modifyHead]
    by_cases hc : c = '\n'
    · subst hc
      have hbytes : utf8 ('\n' :: cs) = 10 :: utf8 cs := by
        rw [utf8, List.flatMap_cons, show String.utf8EncodeChar '\n' = [10] by decide]
        rfl
      rw [hbytes, List.splitOn_cons_eq_if_modifyHead, ih]
      rfl
    · rw [utf8, List.flatMap_cons, splitOn_append_of_notMem (newline_notMem_utf8 hc),
        if_neg (by simpa using hc)]
      show ((utf8 cs).splitOn 10).modifyHead _ = _
      rw [ih]
      cases cs.splitOn '\n' <;> rfl

/-! ## Lines -/

theorem linesFrom_newline (current a b : List UInt8) :
    linesFrom current (a ++ 10 :: b) = linesFrom current (a ++ [10]) ++ lines b := by
  induction a generalizing current with
  | nil => rfl
  | cons x a ih =>
    simp only [List.cons_append, linesFrom]
    split
    · rw [ih, List.cons_append]
    · exact ih _

/-- What stands behind the end of a line begins a line of its own. -/
theorem lines_append {a : List UInt8} (ha : a = [] ∨ a.getLast? = some 10) (b : List UInt8) :
    lines (a ++ b) = lines a ++ lines b := by
  rcases ha with rfl | ha
  · rfl
  · obtain ⟨front, rfl⟩ := List.getLast?_eq_some_iff.1 ha
    rw [List.append_assoc]
    exact linesFrom_newline [] front b

theorem linesFrom_line {w : List UInt8} (hw : 10 ∉ w) (current b : List UInt8) :
    linesFrom current (w ++ 10 :: b) = (current.reverse ++ w) :: lines b := by
  induction w generalizing current with
  | nil =>
    rw [List.append_nil]
    rfl
  | cons x w ih =>
    rw [List.mem_cons, not_or] at hw
    rw [List.cons_append, linesFrom, if_neg (Ne.symm hw.1), ih hw.2, List.reverse_cons,
      List.append_assoc]
    rfl

/-- A line without a line feed in it, the line feed that ends it, and the lines behind it. -/
theorem lines_line {w : List UInt8} (hw : 10 ∉ w) (b : List UInt8) :
    lines (w ++ 10 :: b) = w :: lines b :=
  linesFrom_line hw [] b

theorem linesFrom_open {w : List UInt8} (hw : 10 ∉ w) (current : List UInt8) :
    linesFrom current w = if current.isEmpty && w.isEmpty then [] else [current.reverse ++ w] := by
  induction w generalizing current with
  | nil => cases current <;> simp [linesFrom]
  | cons x w ih =>
    rw [List.mem_cons, not_or] at hw
    rw [linesFrom, if_neg (Ne.symm hw.1), ih hw.2]
    simp

/-- A last line that no line feed ends. -/
theorem lines_open {w : List UInt8} (hw : 10 ∉ w) (hne : w ≠ []) : lines w = [w] := by
  rw [lines, linesFrom_open hw, if_neg (by simpa using hne)]
  rfl

theorem splitOn_linesFrom (current bytes : List UInt8) :
    ((bytes.splitOn 10).modifyHead (current.reverse ++ ·)) = linesFrom current bytes ∨
      ((bytes.splitOn 10).modifyHead (current.reverse ++ ·)) = linesFrom current bytes ++ [[]] := by
  induction bytes generalizing current with
  | nil => cases current <;> simp [linesFrom]
  | cons b bytes ih =>
    rw [List.splitOn_cons_eq_if_modifyHead, linesFrom]
    by_cases hb : b = 10
    · have hrest := ih []
      rw [if_pos (beq_iff_eq.2 hb), if_pos hb, List.modifyHead_cons, List.append_nil]
      rw [List.reverse_nil, modifyHead_nil_append] at hrest
      rcases hrest with h | h
      · exact .inl (by rw [h])
      · exact .inr (by rw [h]; rfl)
    · rw [if_neg (by simpa using hb), if_neg hb, List.modifyHead_modifyHead]
      have hrest := ih (b :: current)
      rw [List.reverse_cons] at hrest
      have hfun : ((current.reverse ++ ·) ∘ List.cons b) = (current.reverse ++ [b] ++ ·) := by
        funext x
        simp
      rwa [hfun]

/-- Between the line feeds are the lines, and behind the last one an empty one if there is none. -/
theorem splitOn_eq_lines (bytes : List UInt8) :
    bytes.splitOn 10 = lines bytes ∨ bytes.splitOn 10 = lines bytes ++ [[]] := by
  have h := splitOn_linesFrom [] bytes
  rwa [List.reverse_nil, modifyHead_nil_append] at h

/-! ## Words -/

/-- A blank keeps the words on its two sides apart. -/
theorem wordsFrom_blank {b : Char} (hb : isBlank b = true) (current xs ys : List Char) :
    wordsFrom current (xs ++ b :: ys) = wordsFrom current xs ++ words ys := by
  induction xs generalizing current with
  | nil =>
    rw [List.nil_append, wordsFrom.eq_2, if_pos hb, wordsFrom.eq_1]
    split <;> rfl
  | cons x xs ih =>
    rw [List.cons_append, wordsFrom, wordsFrom]
    split
    · split
      · exact ih []
      · rw [ih, List.cons_append]
    · exact ih (x :: current)

theorem words_blank {b : Char} (hb : isBlank b = true) (xs ys : List Char) :
    words (xs ++ b :: ys) = words xs ++ words ys :=
  wordsFrom_blank hb [] xs ys

theorem wordsFrom_ne_nil {current : List Char} (hc : current ≠ []) (cs : List Char) :
    wordsFrom current cs ≠ [] := by
  induction cs generalizing current with
  | nil =>
    rw [wordsFrom, if_neg (by simpa using hc)]
    nofun
  | cons c cs ih =>
    rw [wordsFrom]
    split
    · rw [if_neg (by simpa using hc)]
      nofun
    · exact ih (List.cons_ne_nil c current)

/-- A text has no words exactly if it is all blank. -/
theorem words_eq_nil_iff (cs : List Char) : words cs = [] ↔ ∀ c ∈ cs, isBlank c = true := by
  induction cs with
  | nil => exact ⟨fun _ => nofun, fun _ => rfl⟩
  | cons c cs ih =>
    rw [List.forall_mem_cons]
    by_cases hc : isBlank c = true
    · have hwords := words_blank hc [] cs
      rw [List.nil_append] at hwords
      rw [hwords]
      exact ih.trans ⟨fun h => ⟨hc, h⟩, And.right⟩
    · refine ⟨fun h => ?_, fun h => absurd h.1 hc⟩
      rw [words, wordsFrom, if_neg hc] at h
      exact absurd h (wordsFrom_ne_nil (List.cons_ne_nil c []) cs)

/-- Blanks in front and behind take no part in the words. -/
theorem words_trim (cs : List Char) : words (trim cs) = words cs := by
  have hfront : ∀ cs, words (trimFront cs) = words cs := by
    intro cs
    induction cs with
    | nil => rfl
    | cons c cs ih =>
      by_cases hc : isBlank c = true
      · have hwords := words_blank hc [] cs
        rw [List.nil_append] at hwords
        rw [trimFront, List.dropWhile_cons_of_pos hc, hwords]
        exact ih
      · rw [trimFront, List.dropWhile_cons_of_neg hc]
  have hback : ∀ cs, words (trimBack cs) = words cs := by
    intro cs
    have hsplit : trimBack cs ++ (cs.reverse.takeWhile isBlank).reverse = cs := by
      rw [trimBack, ← List.reverse_append, List.takeWhile_append_dropWhile, List.reverse_reverse]
    have hblank : ∀ c ∈ (cs.reverse.takeWhile isBlank).reverse, isBlank c = true :=
      fun c hc => List.mem_takeWhile_imp (List.mem_reverse.1 hc)
    conv => rhs; rw [← hsplit]
    generalize (cs.reverse.takeWhile isBlank).reverse = blanks at hblank
    cases blanks with
    | nil => rw [List.append_nil]
    | cons b blanks =>
      obtain ⟨hb, hblanks⟩ := List.forall_mem_cons.1 hblank
      rw [words_blank hb, (words_eq_nil_iff blanks).2 hblanks, List.append_nil]
  rw [trim, hback, hfront]

theorem trim_eq_nil_iff (cs : List Char) : trim cs = [] ↔ words cs = [] := by
  refine ⟨fun h => ?_, fun h => ?_⟩
  · rw [← words_trim, h]
    rfl
  · have hfront : trimFront cs = [] :=
      List.dropWhile_eq_nil_iff.2 ((words_eq_nil_iff cs).1 h)
    rw [trim, hfront]
    rfl

end DeskCalc
