import DeskCalc.Proofs.Tokenizing

/-!
# Texts with a blank between them

**Theorem (`tokenize_across_blank`).** A blank keeps two texts apart: if both are accepted, the text
with the blank between them has the tokens of the one and then those of the other. An error of the
first text is the error of the whole; behind an accepted first text, an error of the second is the
error of the whole, further on by the bytes in front of it.

No lexeme has a blank in it, so none is made longer by one (`stops_blank`). Hence what is passed at
the front of a text is passed as well with more behind the text (`Passed.extend`), and the second
text is passed on from the blank (`Passed.append`).
-/

namespace DeskCalc

theorem stops_blank {c : Char} (hc : isBlank c = true) (w x : List Char) : Stops w (c :: x) := by
  rintro _ t ⟨⟩ hlonger
  have hnot := hlonger.isBlank (List.mem_append_right w (List.mem_singleton_self c))
  rw [hc] at hnot
  contradiction

/-! ## Passed parts of a longer text -/

namespace Passed

variable {p q rest x : List Char} {tokens more : List Token}

/-- What is passed is passed with more behind the text, if that makes no last lexeme longer. -/
theorem extend (h : Passed rest p tokens) (hx : rest = [] → ∀ w, Stops w x) :
    Passed (rest ++ x) p tokens := by
  induction h with
  | nil => exact .nil
  | blank hc _ ih => exact .blank hc ih
  | @lexeme t w p tokens hw _ ih =>
    obtain ⟨hlex, hstops⟩ := longest_iff_stops.1 hw
    refine .lexeme (longest_iff_stops.2 ⟨hlex, ?_⟩) ih
    rw [← List.append_assoc]
    exact stops_append hstops fun hnil => hx (List.append_eq_nil_iff.1 hnil).2 w

/-- Two parts that are passed one after the other. -/
theorem append (h : Passed (q ++ rest) p tokens) (hq : Passed rest q more) :
    Passed rest (p ++ q) (tokens ++ more) := by
  induction h with
  | nil => exact hq
  | blank hc _ ih => exact .blank hc ih
  | lexeme hw _ ih =>
    rw [List.append_assoc]
    exact .lexeme (by rwa [List.append_assoc]) ih

/-- A text that is passed to its end, a blank, and what is passed behind it. -/
theorem append_blank {c : Char} (h : Passed [] p tokens) (hc : isBlank c = true)
    (hq : Passed rest q more) : Passed rest (p ++ c :: q) (tokens ++ more) := by
  have hfront : Passed (c :: q ++ rest) p tokens := h.extend fun _ w => stops_blank hc w _
  exact hfront.append (.blank hc hq)

end Passed

/-- A blank further on does not help where a text is stuck. -/
theorem Stuck.append_blank {a c : Char} {rest : List Char} (h : Stuck a rest)
    (hc : isBlank c = true) (x : List Char) : Stuck a (rest ++ c :: x) where
  not_blank := h.not_blank
  no_lexeme := by
    rintro t w hlex ⟨y, hy⟩
    rw [← List.cons_append] at hy
    rcases List.append_eq_append_iff.1 hy with ⟨mid, hrest, -⟩ | ⟨mid, rfl, hmid⟩
    · exact h.no_lexeme t w hlex ⟨mid, hrest.symm⟩
    · cases mid with
      | nil => exact h.no_lexeme t _ hlex (by simp)
      | cons c' mid =>
        -- The lexeme would reach over the blank.
        obtain rfl : c = c' := (List.cons.inj hmid).1
        have hnot := hlex.isBlank (List.mem_append_right (a :: rest) List.mem_cons_self)
        rw [hc] at hnot
        contradiction

/-! ## What a result says of the text -/

theorem passed_of_tokenize {s : String} {tokens : List Token} (h : tokenize s = .ok tokens) :
    Passed [] s.toList tokens := by
  rcases passed_or_stuck s with ⟨_, hpassed⟩ | ⟨_, _, _, _, rfl, hpassed, hc⟩
  · rw [tokenize_of_passed hpassed] at h
    cases h
    exact hpassed
  · rw [tokenize_of_stuck hpassed hc] at h
    cases h

theorem stuck_of_tokenize {s : String} {e : LexError} (h : tokenize s = .error e) :
    ∃ (p q : String) (tokens : List Token), s = p ++ String.singleton e.character ++ q ∧
      e.position = p.utf8ByteSize ∧ Passed (e.character :: q.toList) p.toList tokens ∧
      Stuck e.character q.toList := by
  rcases passed_or_stuck s with ⟨_, hpassed⟩ | ⟨p, q, _, tokens, rfl, hpassed, hc⟩
  · rw [tokenize_of_passed hpassed] at h
    cases h
  · rw [tokenize_of_stuck hpassed hc] at h
    cases h
    exact ⟨p, q, tokens, rfl, rfl, hpassed, hc⟩

/-! ## Two texts -/

/-- **A blank keeps two texts apart.** The tokens of two texts with a blank between them are those
of the one and then those of the other. An error of the first stays as it is; one of the second
comes later by the bytes of the first and of the blank. -/
theorem tokenize_across_blank (a b : String) {c : Char} (hc : isBlank c = true) :
    (∀ e, tokenize a = .error e → tokenize (a ++ String.singleton c ++ b) = .error e) ∧
    (∀ ta tb, tokenize a = .ok ta → tokenize b = .ok tb →
      tokenize (a ++ String.singleton c ++ b) = .ok (ta ++ tb)) ∧
    ∀ ta position character, tokenize a = .ok ta → tokenize b = .error ⟨position, character⟩ →
      tokenize (a ++ String.singleton c ++ b)
        = .error ⟨position + a.utf8ByteSize + c.utf8Size, character⟩ := by
  refine ⟨fun e he => ?_, fun ta tb ha hb => ?_, fun ta position character ha hb => ?_⟩
  · obtain ⟨p, q, tokens, rfl, hposition, hp, hstuck⟩ := stuck_of_tokenize he
    have hwhole : p ++ String.singleton e.character ++ q ++ String.singleton c ++ b
        = p ++ String.singleton e.character ++ (q ++ String.singleton c ++ b) := by
      simp only [String.append_assoc]
    have hpassed := hp.extend (x := c :: b.toList) nofun
    have hstuck' := hstuck.append_blank hc b.toList
    rw [List.cons_append, ← toList_around] at hpassed
    rw [← toList_around] at hstuck'
    rw [hwhole, tokenize_of_stuck hpassed hstuck', ← hposition]
  · have hpassed := (passed_of_tokenize ha).append_blank hc (passed_of_tokenize hb)
    rw [← toList_around] at hpassed
    exact tokenize_of_passed hpassed
  · obtain ⟨p, q, tokens, rfl, hposition, hp, hstuck⟩ := stuck_of_tokenize hb
    have hwhole : a ++ String.singleton c ++ (p ++ String.singleton character ++ q)
        = a ++ String.singleton c ++ p ++ String.singleton character ++ q := by
      simp only [String.append_assoc]
    have hbytes : (a ++ String.singleton c ++ p).utf8ByteSize
        = position + a.utf8ByteSize + c.utf8Size := by
      obtain rfl : position = p.utf8ByteSize := hposition
      rw [String.utf8ByteSize_append, String.utf8ByteSize_append, String.utf8ByteSize_singleton]
      omega
    have hpassed := (passed_of_tokenize ha).append_blank hc hp
    rw [← toList_around] at hpassed
    rw [hwhole, tokenize_of_stuck hpassed hstuck, hbytes]

/-- An em space between a text and one that begins with a star, and next to a letter that starts no
token. -/
theorem tokenize_across_em_space :
    let gap := String.singleton '\u2003'
    isBlank '\u2003' = true ∧
    (tokenize "1é" = .error ⟨1, 'é'⟩ ∧ tokenize ("1é" ++ gap ++ "*3") = .error ⟨1, 'é'⟩) ∧
    (tokenize "2*" = .ok [.number 2, .operator .mul] ∧
      tokenize "*3" = .ok [.operator .mul, .number 3] ∧
      tokenize ("2*" ++ gap ++ "*3")
        = .ok [.number 2, .operator .mul, .operator .mul, .number 3]) ∧
    (tokenize "1é" = .error ⟨1, 'é'⟩ ∧ tokenize ("2*" ++ gap ++ "1é") = .error ⟨6, 'é'⟩) := by
  have hc : isBlank '\u2003' = true := by decide
  have hstuck : tokenize "1é" = .error ⟨1, 'é'⟩ := by decide +kernel
  have htwo : tokenize "2*" = .ok [.number 2, .operator .mul] := by decide +kernel
  have hthree : tokenize "*3" = .ok [.operator .mul, .number 3] := by decide +kernel
  refine ⟨hc, ⟨hstuck, ?_⟩, ⟨htwo, hthree, ?_⟩, hstuck, ?_⟩
  · exact (tokenize_across_blank "1é" "*3" hc).1 _ hstuck
  · exact (tokenize_across_blank "2*" "*3" hc).2.1 _ _ htwo hthree
  · exact (tokenize_across_blank "2*" "1é" hc).2.2 _ _ _ htwo hstuck

end DeskCalc
