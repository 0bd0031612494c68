import DeskCalc.Proofs.PlainNumbers

/-!
# The key that negates

**Theorem (`negate_plain`).** On a display that shows a plain number, `Neg` leaves a text that calculates
to the negated number, and a second `Neg` shows the first text again.

The key works on the text and never on the number: it takes away a minus at the very front, or puts one
there. In front of any plain number, signed or not, the new minus is one more sign (`scans_minus_iff`),
and the grammar lets signs follow each other. Where a minus is taken away, what is left is a numeral, so
it is the same text again that the second press puts the minus in front of.
-/

namespace DeskCalc

/-- What `Neg` makes of a text. -/
def toggleMinus : List Char → List Char
  | '-' :: rest => rest
  | cs => '-' :: cs

section Text

variable {cs rest : List Char} {tokens : List Token} {sign : Option Sign} {n : Numeral} {x : Float}

theorem toggleMinus_of_head (h : cs.head? ≠ some '-') : toggleMinus cs = '-' :: cs := by
  unfold toggleMinus
  split
  · simp at h
  · rfl

/-- A minus at the front is a token of its own, whatever follows. -/
theorem scans_minus_iff :
    Scans ('-' :: cs) tokens ↔ ∃ after, tokens = .operator .sub :: after ∧ Scans cs after := by
  have hminus := scan_symbol (t := .operator .sub) (c := '-') (by decide) (by decide) cs
  constructor
  · intro h
    obtain ⟨htokens, hend⟩ := Prod.mk.inj (hminus.symm.trans h.scan_eq)
    exact ⟨_, htokens.symm, scans_of_scan (Prod.ext rfl hend)⟩
  · rintro ⟨after, rfl, h⟩
    rw [h.scan_eq] at hminus
    exact scans_of_scan hminus

/-- Without its minus a plain number is a numeral, -/
theorem plain_of_minus (h : Plain sign n ('-' :: rest)) :
    sign = some .minus ∧ ∃ m, Plain none m rest ∧ m.toFloat = n.toFloat := by
  obtain ⟨after, htokens, hrest⟩ := scans_minus_iff.1 (scans_iff_plain.2 ⟨n, h, rfl⟩)
  cases sign with
  | none => cases htokens
  | some sign =>
    cases sign with
    | minus =>
      cases htokens
      exact ⟨rfl, scans_iff_plain.1 hrest⟩
    | plus => cases htokens

/-- and a numeral does not begin with one. -/
theorem head_of_plain (h : Plain none n cs) : cs.head? ≠ some '-' := by
  intro hhead
  obtain ⟨rest, rfl⟩ := List.head?_eq_some_iff.1 hhead
  cases (plain_of_minus h).1

/-- Toggling the minus of a plain number twice does nothing. -/
theorem toggleMinus_toggleMinus (h : Plain sign n cs) : toggleMinus (toggleMinus cs) = cs := by
  by_cases hhead : cs.head? = some '-'
  · obtain ⟨rest, rfl⟩ := List.head?_eq_some_iff.1 hhead
    obtain ⟨-, m, hm, -⟩ := plain_of_minus h
    exact toggleMinus_of_head (head_of_plain hm)
  · rw [toggleMinus_of_head hhead]
    rfl

theorem neg_neg_of_isFinite (hx : x.isFinite = true) : - -x = x := by
  obtain ⟨negative, p, hp, rfl⟩ := Binary64.exists_parts hx
  rw [Binary64.neg_ofParts negative hp, Binary64.neg_ofParts _ hp, Bool.not_not]

/-- A minus in front of a plain number negates it. -/
theorem calculate_minus (h : Plain sign n cs) (hfinite : n.toFloat.isFinite = true) :
    calculate (String.ofList ('-' :: cs)) = .ok (-signedValue sign n.toFloat) := by
  have htokens : tokenize (String.ofList ('-' :: cs))
      = .ok (.operator .sub :: plainTokens sign n.toFloat) := by
    rw [tokenize_eq_ok_iff, String.toList_ofList]
    exact scans_minus_iff.2 ⟨_, rfl, scans_iff_plain.2 ⟨n, h, rfl⟩⟩
  obtain ⟨k, d, hspells, hk, hd⟩ := spells_plain sign n.toFloat
  have hparse : parse (.operator .sub :: plainTokens sign n.toFloat)
      = .ok (.signed .minus (plainTree sign n.toFloat)) :=
    parse_of_spells hspells.minus.toSum (by unfold maxNodes; omega) (by unfold maxDepth; omega)
  have hvalue : (Expr.signed .minus (plainTree sign n.toFloat)).evaluate
      = .ok (-signedValue sign n.toFloat) := by
    rw [Expr.evaluate, evaluate_plainTree, if_pos hfinite]
    rfl
  exact (Calculated.value htokens hparse hvalue).eq

/-- Toggling the minus of a plain number negates it. -/
theorem calculate_toggleMinus (h : Plain sign n cs) (hfinite : n.toFloat.isFinite = true) :
    calculate (String.ofList (toggleMinus cs)) = .ok (-signedValue sign n.toFloat) := by
  by_cases hhead : cs.head? = some '-'
  · obtain ⟨rest, rfl⟩ := List.head?_eq_some_iff.1 hhead
    obtain ⟨rfl, m, hm, hvalue⟩ := plain_of_minus h
    have hrest : Plain none m (String.ofList rest).toList := by rwa [String.toList_ofList]
    show calculate (String.ofList rest) = .ok (- -n.toFloat)
    rw [calculate_plain hrest, hvalue, if_pos hfinite, neg_neg_of_isFinite hfinite]
    rfl
  · rw [toggleMinus_of_head hhead]
    exact calculate_minus h hfinite

end Text

namespace Session

theorem negate_eq (s : Session) :
    s.negate = s.edit (String.ofList (toggleMinus s.editable.toList)) := by
  unfold negate
  split
  · next rest htext =>
    rw [htext]
    rfl
  · next hfront =>
    rw [toggleMinus_of_head]
    intro hhead
    obtain ⟨rest, hrest⟩ := List.head?_eq_some_iff.1 hhead
    exact hfront rest hrest

/-- `Neg` toggles the minus of what is shown. -/
theorem display_negate {s : Session} (hd : s.display.isError = false) :
    (s.press "Neg").display = ⟨String.ofList (toggleMinus s.display.text.toList), false⟩ := by
  have heditable : s.editable = s.display.text := by simp [editable, hd]
  rw [press_negate, negate_eq, display_edit, heditable]

/-- **`Neg` negates plain numbers.** Where a plain number is shown, `Neg` leaves a text that is no error
and calculates to the number with its sign flipped, also that of zero. A second `Neg` shows the first
text again. -/
theorem negate_plain {s : Session} {v : Float} (hd : s.display.isError = false)
    (hv : plainNumber s.display.text = some v) :
    let s' := s.press "Neg"
    s'.display.isError = false ∧ calculate s'.display.text = .ok (-v) ∧
      (s'.press "Neg").display = s.display := by
  intro s'
  obtain ⟨sign, n, h⟩ := exists_plain hv
  have hs' : s'.display = ⟨String.ofList (toggleMinus s.display.text.toList), false⟩ :=
    display_negate hd
  have hd' : s'.display.isError = false := by rw [hs']
  rw [plainNumber_plain h] at hv
  split at hv
  · next hfinite =>
    cases hv
    refine ⟨hd', ?_, ?_⟩
    · rw [hs']
      exact calculate_toggleMinus h hfinite
    · rw [display_negate hd', hs']
      simp only [String.toList_ofList, toggleMinus_toggleMinus h, String.ofList_toList]
      exact congrArg (Display.mk s.display.text) hd.symm
  · cases hv

/-- A minus behind a blank, where two signs follow each other, and a minus at the front of a zero. -/
theorem negate_plain_spaced :
    let s := (start {}).run [" -5"]
    let t := (start {}).run ["- .0"]
    (s.display.isError = false ∧ plainNumber s.display.text = some (-5)) ∧
      ((s.press "Neg").display = ⟨"- -5", false⟩ ∧ calculate "- -5" = .ok (- -5) ∧
        ((s.press "Neg").press "Neg").display = s.display) ∧
      (t.display.isError = false ∧ plainNumber t.display.text = some (-0)) ∧
      (t.press "Neg").display = ⟨" .0", false⟩ ∧ calculate " .0" = .ok (- -0) ∧
        ((t.press "Neg").press "Neg").display = t.display := by
  intro s t
  have hs : s.display.isError = false := by decide +kernel
  have hsv : plainNumber s.display.text = some (-5) := by decide +kernel
  have hsn : (s.press "Neg").display = ⟨"- -5", false⟩ := by decide +kernel
  have ht : t.display.isError = false := by decide +kernel
  have htv : plainNumber t.display.text = some (-0) := by decide +kernel
  have htn : (t.press "Neg").display = ⟨" .0", false⟩ := by decide +kernel
  obtain ⟨-, hsvalue, hsagain⟩ := negate_plain hs hsv
  obtain ⟨-, htvalue, htagain⟩ := negate_plain ht htv
  rw [hsn] at hsvalue
  rw [htn] at htvalue
  exact ⟨⟨hs, hsv⟩, ⟨hsn, hsvalue, hsagain⟩, ⟨ht, htv⟩, htn, htvalue, htagain⟩

end Session

end DeskCalc
