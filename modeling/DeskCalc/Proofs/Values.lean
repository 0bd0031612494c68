import DeskCalc.Proofs.Doubles
import DeskCalc.Proofs.Parsing
import DeskCalc.Proofs.Stages
import DeskCalc.Proofs.Timeline

/-!
# Values are finite

**Theorem (`finite_values`).** Whatever an expression evaluates to is a finite double. A calculation
never fails for a wrong number of arguments; where it fails for the root of a negative number, or
for the logarithm of one that is not positive, the number named is finite and is what it is said to
be. After any presses the answer is finite.

Every operation ends in `real`, which lets only finite results pass, apart from the signs, which
keep a finite number finite. So the operands of every operation are finite, and so is the number
that a root or a logarithm refuses (`DomainError.Sound`). That calls have one argument is a matter
of the grammar, so the induction for the errors is on the phrase and not on the tree.
-/

namespace DeskCalc

open Binary64

/-! ## One operation -/

theorem isFinite_of_real {x v : Float} (h : real x = .ok v) : v.isFinite = true := by
  unfold real at h
  split at h
  · cases h
  · next hnan =>
    split at h
    · cases h
    · next hinf =>
      cases h
      exact isFinite_of_not (Bool.eq_false_iff.2 hnan) (Bool.eq_false_iff.2 hinf)

theorem isFinite_constant (c : Constant) : c.value.isFinite = true := by
  cases c <;> decide

theorem Sign.isFinite_apply (sign : Sign) {x : Float} (hx : x.isFinite = true) :
    (sign.apply x).isFinite = true := by
  cases sign with
  | minus => exact isFinite_neg hx
  | plus => exact hx

theorem Operator.isFinite_of_apply {op : Operator} {l r v : Float} (h : op.apply l r = .ok v) :
    v.isFinite = true := by
  cases op with
  | add | sub | mul | pow => exact isFinite_of_real h
  | div =>
    unfold apply at h
    dsimp only at h
    split at h
    · cases h
    · exact isFinite_of_real h

theorem Function.isFinite_of_applyOne {f : Function} {x v : Float} (h : f.applyOne x = .ok v) :
    v.isFinite = true := by
  cases f with
  | sin | cos | tan | exp | abs => exact isFinite_of_real h
  | log | sqrt =>
    unfold applyOne at h
    dsimp only at h
    split at h
    · cases h
    · exact isFinite_of_real h

theorem Function.isFinite_of_apply {f : Function} {args : List Float} {v : Float}
    (h : f.apply args = .ok v) : v.isFinite = true := by
  unfold apply at h
  split at h
  · exact isFinite_of_applyOne h
  · cases h

/-! ## Expressions -/

/-- Whatever an expression evaluates to is finite. -/
theorem Expr.isFinite_of_evaluate {v : Float} : (t : Expr) → t.evaluate = .ok v → v.isFinite = true
  | .literal x, h => by
    rw [evaluate] at h
    exact isFinite_of_real h
  | .constant c, h => by
    rw [evaluate] at h
    cases h
    exact isFinite_constant c
  | .signed sign operand, h => by
    rw [evaluate] at h
    obtain ⟨x, hx, hv⟩ := of_bind_eq_ok h
    cases hv
    exact sign.isFinite_apply (isFinite_of_evaluate operand hx)
  | .binary op left right, h => by
    rw [evaluate] at h
    obtain ⟨l, _, h⟩ := of_bind_eq_ok h
    obtain ⟨r, _, h⟩ := of_bind_eq_ok h
    exact Operator.isFinite_of_apply h
  | .call f args, h => by
    rw [evaluate] at h
    obtain ⟨values, _, h⟩ := of_bind_eq_ok h
    exact Function.isFinite_of_apply h

/-! ## Errors -/

/-- What a domain error of an expression that was read can be: a root or a logarithm that it names
is of a finite number outside of the domain, and no call has a wrong number of arguments. -/
def DomainError.Sound : DomainError → Prop
  | negativeSqrt x => x.isFinite = true ∧ x < 0
  | nonPositiveLog x => x.isFinite = true ∧ x ≤ 0
  | arity _ _ _ => False
  | divisionByZero | notANumber | overflow => True

section Errors

variable {e : DomainError} {x : Float}

theorem sound_of_real (h : real x = .error e) : e.Sound := by
  unfold real at h
  split at h
  · cases h
    trivial
  · split at h
    · cases h
      trivial
    · cases h

theorem Operator.sound_of_apply {op : Operator} {l r : Float} (h : op.apply l r = .error e) :
    e.Sound := by
  cases op with
  | add | sub | mul | pow => exact sound_of_real h
  | div =>
    unfold apply at h
    dsimp only at h
    split at h
    · cases h
      trivial
    · exact sound_of_real h

theorem Function.sound_of_apply {f : Function} (hx : x.isFinite = true)
    (h : f.apply [x] = .error e) : e.Sound := by
  change f.applyOne x = .error e at h
  cases f with
  | sin | cos | tan | exp | abs => exact sound_of_real h
  | log | sqrt =>
    unfold applyOne at h
    dsimp only at h
    split at h
    · next hdomain =>
      cases h
      exact ⟨hx, hdomain⟩
    · exact sound_of_real h

theorem Expr.sound_binary {op : Operator} {left right : Expr}
    (hl : ∀ e, left.evaluate = .error e → e.Sound) (hr : ∀ e, right.evaluate = .error e → e.Sound)
    (h : (binary op left right).evaluate = .error e) : e.Sound := by
  rw [evaluate] at h
  rcases of_bind_eq_error h with h | ⟨l, _, h⟩
  · exact hl e h
  rcases of_bind_eq_error h with h | ⟨r, _, h⟩
  · exact hr e h
  · exact Operator.sound_of_apply h

theorem Expr.sound_signed {sign : Sign} {operand : Expr}
    (ho : ∀ e, operand.evaluate = .error e → e.Sound)
    (h : (signed sign operand).evaluate = .error e) : e.Sound := by
  rw [evaluate] at h
  rcases of_bind_eq_error h with h | ⟨x, _, h⟩
  · exact ho e h
  · cases h

/-- The errors of an expression that was read are sound. -/
theorem Spells.sound_of_evaluate {p : Phrase} {w : List Token} {t : Expr} {n d : Nat}
    (h : Spells p w t n d) : ∀ e, t.evaluate = .error e → e.Sound := by
  induction h with
  | sumOfProduct _ ih | productOfPower _ ih | powerOfSigned _ ih | signedOfAtom _ ih => exact ih
  | sumSnoc _ _ _ ihl ihr | productSnoc _ _ _ ihl ihr | raise _ _ ihl ihr =>
    exact fun e => Expr.sound_binary ihl ihr
  | minus _ ih | plus _ ih => exact fun e => Expr.sound_signed ih
  | number x =>
    intro e h
    rw [Expr.evaluate] at h
    exact sound_of_real h
  | constant c =>
    intro e h
    rw [Expr.evaluate] at h
    cases h
  | group _ _ ih => exact ih
  | @call _ t _ _ f _ _ ih =>
    intro e h
    rw [Expr.evaluate_call_one] at h
    rcases of_bind_eq_error h with h | ⟨x, hx, h⟩
    · exact ih e h
    · exact Function.sound_of_apply (t.isFinite_of_evaluate hx) h

end Errors

/-! ## Calculations -/

theorem isFinite_of_calculate {s : String} {x : Float} (h : calculate s = .ok x) :
    x.isFinite = true := by
  obtain ⟨_, t, _, _, hvalue⟩ := stages_of_calculate h
  exact t.isFinite_of_evaluate hvalue

theorem sound_of_calculate {s : String} {e : DomainError} (h : calculate s = .error (.domain e)) :
    e.Sound := by
  have hs := calculated s
  rw [h] at hs
  cases hs with
  | noValue _ hparse hvalue =>
    obtain ⟨_, _, ht, _, _⟩ := spells_of_parse hparse
    exact ht.sound_of_evaluate e hvalue

namespace Session

theorem isFinite_of_applyAfter {f : Option Function} {text : String} {x : Float}
    (h : applyAfter f (calculate text) = .ok x) : x.isFinite = true := by
  have ha := applied f (calculate text)
  rw [h] at ha
  generalize hresult : calculate text = result at ha
  cases ha with
  | plain => exact isFinite_of_calculate hresult
  | value happly => exact Function.isFinite_of_apply happly

/-- No press leaves an answer that is not finite. -/
theorem isFinite_answer_press {s : Session} (ha : s.answer.isFinite = true) (text : String) :
    (s.press text).answer.isFinite = true := by
  have h := pressed s text
  generalize s.press text = s' at h
  cases h with
  | kept => exact ha
  | edited text => exact ha
  | stored x m _ _ _ => exact ha
  | undone => exact ha
  | redone => exact ha
  | settled f _ =>
    cases hresult : applyAfter f (calculate s.display.text) with
    | ok x => exact isFinite_of_applyAfter hresult
    | error e => exact ha

/-- **Values are finite.** Every value of an expression is a finite double. A calculation fails for
no wrong number of arguments; a number whose root it refuses is finite and below zero, and one whose
logarithm it refuses is finite and not above zero. After any presses the answer is finite. -/
theorem finite_values :
    (∀ (t : Expr) (v : Float), t.evaluate = .ok v → v.isFinite = true) ∧
    (∀ (s : String) (e : DomainError), calculate s = .error (.domain e) →
      (∀ f expected found, e ≠ .arity f expected found) ∧
      (∀ x, e = .negativeSqrt x → x.isFinite = true ∧ x < 0) ∧
      ∀ x, e = .nonPositiveLog x → x.isFinite = true ∧ x ≤ 0) ∧
    ∀ (settings : SessionSettings) (texts : List String),
      ((start settings).run texts).answer.isFinite = true := by
  refine ⟨fun t _ => t.isFinite_of_evaluate, fun s e h => ?_, fun settings texts => ?_⟩
  · have hsound := sound_of_calculate h
    refine ⟨?_, ?_, ?_⟩
    · rintro f expected found rfl
      exact hsound
    · rintro x rfl
      exact hsound
    · rintro x rfl
      exact hsound
  · have hstart : (start settings).answer.isFinite = true := by
      show (0 : Float).isFinite = true
      decide
    exact run_keeps (P := fun s => s.answer.isFinite = true)
      (fun _ text ha => isFinite_answer_press ha text) hstart texts

/-- A root and a logarithm out of their domains, the second at negative zero. -/
theorem finite_values_refused :
    ((Expr.signed .minus (.literal 4)).evaluate = .ok (-4) ∧ (-4 : Float).isFinite = true) ∧
    (calculate "sqrt(-4)" = .error (.domain (.negativeSqrt (-4))) ∧
      (-4 : Float).isFinite = true ∧ (-4 : Float) < 0) ∧
    (calculate "log(-0)" = .error (.domain (.nonPositiveLog (-0))) ∧
      (-0 : Float).isFinite = true ∧ (-0 : Float) ≤ 0) := by
  obtain ⟨hvalue, herror, -⟩ := finite_values
  have hfour : (Expr.signed .minus (.literal 4)).evaluate = .ok (-4) := by decide +kernel
  have hsqrt : calculate "sqrt(-4)" = .error (.domain (.negativeSqrt (-4))) := by decide +kernel
  have hlog : calculate "log(-0)" = .error (.domain (.nonPositiveLog (-0))) := by decide +kernel
  exact ⟨⟨hfour, hvalue _ _ hfour⟩, ⟨hsqrt, (herror _ _ hsqrt).2.1 _ rfl⟩,
    ⟨hlog, (herror _ _ hlog).2.2 _ rfl⟩⟩

end Session

end DeskCalc
