import DeskCalc.Proofs.Timeline

/-!
# What the counts of calculations say

**Theorem (`counts_of_run`).** Over any presses, the number of timed calculations grows by the
number of evaluations: the presses of a key that evaluates, at a display that is no error. The
failures grow by the evaluations that end on the error marker, except for those where the text shown
has a value and only the function of the key has none there; these count as successes, like the
evaluations that end on a result.

The reason is that a calculation is counted by its own outcome, before a function is applied to its
result. `counts_as_success` compares that outcome with what the display shows afterwards, for one
press.
-/

namespace DeskCalc

namespace Session

/-! ## The presses of a run -/

/-- A press, with the session that it finds. -/
structure Press where
  before : Session
  text : String

/-- The presses of a run, in order. -/
def presses (s : Session) : List String → List Press
  | [] => []
  | text :: rest => ⟨s, text⟩ :: (s.press text).presses rest

namespace Press

/-- The press evaluates the display: its key does, and the display is no error. -/
def evaluates (p : Press) : Bool :=
  decide (p.text ∈ Key.evaluating) && !p.before.display.isError

/-- The press ends on the error marker. -/
def fails (p : Press) : Bool := (p.before.press p.text).display.isError

/-- The text shown has a value, but the function of the key has none there. -/
def misapplies (p : Press) : Bool :=
  match Function.ofName? p.text, calculate p.before.display.text with
  | some f, .ok x => !(f.apply [x]).isOk
  | _, _ => false

end Press

/-- The evaluations of a run. -/
def evaluations (s : Session) (texts : List String) : List Press :=
  (s.presses texts).filter Press.evaluates

/-! ## One press -/

theorem evaluates_of_mem {text : String} (h : text ∈ Key.evaluating) :
    Evaluates text (Function.ofName? text) := by
  simp only [Key.evaluating, List.mem_cons, List.not_mem_nil, or_false] at h
  rcases h with rfl | rfl | rfl | rfl | rfl | rfl | rfl | rfl | rfl
  · exact .equals
  · exact .execute
  · exact .function .sin
  · exact .function .cos
  · exact .function .tan
  · exact .function .log
  · exact .function .sqrt
  · exact .function .exp
  · exact .function .abs

theorem isError_settle (s : Session) (result : Except CalcError Float) :
    (s.settle result).display.isError = !result.isOk := by
  rw [display_settle]
  cases result <;> rfl

namespace Press

variable {p : Press}

theorem not_isError (h : p.evaluates = true) : p.before.display.isError = false := by
  simpa using (Bool.and_eq_true_iff.1 h).2

theorem mem_evaluating (h : p.evaluates = true) : p.text ∈ Key.evaluating :=
  of_decide_eq_true (Bool.and_eq_true_iff.1 h).1

/-- An evaluation fails if the calculation has no result, or if the function has none there. -/
theorem fails_eq (h : p.evaluates = true) :
    p.fails =
      !(applyAfter (Function.ofName? p.text) (calculate p.before.display.text)).isOk := by
  rw [fails, (evaluates_of_mem (mem_evaluating h)).press_settle (not_isError h), isError_settle]

/-- The calculation of an evaluation counts as a success if the press ends on a result, and if only
the function of the key fails. -/
theorem counts_as_success (h : p.evaluates = true) :
    succeeded (calculate p.before.display.text) = (!p.fails || p.misapplies) := by
  rw [fails_eq h, misapplies]
  cases calculate p.before.display.text with
  | error e => cases Function.ofName? p.text <;> rfl
  | ok x =>
    cases Function.ofName? p.text with
    | none => rfl
    | some f =>
      show true = (!!(((f.apply [x]).mapError CalcError.domain).isOk) || !(f.apply [x]).isOk)
      cases f.apply [x] <;> rfl

end Press

end Session

namespace Desk

open Session

/-! ## Desks -/

variable {d : Desk} {p : Press}

/-- An evaluation counts one calculation, by its own outcome. -/
theorem counts_press_of_evaluates (hd : d.session = p.before) (h : p.evaluates = true) :
    (d.press p.text).counts =
      d.counts.count calculationLabel (calculate p.before.display.text) := by
  rw [(evaluates_of_mem (Press.mem_evaluating h)).desk_press, evaluate, hd, Press.not_isError h]
  rfl

/-- Any other press counts none. -/
theorem counts_press_of_not_evaluates (hd : d.session = p.before) (h : p.evaluates = false) :
    (d.press p.text).counts = d.counts := by
  by_cases ht : p.text ∈ Key.evaluating
  · rw [Press.evaluates, decide_eq_true ht, Bool.true_and, Bool.not_eq_false'] at h
    rw [(evaluates_of_mem ht).desk_press, evaluate, hd, h]
    rfl
  · have hkey : (Key.ofText p.text).evaluates ≠ true := mt (Key.evaluates_ofText_iff p.text).1 ht
    unfold press
    cases hof : Key.ofText p.text with
    | button b =>
      cases b with
      | evaluate => exact absurd (by rw [hof]; rfl) hkey
      | _ => rfl
    | function f => exact absurd (by rw [hof]; rfl) hkey
    | constant c => rfl
    | text more => rfl

/-! ## Runs -/

/-- The counts of calculations, which stand under the owner of their label. -/
def calculations (d : Desk) : Tally := d.counts.tally (d.counts.owner calculationLabel)

/-- What one evaluation adds to the counts. -/
theorem calculations_press {p : Press} (hd : d.session = p.before) (h : p.evaluates = true) :
    (d.press p.text).calculations =
      { success := d.calculations.success + if !p.fails || p.misapplies then 1 else 0
        failure := d.calculations.failure + if p.fails && !p.misapplies then 1 else 0
        timed := d.calculations.timed + 1 } := by
  have hcounts := counts_press_of_evaluates hd h
  rw [calculations, hcounts, Registry.owner_count, Registry.tally_count, if_pos rfl,
    p.counts_as_success h, Tally.add, calculations]
  cases p.fails <;> cases p.misapplies <;> rfl

/-- **Calculations are counted by their own outcome.** Any presses add to the timed calculations one
for each evaluation; to the failures one for each evaluation that ends on the error marker, unless
only the function of its key failed; and to the successes one for each other evaluation, which ends
on a result or is one where only the function failed. -/
theorem counts_of_run (d : Desk) (texts : List String) :
    let before := d.calculations
    let after := (d.run texts).calculations
    after.timed = before.timed + (d.session.evaluations texts).length ∧
      after.failure =
        before.failure + (d.session.evaluations texts).countP (fun p => p.fails && !p.misapplies) ∧
      after.success =
        before.success + (d.session.evaluations texts).countP (fun p => !p.fails || p.misapplies) := by
  intro before after
  induction texts generalizing d with
  | nil => exact ⟨rfl, rfl, rfl⟩
  | cons text rest ih =>
    obtain ⟨htimed, hfailure, hsuccess⟩ := ih (d.press text)
    rw [session_press] at htimed hfailure hsuccess
    cases hp : Press.evaluates ⟨d.session, text⟩ with
    | false =>
      have hcounts : (d.press text).calculations = d.calculations := by
        rw [calculations, counts_press_of_not_evaluates rfl hp, calculations]
      have hevaluations :
          d.session.evaluations (text :: rest) = (d.session.press text).evaluations rest :=
        List.filter_cons_of_neg (by rw [hp]; nofun)
      rw [hcounts] at htimed hfailure hsuccess
      rw [hevaluations]
      exact ⟨htimed, hfailure, hsuccess⟩
    | true =>
      have hcounts := calculations_press rfl hp
      have hevaluations : d.session.evaluations (text :: rest)
          = ⟨d.session, text⟩ :: (d.session.press text).evaluations rest :=
        List.filter_cons_of_pos hp
      rw [hevaluations, List.length_cons, List.countP_cons, List.countP_cons]
      rw [hcounts] at htimed hfailure hsuccess
      refine ⟨htimed.trans ?_, hfailure.trans ?_, hsuccess.trans ?_⟩ <;>
        rw [Nat.add_right_comm, Nat.add_assoc]

/-- Presses without an evaluation count nothing. -/
theorem counts_run_of_no_evaluation {texts : List String} (h : d.session.evaluations texts = []) :
    (d.run texts).counts = d.counts := by
  induction texts generalizing d with
  | nil => rfl
  | cons text rest ih =>
    obtain ⟨hp, hrest⟩ := List.forall_mem_cons.1 (List.filter_eq_nil_iff.1 h)
    have hafter : (d.press text).session.evaluations rest = [] := by
      rw [session_press]
      exact List.filter_eq_nil_iff.2 hrest
    exact (ih hafter).trans (counts_press_of_not_evaluates (p := ⟨d.session, text⟩) rfl
      (Bool.eq_false_iff.2 hp))

/-- Where nothing is registered, nothing is reported before the first evaluation. -/
theorem encode_of_no_evaluation (exposition : Exposition) {texts : List String}
    (hnone : d.counts.entries = []) (h : d.session.evaluations texts = []) :
    exposition.encode (d.run texts).counts = "" := by
  rw [counts_run_of_no_evaluation h]
  exact exposition.encode_nil _ hnone

/-- The square root of `-1` ends on the marker, and yet no failure is counted but a success. -/
theorem failures_miss_misapplied :
    let d : Desk := { session := .start {} }
    let texts := ["-1", "sqrt"]
    let before := d.calculations
    let after := (d.run texts).calculations
    (d.session.evaluations texts).countP (fun p => p.fails) = 1 ∧
      after.failure ≠ before.failure + (d.session.evaluations texts).countP (fun p => p.fails) ∧
      after.success ≠ before.success + (d.session.evaluations texts).countP (fun p => !p.fails) := by
  decide +kernel

end Desk

end DeskCalc
