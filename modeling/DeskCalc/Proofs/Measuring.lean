import DeskCalc.Metrics
import Mathlib.Data.List.Basic

/-!
# Whose counts a call changes

**Theorem (`counts_of_calls`).** Any calls, in any order and under any labels, return what they return
without being measured. The calls of all labels of one key are counted together, each once, under the
label of that key that came first, be it by a call or because a handle was made for it; no other counts
change. So a label that shares its key with no other has the counts of its own calls, and of no others.

All this is so for any key. The hash that a registry takes unless it is told otherwise is the same
for labels whose parts are different pieces of one text (`counts_of_shared_key`).

The owner of a label after any steps is found among the labels in the order in which they came
(`owner_runSteps`); what a run adds to the counts of a label follows by induction (`tally_runSteps`),
as each step adds to the counts of the owner that the label has in the end.
-/

namespace DeskCalc

/-- A call to be measured: what it is counted under, and what it does. Its type of errors tells which
of them are failures. -/
structure MeasuredCall where
  {Error Value : Type}
  [severity : Severity Error]
  label : Label
  body : Unit → Except Error Value

attribute [instance] MeasuredCall.severity

/-- A call with what it returned. -/
structure Returned where
  call : MeasuredCall
  result : Except call.Error call.Value

/-- Something that is done to a registry: a handle is made for a label, or a call is made through one.
Entries are never removed, so all handles of a label lead to the same counts, and the label stands for
them. Calls are in the order in which they return. -/
inductive MetricStep where
  | handle (label : Label)
  | call (c : MeasuredCall)

namespace MetricStep

/-- The label of a step. -/
def label : MetricStep → Label
  | handle label => label
  | call c => c.label

/-- The call of a step, if it makes one. -/
def call? : MetricStep → Option MeasuredCall
  | handle _ => none
  | call c => some c

end MetricStep

/-- The counts after some more calls: each is a success or a failure and is timed once. -/
def Tally.after (t : Tally) (calls : List MeasuredCall) : Tally :=
  let successes := calls.countP fun c => succeeded (c.body ())
  let failures := calls.countP fun c => !succeeded (c.body ())
  { success := t.success + successes
    failure := t.failure + failures
    timed := t.timed + (successes + failures) }

theorem Tally.after_nil (t : Tally) : t.after [] = t := rfl

theorem Tally.after_cons (t : Tally) (c : MeasuredCall) (calls : List MeasuredCall) :
    t.after (c :: calls) = (t.add (succeeded (c.body ()))).after calls := by
  cases h : succeeded (c.body ()) <;> simp [after, add, h] <;> omega

namespace Registry

/-- The registry after some steps, and what the calls among them returned. -/
def runSteps (r : Registry) : List MetricStep → List Returned × Registry
  | [] => ([], r)
  | .handle l :: rest => (r.register l).runSteps rest
  | .call c :: rest =>
    let (result, counted) := r.measure c.label c.body
    let (returned, final) := counted.runSteps rest
    (⟨c, result⟩ :: returned, final)

/-- The calls among some steps. -/
def calls (steps : List MetricStep) : List MeasuredCall := steps.filterMap MetricStep.call?

theorem calls_cons_call (c : MeasuredCall) (rest : List MetricStep) :
    calls (.call c :: rest) = c :: calls rest := rfl

theorem label_mem_of_mem_calls {c : MeasuredCall} {steps : List MetricStep} (h : c ∈ calls steps) :
    c.label ∈ steps.map MetricStep.label := by
  obtain ⟨step, hstep, hcall⟩ := List.mem_filterMap.1 h
  cases step with
  | handle l => exact nomatch hcall
  | call c' =>
    cases hcall
    exact List.mem_map_of_mem hstep

theorem key_runSteps (r : Registry) (steps : List MetricStep) : (r.runSteps steps).2.key = r.key := by
  induction steps generalizing r with
  | nil => rfl
  | cons step rest ih =>
    cases step with
    | handle l => exact ih (r.register l)
    | call c => exact ih (r.count c.label (c.body ()))

/-! ## Owners -/

theorem key_owner (r : Registry) (l : Label) : r.key (r.owner l) = r.key l := by
  rw [owner_eq]
  cases h : r.labels.find? fun k => r.key k == r.key l with
  | none => rfl
  | some k => simpa using List.find?_some h

/-- The owner is its own owner. -/
theorem owner_owner (r : Registry) (l : Label) : r.owner (r.owner l) = r.owner l := by
  have hkey := key_owner r l
  rw [owner_eq r (r.owner l), hkey, owner_eq r l]
  cases r.labels.find? fun k => r.key k == r.key l <;> rfl

theorem find?_runSteps (r : Registry) (steps : List MetricStep) (n : Nat) :
    (r.runSteps steps).2.labels.find? (fun k => r.key k == n) =
      (r.labels ++ steps.map MetricStep.label).find? fun k => r.key k == n := by
  induction steps generalizing r with
  | nil => simp [runSteps]
  | cons step rest ih =>
    have hstep : ∀ change, ((changed r.key step.label change r.entries).map Prod.fst).find?
        (fun k => r.key k == n) = (r.labels ++ [step.label]).find? fun k => r.key k == n := fun _ =>
      find?_changed ..
    rw [List.map_cons, List.append_cons, List.find?_append]
    cases step with
    | handle l =>
      rw [← hstep id, ← List.find?_append]
      exact ih (r.register l)
    | call c =>
      rw [← hstep (·.add (succeeded (c.body ()))), ← List.find?_append]
      exact ih (r.count c.label (c.body ()))

/-- In the end a label is counted under the first label of its key, among those from before and those
of the steps. -/
theorem owner_runSteps (r : Registry) (steps : List MetricStep) (l : Label) :
    (r.runSteps steps).2.owner l =
      ((r.labels ++ steps.map MetricStep.label).find? fun k => r.key k == r.key l).getD l := by
  rw [owner_eq, key_runSteps, find?_runSteps]

theorem key_owner_runSteps (r : Registry) (steps : List MetricStep) (l : Label) :
    r.key ((r.runSteps steps).2.owner l) = r.key l := by
  rw [← key_runSteps r steps]
  exact key_owner _ l

/-- The label that counts a call goes on to count all calls of its key. -/
theorem owner_runSteps_call (r : Registry) {c : MeasuredCall} {l : Label}
    (h : r.key c.label = r.key l) (rest : List MetricStep) :
    (r.runSteps (.call c :: rest)).2.owner l = r.owner c.label := by
  rw [owner_runSteps, owner_eq, h, List.find?_append]
  cases r.labels.find? fun k => r.key k == r.key l with
  | none => simp [MetricStep.label, h]
  | some k => rfl

/-! ## Counts -/

/-- The calls that a label counts: those of its key, if it owns the key in the end. -/
theorem tally_runSteps (r : Registry) (steps : List MetricStep) (l : Label) :
    (r.runSteps steps).2.tally l = (r.tally l).after ((calls steps).filter fun c =>
      r.key c.label = r.key l ∧ (r.runSteps steps).2.owner l = l) := by
  induction steps generalizing r with
  | nil => rfl
  | cons step rest ih =>
    cases step with
    | handle other =>
      show ((r.register other).runSteps rest).2.tally l = _
      rw [ih, tally_register]
      rfl
    | call c =>
      have howner : l = r.owner c.label ↔
          r.key c.label = r.key l ∧ (r.runSteps (.call c :: rest)).2.owner l = l := by
        constructor
        · intro hl
          have hkey : r.key c.label = r.key l := hl ▸ (key_owner r c.label).symm
          exact ⟨hkey, (owner_runSteps_call r hkey rest).trans hl.symm⟩
        · rintro ⟨hkey, hlast⟩
          exact hlast.symm.trans (owner_runSteps_call r hkey rest)
      show ((r.count c.label (c.body ())).runSteps rest).2.tally l = _
      rw [ih, tally_count, calls_cons_call, List.filter_cons]
      by_cases hl : l = r.owner c.label
      · rw [if_pos hl, if_pos (by simpa using howner.1 hl), Tally.after_cons]
        rfl
      · rw [if_neg hl, if_neg (by simpa using mt howner.2 hl)]
        rfl

theorem returned_runSteps (r : Registry) (steps : List MetricStep) :
    (r.runSteps steps).1 = (calls steps).map fun c => ⟨c, c.body ()⟩ := by
  induction steps generalizing r with
  | nil => rfl
  | cons step rest ih =>
    cases step with
    | handle l => exact ih (r.register l)
    | call c => exact congrArg (⟨c, c.body ()⟩ :: ·) (ih _)

/-- **Calls are counted by key.** After any steps every call has returned the result of its body; the
owner of a label is the first label of its key that there was; its counts have grown by the calls of
that key, and those of the other labels of that key have not changed. In particular a label that is the
only one of its key has counted its own calls and nothing else. -/
theorem counts_of_calls (r : Registry) (steps : List MetricStep) :
    let returned := (r.runSteps steps).1
    let final := (r.runSteps steps).2
    let seen := r.labels ++ steps.map MetricStep.label
    returned = (calls steps).map (fun c => ⟨c, c.body ()⟩) ∧
      (∀ l, final.owner l = (seen.find? fun k => r.key k == r.key l).getD l) ∧
      (∀ l, final.tally (final.owner l) = (r.tally (final.owner l)).after
        ((calls steps).filter fun c => r.key c.label = r.key l)) ∧
      (∀ l, final.owner l ≠ l → final.tally l = r.tally l) ∧
      ∀ l, (∀ k ∈ seen, r.key k = r.key l → k = l) →
        final.tally l = (r.tally l).after ((calls steps).filter fun c => c.label = l) := by
  intro returned final seen
  refine ⟨returned_runSteps r steps, owner_runSteps r steps, fun l => ?_, fun l hl => ?_,
    fun l honly => ?_⟩
  · have hgrown := tally_runSteps r steps (final.owner l)
    simpa [final, owner_owner, key_owner_runSteps] using hgrown
  · have hkept := tally_runSteps r steps l
    simpa [final, hl, Tally.after_nil] using hkept
  · have howner : final.owner l = l := by
      rw [owner_runSteps]
      cases hfind : seen.find? fun k => r.key k == r.key l with
      | none => rfl
      | some k => exact honly k (List.mem_of_find?_eq_some hfind) (by simpa using List.find?_some hfind)
    rw [tally_runSteps]
    refine congrArg (r.tally l).after (List.filter_congr fun c hc => decide_eq_decide.2 ?_)
    constructor
    · rintro ⟨hkey, -⟩
      exact honly c.label (List.mem_append_right _ (label_mem_of_mem_calls hc)) hkey
    · intro hlabel
      exact ⟨congrArg r.key hlabel, howner⟩

/-- Two labels with one part in common, two handles for one of them, and errors that are failures and
that are none: each label counts its own calls. -/
theorem counts_of_calls_apart :
    let a : Label := ⟨"layer", "a"⟩
    let b : Label := ⟨"layer", "b"⟩
    let divided : Except CalcError Float := .error (.domain .divisionByZero)
    let steps : List MetricStep := [.handle a, .handle b, .call ⟨a, fun _ => divided⟩, .handle a,
      .call ⟨b, fun _ => (.error () : Except Unit Nat)⟩, .call ⟨a, fun _ => (.ok 42 : Except Empty Nat)⟩]
    let before : Registry := {}
    let final := (before.runSteps steps).2
    (∀ k ∈ steps.map MetricStep.label, before.key k = before.key a → k = a) ∧
      (final.owner ⟨"lay", "era"⟩ = a ∧ final.owner ⟨"lay", "era"⟩ ≠ ⟨"lay", "era"⟩) ∧
      final.tally a = ⟨1, 1, 2⟩ ∧ final.tally ⟨"lay", "era"⟩ = {} := by
  intro a b divided steps before final
  have honly : ∀ k ∈ steps.map MetricStep.label, before.key k = before.key a → k = a := by
    decide +kernel
  have howner : final.owner ⟨"lay", "era"⟩ = a := by decide +kernel
  have hother : final.owner ⟨"lay", "era"⟩ ≠ ⟨"lay", "era"⟩ := by
    rw [howner]
    decide
  obtain ⟨-, -, -, hkept, hcounted⟩ := counts_of_calls before steps
  exact ⟨honly, ⟨howner, hother⟩, (hcounted a honly).trans (by decide), hkept _ hother⟩

/-- The parts of the two labels are pieces of one text, so they share their key. The call of the second
label is counted for the first one, and its own label counts nothing. -/
theorem counts_of_shared_key :
    let a : Label := ⟨"tele", "metry"⟩
    let b : Label := ⟨"telem", "etry"⟩
    let steps : List MetricStep := [.handle a, .call ⟨a, fun _ => (.ok 42 : Except Empty Nat)⟩,
      .handle b, .call ⟨b, fun _ => (.ok 42 : Except Empty Nat)⟩]
    let before : Registry := { key := Label.hash }
    let final := (before.runSteps steps).2
    final.tally a ≠ (before.tally a).after ((calls steps).filter fun c => c.label = a) ∧
      final.tally b ≠ (before.tally b).after ((calls steps).filter fun c => c.label = b) := by
  decide +kernel

end Registry

end DeskCalc
