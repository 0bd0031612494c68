import DeskCalc.Proofs.Nesting

/-!
# Contracts of the functions of the grammar

The functions call each other, so what one of them does can be proved only under the assumption that
the others do what they should. A `Contract` says when each function may be called, what holds when it
is back, and how it may fail. If the code of every function keeps the contract under the assumption that
the functions it calls do (`Code.Keeps`), then every run keeps it (`Runs.keeps`): runs are finite, so the
assumption is used for shorter runs only.

The runs are those of the functions without fuel, and a loop is a function of its own here. So there is
one obligation for each function and each loop, and none for fuel or rounds. `runs_parse` says that the
parser works on the end of such a run.
-/

namespace DeskCalc

namespace Descent

/-- What the functions of the grammar rely on and promise. -/
structure Contract where
  /-- When a function may be called. -/
  before : {β : Type} → Call β → Cursor → Prop
  /-- What holds of the result and the new cursor when a call is back. -/
  after : {β : Type} → Call β → Cursor → β → Cursor → Prop
  /-- How a call may fail. -/
  fails : Halt → Prop

/-- A run ends in a result and a cursor that are good, or in a halt that is bad. -/
def Ends {α : Type} (good : α → Cursor → Prop) (bad : Halt → Prop) :
    Except Halt (α × Cursor) → Prop
  | .ok (a, c) => good a c
  | .error e => bad e

theorem meets_iff_ends {α : Type} {m : Descent α} {good : α → Cursor → Prop} {bad : Halt → Prop}
    {c : Cursor} : Meets m good bad c ↔ Ends good bad (m.run c) := Iff.rfl

/-- If all calls keep the contract, so does the code, and it ends in a result that is good. -/
def Code.Keeps (K : Contract) {α : Type} : Code α → (α → Cursor → Prop) → Cursor → Prop
  | done a, good, c => good a c
  | moving m next, good, c => Meets m (fun b => (next b).Keeps K good) K.fails c
  | calling q next, good, c => K.before q c ∧ ∀ b c', K.after q c b c' → (next b).Keeps K good c'

section Keeps

variable {K : Contract} {α β : Type} {good : α → Cursor → Prop} {c : Cursor}

@[simp] theorem keeps_pure (a : α) : (pure a : Code α).Keeps K good c ↔ good a c := Iff.rfl

@[simp] theorem keeps_move (m : Descent α) : (Code.move m).Keeps K good c ↔ Meets m good K.fails c :=
  Iff.rfl

@[simp] theorem keeps_call (q : Call α) :
    (Code.call q).Keeps K good c ↔ K.before q c ∧ ∀ a c', K.after q c a c' → good a c' := Iff.rfl

@[simp] theorem keeps_bind {g : Code β} {f : β → Code α} :
    (g >>= f).Keeps K good c ↔ g.Keeps K (fun b => (f b).Keeps K good) c := by
  show (g.bind f).Keeps K good c ↔ _
  induction g generalizing c with
  | done b => exact Iff.rfl
  | moving m next ih =>
    have hnext : (fun b => ((next b).bind f).Keeps K good) =
        fun b => (next b).Keeps K fun a => (f a).Keeps K good := by
      funext b c
      exact propext (ih b)
    rw [Code.bind, Code.Keeps, Code.Keeps, hnext]
  | calling q next ih => simp only [Code.bind, Code.Keeps, ih]

/-- **The rule for functions that call each other.** If the code of every function keeps the contract,
so does every run. -/
theorem Runs.keeps (hK : ∀ {β : Type} (q : Call β) (c : Cursor), K.before q c →
      q.body.Keeps K (K.after q c) c) {g : Code α} {n highest : Nat}
    {r : Except Halt (α × Cursor)} (h : Runs g n c r highest) (hg : g.Keeps K good c) :
    Ends good K.fails r := by
  induction h with
  | done => exact hg
  | moved hrun _ ih =>
    rw [Code.Keeps] at hg
    exact ih (hg.of_run hrun)
  | failed _ _ hrun =>
    rw [Code.Keeps, meets_iff_ends, hrun] at hg
    exact hg
  | called _ _ ihbody ihnext => exact ihnext (hg.2 _ _ (ihbody (hK _ _ hg.1)))
  | broken _ _ ihbody => exact ihbody (hK _ _ hg.1)

end Keeps

/-! ## What is done during a run -/

/-- Something that some code does. -/
inductive Step : Type 1
  | call {β : Type} (q : Call β)
  | move {β : Type} (m : Descent β)

/-- From a cursor, some code does something where another cursor stands: itself, or in a call of it,
whether that comes back or not. -/
inductive Makes : {α : Type} → Code α → Cursor → Step → Cursor → Prop
  | call {α β : Type} (q : Call β) (next : β → Code α) (c : Cursor) :
      Makes (.calling q next) c (.call q) c
  | within {α β : Type} {q : Call β} (next : β → Code α) {c d : Cursor} {step : Step} :
      Makes q.body c step d → Makes (.calling q next) c step d
  | behindCall {α β : Type} {q : Call β} {next : β → Code α} {n highest : Nat} {c c' d : Cursor}
      {b : β} {step : Step} : Runs q.body n c (.ok (b, c')) highest → Makes (next b) c' step d →
      Makes (.calling q next) c step d
  | move {α β : Type} (m : Descent β) (next : β → Code α) (c : Cursor) :
      Makes (.moving m next) c (.move m) c
  | behindMove {α β : Type} {m : Descent β} {next : β → Code α} {c c' d : Cursor} {b : β}
      {step : Step} : m.run c = .ok (b, c') → Makes (next b) c' step d →
      Makes (.moving m next) c step d

/-- A call is made when it may be, and a move ends well or in a way in which a call may fail. -/
def Step.Allowed (K : Contract) : Step → Cursor → Prop
  | call q, c => K.before q c
  | move m, c => Meets m (fun _ _ => True) K.fails c

/-- **The rule for what is done during a run.** If the code of every function keeps the contract, all
that is done in their calls is allowed by it. -/
theorem Makes.allowed {K : Contract} (hK : ∀ {β : Type} (q : Call β) (c : Cursor), K.before q c →
      q.body.Keeps K (K.after q c) c) {α : Type} {good : α → Cursor → Prop} {g : Code α}
    {step : Step} {c d : Cursor} (h : Makes g c step d) (hg : g.Keeps K good c) :
    step.Allowed K d := by
  induction h with
  | call => exact hg.1
  | within next _ ih => exact ih (hK _ _ hg.1)
  | behindCall hbody _ ih => exact ih (hg.2 _ _ (hbody.keeps hK (hK _ _ hg.1)))
  | move m next c => exact hg.mono (fun _ _ _ => trivial) fun _ h => h
  | behindMove hrun _ ih => exact ih (hg.of_run hrun)

/-- The parser works on the end of a run without fuel. -/
theorem runs_parse (tokens : List Token) :
    ∃ highest, Runs (Code.call .sum) 0 (.start tokens)
      ((sum descentFuel).run (.start tokens)) highest := by
  have hfollowing := following (Nat.le_of_eq (Nat.zero_add descentFuel))
  obtain ⟨highest, -, hruns⟩ := hfollowing.sum (.start tokens) (Nat.zero_le _) (run_ne_stuck tokens)
  exact ⟨highest, hruns⟩

end Descent

/-! ## Refusals -/

/-- How the parser refuses tokens: the reading of a sum has failed, or it is over before the tokens
are. -/
inductive Refused (tokens : List Token) : SyntaxError → Prop
  | fault {e : SyntaxError} :
      (Descent.sum descentFuel).run (.start tokens) = .error (.fault e) → Refused tokens e
  | unmatched {t : Expr} {c : Cursor} {s : Bracket} {after : List Token} :
      (Descent.sum descentFuel).run (.start tokens) = .ok (t, c) → c.rest = .closing s :: after →
      Refused tokens ⟨c.position, .unmatchedBracket s⟩
  | trailing {t : Expr} {c : Cursor} {tok : Token} {after : List Token} :
      (Descent.sum descentFuel).run (.start tokens) = .ok (t, c) → c.rest = tok :: after →
      (∀ s, tok ≠ .closing s) → Refused tokens ⟨c.position, .trailingTokens⟩

theorem refused {tokens : List Token} {e : SyntaxError} (h : parse tokens = .error e) :
    Refused tokens e := by
  unfold parse at h
  split at h
  · next hrun =>
    cases h
    exact .fault hrun
  · next hrun => exact absurd hrun (run_ne_stuck tokens)
  · next t c hrun =>
    split at h
    · cases h
    · next hrest =>
      cases h
      exact .unmatched hrun hrest
    · next hnil hclosing =>
      cases h
      obtain ⟨tok, after, hrest⟩ := List.exists_cons_of_ne_nil hnil
      exact .trailing hrun hrest fun s htok => hclosing s after (htok ▸ hrest)

theorem Refused.parse_eq {tokens : List Token} {e : SyntaxError} (h : Refused tokens e) :
    parse tokens = .error e := by
  unfold parse
  cases h with
  | fault hrun =>
    rw [Cursor.start] at hrun
    rw [hrun]
  | unmatched hrun hrest =>
    rw [Cursor.start] at hrun
    rw [hrun]
    simp only [hrest]
  | @trailing t c tok after hrun hrest htok =>
    rw [Cursor.start] at hrun
    rw [hrun]
    cases tok with
    | closing s => exact absurd rfl (htok s)
    | number _ | operator _ | identifier _ | opening _ | comma => simp only [hrest]

end DeskCalc
