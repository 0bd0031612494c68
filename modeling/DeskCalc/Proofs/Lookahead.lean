import Mathlib.Data.Bool.Basic
import DeskCalc.Proofs.Pointing

/-!
# How far the parser looks ahead

**Theorem (`error_final`).** A syntax error is final once its token has been seen. If the parser refuses
some tokens at index `p`, it refuses all tokens that begin with the first `p + 1` of them, with the same
error; a limit that is exceeded is found before the token at `p` is seen, so there the first `p` tokens
are enough. Only a wrong number of arguments is found behind the index of its error.

The proof compares two runs over tokens that are the same up to an index `N`. Their cursors agree
(`Cursor.Agree`) until one looks at the token at `N`. From then on its run is past `N` (`Cursor.Past`):
the cursor stands at `N`, with the next token looked at, or behind `N`. Such a run can end only in errors
that are past `N` too (`Runs.past`), and a run that does not end past `N` ends alike from all cursors that
agree (`Runs.agree`). Both rest on the order in which code looks at the next token, counts against a limit
and reads on: `Code.Steady` says of code, move by move, that no limit is met between a look and the
reading of the token, and `steady_body` that the code of every function is so.
-/

namespace DeskCalc

namespace Cursor

/-- Two cursors have come the same way, and the tokens in front of them are the same up to the index
`N`. -/
def Agree (N : Nat) (c c' : Cursor) : Prop :=
  ∃ rest, c' = { c with rest } ∧ rest.take (N - c.position) = c.rest.take (N - c.position)

/-- The token at index `N` has been looked at: it is read, or it is the next one and the next one is
`looked` at. -/
def Past (N : Nat) (looked : Bool) (c : Cursor) : Prop := N < c.position + looked.toNat

variable {N : Nat} {looked looked' : Bool} {c c' : Cursor}

theorem Agree.start {ts us : List Token} (h : us.take N = ts.take N) :
    (Cursor.start ts).Agree N (.start us) := ⟨us, rfl, h⟩

/-- The next token is the same, if it stands in front of `N`. -/
theorem Agree.head?_eq (h : c.Agree N c') (hN : c.position < N) : c'.rest.head? = c.rest.head? := by
  obtain ⟨rest, rfl, hrest⟩ := h
  have hpos : N - c.position ≠ 0 := Nat.sub_ne_zero_of_lt hN
  have hhead := congrArg List.head? hrest
  rwa [List.head?_take, if_neg hpos, List.head?_take, if_neg hpos] at hhead

theorem Agree.moved (h : c.Agree N c') (w : List Token) (n : Nat) :
    (c.moved w n).Agree N (c'.moved w n) := by
  obtain ⟨rest, rfl, hrest⟩ := h
  refine ⟨rest.drop w.length, rfl, ?_⟩
  simp only [Cursor.moved, Nat.sub_add_eq, ← List.drop_take, hrest]

theorem Past.le (h : c.Past N looked) : N ≤ c.position := by
  unfold Past at h
  cases looked <;> simp at h <;> omega

theorem past_looked (h : N ≤ c.position) : c.Past N true := Nat.lt_succ_of_le h

theorem Past.mono (h : c.Past N looked) (hlooked : looked ≤ looked') : c.Past N looked' :=
  Nat.lt_of_lt_of_le h (Nat.add_le_add_left (Bool.toNat_le_toNat hlooked) c.position)

end Cursor

/-- When an error may be due to the token at index `N` or one behind it: by its index, which a limit
leaves before it looks at the next token. A wrong number of arguments may be found anywhere. -/
def SyntaxError.Past (N : Nat) (e : SyntaxError) : Prop :=
  match e.cause with
  | .arity .. => True
  | .tooDeep | .tooLarge => N < e.position
  | _ => N ≤ e.position

/-- When a halt may be due to the token at index `N` or one behind it. -/
def Halt.Past (N : Nat) : Halt → Prop
  | .fault e => e.Past N
  | .stuck => True

namespace Descent

variable {α β : Type} {N : Nat} {looked : Bool} {c : Cursor}

theorem past_misplaced {p : Nat} {t : Option Token} (h : N ≤ p) :
    (Halt.fault ⟨p, misplaced t⟩).Past N := by
  cases t <;> exact h

theorem past_unclosing {p : Nat} {s : Bracket} {t : Option Token} (h : N ≤ p) :
    (Halt.fault ⟨p, unclosing s t⟩).Past N := by
  unfold unclosing
  split <;> exact h

/-! ## Moves -/

/-- What comes of a cursor is past `N` if the cursor is, and otherwise it comes alike of every cursor
that agrees, or is past `N` too. -/
def Carries (N : Nat) (looked : Bool) (c : Cursor) (past : Prop) (alike : Cursor → Prop) : Prop :=
  (c.Past N looked → past) ∧ ∀ c', c.Agree N c' → past ∨ alike c'

/-- What is found by a look at the next token. -/
theorem carries_look {past : Prop} {alike : Cursor → Prop} (hpast : N ≤ c.position → past)
    (halike : ∀ c', c.Agree N c' → c'.rest.head? = c.rest.head? → alike c') :
    Carries N looked c past alike := by
  refine ⟨fun h => hpast h.le, fun c' hc' => ?_⟩
  rcases Nat.lt_or_ge c.position N with hN | hN
  · exact .inr (halike c' hc' (hc'.head?_eq hN))
  · exact .inl (hpast hN)

/-- A move comes to a good result or fails, and so it does from all cursors that agree, unless what
comes of it is past `N`. The results are the `same`. -/
def Steps (N : Nat) (m : Descent β) (same : β → β → Prop) (good : β → Bool → Cursor → Prop)
    (looked : Bool) (c : Cursor) : Prop :=
  Meets m
    (fun b d => ∃ looked', good b looked' d ∧ Carries N looked c (d.Past N looked')
      (Meets m (fun b' d' => same b b' ∧ d.Agree N d') fun _ => False))
    (fun e => Carries N looked c (e.Past N) (Meets m (fun _ _ => False) (· = e))) c

section Steps

variable {good : β → Bool → Cursor → Prop} {same : β → β → Prop}

theorem Meets.exists_run {m : Descent β} {good : β → Cursor → Prop}
    (h : Meets m good (fun _ => False) c) : ∃ b d, m.run c = .ok (b, d) ∧ good b d := by
  unfold Meets at h
  split at h
  · next b d hrun => exact ⟨b, d, hrun, h⟩
  · exact h.elim

theorem Meets.run_eq_error {m : Descent β} {e : Halt}
    (h : Meets m (fun _ _ => False) (· = e) c) : m.run c = .error e := by
  unfold Meets at h
  split at h
  · exact h.elim
  · next hrun => rw [hrun, h]

theorem steps_bind {m : Descent α} {k : α → Descent β}
    (h : Steps N m (· = ·) (fun a looked d => Steps N (k a) same good looked d) looked c) :
    Steps N (m >>= k) same good looked c := by
  unfold Steps
  rw [meets_bind]
  refine Meets.mono h ?_ ?_
  · rintro a d ⟨looked', hk, hpast, halike⟩
    have hcarries {past : Prop} {alike₁ alike₂ : Cursor → Prop}
        (h₁ : Carries N looked' d past alike₁)
        (h₂ : ∀ c' d', m.run c' = .ok (a, d') → alike₁ d' → alike₂ c') :
        Carries N looked c past alike₂ := by
      refine ⟨fun hc => h₁.1 (hpast hc), fun c' hc' => ?_⟩
      rcases halike c' hc' with hd | hmeets
      · exact .inl (h₁.1 hd)
      · obtain ⟨_, d', hrun, rfl, hd'⟩ := hmeets.exists_run
        exact (h₁.2 d' hd').imp_right (h₂ c' d' hrun)
    have hthen {good' : β → Cursor → Prop} {bad' : Halt → Prop} (c' d' : Cursor)
        (hrun : m.run c' = .ok (a, d')) (h' : Meets (k a) good' bad' d') :
        Meets (m >>= k) good' bad' c' := by
      rw [meets_bind, meets_iff_ends, hrun]
      exact h'
    refine hk.mono ?_ fun e he => hcarries he hthen
    rintro b d₂ ⟨looked₂, hgood, hcarried⟩
    exact ⟨looked₂, hgood, hcarries hcarried hthen⟩
  · rintro e ⟨hpast, halike⟩
    refine ⟨hpast, fun c' hc' => (halike c' hc').imp_right fun hmeets => ?_⟩
    rw [meets_bind, meets_iff_ends, hmeets.run_eq_error]
    rfl

theorem steps_peek {good : Option Token → Bool → Cursor → Prop} (h : good c.rest.head? true c) :
    Steps N peek? (· = ·) good looked c :=
  meets_peek.2 ⟨true, h, carries_look Cursor.past_looked fun _ hc' hhead =>
    meets_peek.2 ⟨hhead.symm, hc'⟩⟩

theorem steps_operator? {ops : List Operator} {good : Option Operator → Bool → Cursor → Prop}
    (hs : ∀ op, good (some op) false (c.moved [.operator op] 0)) (hn : good none true c) :
    Steps N (operator? ops) (· = ·) good looked c := by
  refine meets_operator? (fun op hop after hr => ?_) fun hnone => ?_
  · refine ⟨false, hs op, carries_look Nat.lt_succ_of_le fun c' hc' hhead => ?_⟩
    rw [hr] at hhead
    refine meets_operator? (fun op' _ after' hr' => ?_) fun h' => absurd hhead (h' op hop)
    rw [hr'] at hhead
    cases hhead
    exact ⟨rfl, hc'.moved _ _⟩
  · refine ⟨true, hn, carries_look Cursor.past_looked fun c' hc' hhead => ?_⟩
    refine meets_operator? (fun op hop after hr => ?_) fun _ => ⟨rfl, hc'⟩
    rw [hr] at hhead
    exact absurd hhead.symm (hnone op hop)

/-- Whether a token is read that has been looked at does not matter. -/
theorem steps_advance {good : Unit → Bool → Cursor → Prop} (tok : Token)
    (h : good () false (c.moved [tok] 0)) : Steps N advance (· = ·) good looked c := by
  have hadvance (c : Cursor) : advance.run c = .ok ((), c.moved [tok] 0) := by
    rw [Cursor.moved, List.length_singleton, List.drop_one]
    rfl
  unfold Steps
  rw [meets_iff_ends, hadvance]
  refine ⟨false, h, fun hc => Nat.lt_succ_of_le hc.le, fun c' hc' => .inr ?_⟩
  rw [meets_iff_ends, hadvance]
  exact ⟨rfl, hc'.moved _ _⟩

/-- A limit is met before the next token is looked at. Afterwards its error could be due to a token that
only one of two runs has at `N`, and still stand at `N`. -/
theorem steps_descend {good : Unit → Bool → Cursor → Prop} (h : good () false c.deeper) :
    Steps N descend (· = ·) good false c := by
  refine meets_descend (fun hle => ⟨false, h, fun hc => hc, fun c' hc' => .inr ?_⟩)
    fun hlt => ⟨fun hc => hc, fun c' hc' => .inr ?_⟩
  all_goals obtain ⟨rest, rfl, hrest⟩ := hc'
  · exact meets_descend (fun _ => ⟨rfl, rest, rfl, hrest⟩) fun hlt => absurd hle (Nat.not_le.2 hlt)
  · exact meets_descend (fun hle => absurd hle (Nat.not_le.2 hlt)) fun _ => rfl

theorem steps_countNode {good : Unit → Bool → Cursor → Prop} (h : good () false (c.moved [] 1)) :
    Steps N countNode (· = ·) good false c := by
  refine meets_countNode (fun hle => ⟨false, h, fun hc => hc, fun c' hc' => .inr ?_⟩)
    fun hlt => ⟨fun hc => hc, fun c' hc' => .inr ?_⟩
  -- cursors that agree have counted alike, so both are within the limit or neither is
  · have hmoved := hc'.moved [] 1
    obtain ⟨rest, rfl, -⟩ := hc'
    exact meets_countNode (fun _ => ⟨rfl, hmoved⟩) fun hlt => absurd hle (Nat.not_le.2 hlt)
  · obtain ⟨rest, rfl, -⟩ := hc'
    exact meets_countNode (fun hle => absurd hle (Nat.not_le.2 hlt)) fun _ => rfl

theorem steps_enter {s : Bracket} {good : Unit → Bool → Cursor → Prop}
    (h : good () false (c.inside s)) : Steps N (enter s) (· = ·) good false c := by
  rw [enter]
  refine steps_bind (steps_descend ?_)
  refine meets_modify.2 ⟨false, h, fun hc => hc, fun c' hc' => .inr (meets_modify.2 ⟨rfl, ?_⟩)⟩
  obtain ⟨rest, rfl, hrest⟩ := hc'
  exact ⟨rest, rfl, hrest⟩

theorem steps_ascend {good : Unit → Bool → Cursor → Prop} (h : ∀ d, good () looked d) :
    Steps N ascend (· = ·) good looked c := by
  obtain ⟨rest, position, opened, depth, nodes⟩ := c
  cases depth with
  | zero => exact ⟨fun _ => trivial, fun _ _ => .inl trivial⟩
  | succ depth =>
    refine ⟨looked, h _, fun hc => hc, fun c' hc' => .inr ?_⟩
    obtain ⟨rest', rfl, hrest⟩ := hc'
    exact ⟨rfl, rest', rfl, hrest⟩

theorem steps_close {good : Unit → Bool → Cursor → Prop}
    (h : ∀ d : Cursor, d.position = c.position + 1 → good () false d) :
    Steps N close (· = ·) good looked c := by
  cases ho : c.opened with
  | nil =>
    unfold Steps close
    rw [meets_bind, meets_get, ho]
    exact ⟨fun _ => trivial, fun _ _ => .inl trivial⟩
  | cons s outer =>
    refine meets_closing ho (fun after hr => ?_) fun hne => carries_look past_unclosing ?_
    · refine ⟨false, h _ rfl, carries_look Nat.lt_succ_of_le ?_⟩
      rintro c' ⟨rest, rfl, hrest⟩ hhead
      refine meets_closing (c := { c with rest }) ho (fun _ _ => ⟨rfl, ?_⟩) fun hne => ?_
      · exact Cursor.Agree.moved (c := { c with opened := outer }) ⟨rest, rfl, hrest⟩ _ _
      · rw [hr] at hhead
        exact absurd hhead hne
    · rintro c' ⟨rest, rfl, -⟩ hhead
      refine meets_closing (c := { c with rest }) ho (fun after hr => ?_) fun _ => by rw [hhead]
      rw [hr] at hhead
      exact absurd hhead.symm hne

theorem steps_leave {good : Unit → Bool → Cursor → Prop} (h : ∀ d, good () false d) :
    Steps N leave (· = ·) good looked c :=
  steps_bind (steps_close fun _ _ => steps_ascend h)

theorem steps_failUnexpected : Steps N (failUnexpected : Descent β) same good looked c := by
  refine meets_failUnexpected.2 (carries_look past_misplaced ?_)
  rintro c' ⟨rest, rfl, -⟩ hhead
  exact meets_failUnexpected.2 (by rw [hhead])

/-- An error at an index that is known. -/
theorem steps_failAt {p : Nat} {cause : SyntaxCause}
    (h : c.Past N looked → SyntaxError.Past N ⟨p, cause⟩) :
    Steps N (failAt p cause : Descent β) same good looked c :=
  ⟨h, fun _ _ => .inr rfl⟩

theorem steps_fail {cause : SyntaxCause}
    (h : c.Past N looked → SyntaxError.Past N ⟨c.position, cause⟩) :
    Steps N (fail cause : Descent β) same good looked c := by
  refine ⟨h, ?_⟩
  rintro c' ⟨rest, rfl, -⟩
  exact .inr rfl

end Steps

/-! ## Code -/

/-- Whether a function looks at the next token before all else, so that it does not matter whether that
has been done. -/
def Call.looks : {β : Type} → Call β → Bool
  | _, .named .. | _, .group _ | _, .arguments _ => false
  | _, _ => true

/-- When a function may be called: what follows a name is read right behind it. -/
def Call.Ready : {β : Type} → Call β → Cursor → Prop
  | _, .named start _, c => start + 1 = c.position
  | _, _, _ => True

/-- All moves of the code carry what they do over to cursors that agree, and a function that does not
look at the next token is called only where that has not been done. -/
def Code.Steady (N : Nat) {α : Type} : Code α → Bool → Cursor → Prop
  | done _, _, _ => True
  | moving m next, looked, c =>
    Steps N m (fun b b' => next b = next b') (fun b => (next b).Steady N) looked c
  | calling q next, looked, c =>
    q.Ready c ∧ looked ≤ q.looks ∧ ∀ b d, (next b).Steady N true d

section Steady

theorem steady_move {m : Descent β} {next : β → Code α}
    (h : Steps N m (· = ·) (fun b => (next b).Steady N) looked c) :
    (Code.move m >>= next).Steady N looked c := by
  refine Meets.mono h ?_ fun _ he => he
  rintro b d ⟨looked', hnext, hpast, halike⟩
  refine ⟨looked', hnext, hpast, fun c' hc' => (halike c' hc').imp_right fun hmeets => ?_⟩
  refine Meets.mono hmeets ?_ fun _ he => he
  rintro b' d' ⟨rfl, hd'⟩
  exact ⟨rfl, hd'⟩

/-- Code that goes on from the position of the cursor only. -/
theorem steady_get {next : Cursor → Code α} (hnext : ∀ rest, next c = next { c with rest })
    (h : (next c).Steady N looked c) : (Code.move get >>= next).Steady N looked c := by
  show Steps N get (fun b b' => next b = next b') (fun b => (next b).Steady N) looked c
  refine meets_get.2 ⟨looked, h, fun hc => hc, ?_⟩
  rintro c' ⟨rest, rfl, hrest⟩
  exact .inr (meets_get.2 ⟨hnext rest, rest, rfl, hrest⟩)

theorem steady_call {q : Call β} {next : β → Code α} (hq : q.Ready c)
    (hlooks : looked ≤ q.looks) (h : ∀ b d, (next b).Steady N true d) :
    (Code.call q >>= next).Steady N looked c :=
  ⟨hq, hlooks, h⟩

/-- The operand behind an operator, one level deeper. -/
theorem steady_operand {q : Call Expr} {make : Expr → Expr} (hq : ∀ c, q.Ready c) :
    (Code.move countNode >>= fun _ => Code.move descend >>= fun _ =>
      Code.call q >>= fun operand => Code.move ascend >>= fun _ =>
        pure (make operand)).Steady N false c :=
  steady_move (steps_countNode (steady_move (steps_descend (steady_call (hq _) (Bool.false_le _) fun _ _ =>
    steady_move (steps_ascend fun _ => trivial)))))

/-- One round of a loop that reads on as long as operators come. -/
theorem steady_round {ops : List Operator} (q : Call Expr) (more : Expr → Call Expr) {left : Expr}
    (hq : ∀ c, q.Ready c) (hmore : ∀ t c, (more t).Ready c) (hlooks : ∀ t, true ≤ (more t).looks) :
    (Code.move (operator? ops) >>= fun
      | none => pure left
      | some op => Code.move countNode >>= fun _ => Code.call q >>= fun right =>
        Code.call (more (.binary op left right))).Steady N looked c := by
  refine steady_move (steps_operator? (fun op => ?_) trivial)
  exact steady_move (steps_countNode (steady_call (hq _) (Bool.false_le _) fun right _ =>
    ⟨hmore _ _, hlooks _, fun _ _ => trivial⟩))

theorem steady_power : Call.power.body.Steady N looked c := by
  refine steady_call trivial (Bool.le_true _) fun base d => ?_
  exact steady_move (steps_operator? (fun op => steady_operand fun _ => trivial) trivial)

theorem steady_signed : Call.signed.body.Steady N looked c := by
  refine steady_move (steps_operator? (fun op => steady_operand fun _ => trivial) ?_)
  exact ⟨trivial, Bool.le_true _, fun _ _ => trivial⟩

theorem steady_atom : Call.atom.body.Steady N looked c := by
  refine steady_move (steps_peek ?_)
  split
  · next x _ => exact steady_move (steps_advance (.number x) trivial)
  · next name _ =>
    refine steady_get (fun _ => rfl) (steady_move (steps_advance (.identifier name) ?_))
    exact ⟨rfl, Bool.false_le _, fun _ _ => trivial⟩
  · next s _ =>
    refine steady_move (steps_advance (.opening s) ?_)
    exact ⟨trivial, Bool.false_le _, fun _ _ => trivial⟩
  · exact steps_failUnexpected

theorem steady_named {start : Nat} {name : String} (h : start + 1 = c.position) :
    (Call.named start name).body.Steady N false c := by
  rw [Call.body]
  split
  · trivial
  split
  · refine steps_failAt fun hc => ?_
    rw [Cursor.Past, ← h] at hc
    exact Nat.le_of_lt_succ hc
  refine steady_move (steps_peek ?_)
  split
  · next s _ =>
    refine steady_move (steps_advance (.opening s) (steady_move (steps_countNode ?_)))
    refine steady_call trivial (Bool.false_le _) fun args d => ?_
    split
    · trivial
    · exact steps_failAt fun _ => trivial
  · exact steps_fail fun hc => hc.le

theorem steady_group {s : Bracket} : (Call.group s).body.Steady N false c := by
  refine steady_move (steps_enter (steady_move (steps_peek ?_)))
  split
  · refine steady_get (fun _ => rfl) (steady_move (steps_close fun d hd => ?_))
    refine steps_failAt fun hc => ?_
    rw [Cursor.Past, hd] at hc
    exact Nat.le_of_lt_succ hc
  · refine steady_call trivial (Bool.le_true _) fun inner d => ?_
    exact steady_move (steps_leave fun _ => trivial)

theorem steady_arguments {s : Bracket} : (Call.arguments s).body.Steady N false c := by
  refine steady_move (steps_enter (steady_move (steps_peek ?_)))
  split
  · exact steady_move (steps_leave fun _ => trivial)
  · refine steady_call trivial (Bool.le_true _) fun first d => ?_
    refine steady_call trivial (Bool.le_true _) fun args d' => ?_
    exact steady_move (steps_leave fun _ => trivial)

theorem steady_further {found : List Expr} : (Call.further found).body.Steady N looked c := by
  refine steady_move (steps_peek ?_)
  split
  · refine steady_move (steps_advance .comma (steady_call trivial (Bool.false_le _) fun next d => ?_))
    exact ⟨trivial, Bool.le_true _, fun _ _ => trivial⟩
  · trivial

/-- Every function carries what it does over to cursors that agree. -/
theorem steady_body (q : Call β) (h : q.Ready c) : q.body.Steady N q.looks c := by
  cases q with
  | sum | product =>
    exact steady_call trivial (Bool.le_true _) fun _ _ => ⟨trivial, Bool.le_true _, fun _ _ => trivial⟩
  | power => exact steady_power
  | signed => exact steady_signed
  | atom => exact steady_atom
  | named start name => exact steady_named h
  | group s => exact steady_group
  | arguments s => exact steady_arguments
  | addends left =>
    exact steady_round .product .addends (fun _ => trivial) (fun _ _ => trivial) fun _ =>
      Bool.le_true _
  | factors left =>
    exact steady_round .power .factors (fun _ => trivial) (fun _ _ => trivial) fun _ =>
      Bool.le_true _
  | further found => exact steady_further

end Steady

/-! ## Runs -/

/-- A run ends past `N`. -/
def PastEnd (N : Nat) {α : Type} : Except Halt (α × Cursor) → Prop :=
  Ends (fun _ d => d.Past N true) (Halt.Past N)

/-- Two runs end alike. -/
inductive Alike (N : Nat) {α : Type} : Except Halt (α × Cursor) → Except Halt (α × Cursor) → Prop
  | ok (a : α) {d d' : Cursor} : d.Agree N d' → Alike N (.ok (a, d)) (.ok (a, d'))
  | error (e : Halt) : Alike N (.error e) (.error e)

section Runs

variable {g : Code α} {n highest : Nat} {r : Except Halt (α × Cursor)} {c' : Cursor}

/-- A run that is past `N` stays so. -/
theorem Runs.past (h : Runs g n c r highest) (hg : g.Steady N looked c) (hc : c.Past N looked) :
    PastEnd N r := by
  induction h generalizing looked with
  | done => exact hc.mono (Bool.le_true _)
  | moved hrun _ ih =>
    obtain ⟨looked', hnext, hpast, -⟩ := Meets.of_run hg hrun
    exact ih hnext (hpast hc)
  | failed _ _ hrun =>
    rw [Code.Steady, Steps, meets_iff_ends, hrun] at hg
    exact hg.1 hc
  | called _ _ ihbody ihnext =>
    obtain ⟨hready, hlooks, hnext⟩ := hg
    exact ihnext (hnext _ _) (ihbody (steady_body _ hready) (hc.mono hlooks))
  | broken _ _ ihbody =>
    obtain ⟨hready, hlooks, -⟩ := hg
    exact ihbody (steady_body _ hready) (hc.mono hlooks)

/-- **Two runs over the same tokens up to `N`.** From cursors that agree, a run ends past `N`, or the
runs from both end alike. -/
theorem Runs.agree (h : Runs g n c r highest) (hg : g.Steady N looked c) (hc : c.Agree N c') :
    PastEnd N r ∨ ∃ r', Runs g n c' r' highest ∧ Alike N r r' := by
  induction h generalizing looked c' with
  | done a n => exact .inr ⟨_, .done a n c', .ok a hc⟩
  | moved hrun hruns ih =>
    obtain ⟨looked', hnext, -, halike⟩ := Meets.of_run hg hrun
    rcases halike c' hc with hpast | hmeets
    · exact .inl (hruns.past hnext hpast)
    · obtain ⟨b', d', hrun', hsame, hd'⟩ := hmeets.exists_run
      refine (ih hnext hd').imp_right ?_
      rintro ⟨r', hruns', hr'⟩
      exact ⟨r', .moved hrun' (hsame ▸ hruns'), hr'⟩
  | failed next n hrun =>
    rw [Code.Steady, Steps, meets_iff_ends, hrun] at hg
    refine (hg.2 c' hc).imp_right fun hmeets => ?_
    exact ⟨_, .failed next n hmeets.run_eq_error, .error _⟩
  | called _ hruns ihbody ihnext =>
    obtain ⟨hready, -, hnext⟩ := hg
    rcases ihbody (steady_body _ hready) hc with hpast | ⟨r', hbody', hr'⟩
    -- the call has ended past `N`, and so does the code behind it
    · exact .inl (hruns.past (hnext _ _) hpast)
    · cases hr' with
      | ok b hd =>
        refine (ihnext (hnext _ _) hd).imp_right ?_
        rintro ⟨r', hruns', hr'⟩
        exact ⟨r', .called hbody' hruns', hr'⟩
  | broken next _ ihbody =>
    obtain ⟨hready, -, -⟩ := hg
    refine (ihbody (steady_body _ hready) hc).imp_right ?_
    rintro ⟨r', hbody', hr'⟩
    cases hr' with
    | error => exact ⟨_, .broken next hbody', .error _⟩

end Runs

end Descent

/-! ## The parser -/

/-- The readings of two lists of tokens that are the same up to `N` end alike, if the first does not end
past `N`. -/
theorem alike_of_take {N : Nat} {ts us : List Token} (h : us.take N = ts.take N) :
    Descent.PastEnd N ((Descent.sum descentFuel).run (.start ts)) ∨
      Descent.Alike N ((Descent.sum descentFuel).run (.start ts))
        ((Descent.sum descentFuel).run (.start us)) := by
  obtain ⟨highest, hruns⟩ := Descent.runs_parse ts
  obtain ⟨highest', hruns'⟩ := Descent.runs_parse us
  have hsteady : (Descent.Code.call Descent.Call.sum).Steady N false (.start ts) :=
    ⟨trivial, Bool.false_le _, fun _ _ => trivial⟩
  refine (hruns.agree hsteady (.start h)).imp_right ?_
  rintro ⟨r', hruns'', hr'⟩
  rwa [(hruns'.unique hruns'').1]

/-- A sum that ends in front of `N` is read in both, up to the same token. -/
theorem run_of_take {N : Nat} {ts us : List Token} {t : Expr} {c : Cursor}
    (hrun : (Descent.sum descentFuel).run (.start ts) = .ok (t, c)) (hc : c.position < N)
    (htake : us.take N = ts.take N) :
    ∃ rest, (Descent.sum descentFuel).run (.start us) = .ok (t, { c with rest }) ∧
      rest.head? = c.rest.head? := by
  have hends := alike_of_take htake
  rw [hrun] at hends
  rcases hends with hpast | halike
  · exact absurd hc (Nat.not_lt.2 (Nat.le_of_lt_succ hpast))
  · generalize (Descent.sum descentFuel).run (.start us) = r at halike
    cases halike with
    | ok _ hagree =>
      have hhead := hagree.head?_eq hc
      obtain ⟨rest, rfl, -⟩ := hagree
      exact ⟨rest, rfl, hhead⟩

/-- An error that is not past `N` refuses all tokens that are the same up to `N`. -/
theorem Refused.of_take {N : Nat} {ts us : List Token} {e : SyntaxError} (h : Refused ts e)
    (he : ¬ e.Past N) (htake : us.take N = ts.take N) : Refused us e := by
  cases h with
  | fault hrun =>
    have hends := alike_of_take htake
    rw [hrun] at hends
    rcases hends with hpast | halike
    · exact absurd hpast he
    · generalize hrun' : (Descent.sum descentFuel).run (.start us) = r at halike
      cases halike
      exact .fault hrun'
  | @unmatched t c s after hrun hrest =>
    obtain ⟨rest, hrun', hhead⟩ := run_of_take hrun (Nat.lt_of_not_le he) htake
    rw [hrest] at hhead
    obtain ⟨after, hrest'⟩ := List.head?_eq_some_iff.1 hhead
    exact Refused.unmatched (c := { c with rest }) hrun' hrest'
  | @trailing t c tok after hrun hrest htok =>
    obtain ⟨rest, hrun', hhead⟩ := run_of_take hrun (Nat.lt_of_not_le he) htake
    rw [hrest] at hhead
    obtain ⟨after, hrest'⟩ := List.head?_eq_some_iff.1 hhead
    exact Refused.trailing (c := { c with rest }) hrun' hrest' htok

/-- No error is behind the end of the tokens. -/
theorem Refused.position_le {ts : List Token} {e : SyntaxError} (h : Refused ts e) :
    e.position ≤ ts.length := by
  cases h with
  | fault hrun => exact (points_of_run hrun).1
  | unmatched hrun _ | trailing hrun _ _ =>
    obtain ⟨⟨read, hread⟩, -⟩ := parse_of_run hrun
    exact hread.position_le

theorem parse_of_take {N : Nat} {ts us : List Token} {e : SyntaxError} (h : parse ts = .error e)
    (he : ¬ e.Past N) (hN : N ≤ ts.length) (hus : ts.take N <+: us) : parse us = .error e := by
  have htake := List.prefix_iff_eq_take.1 hus
  rw [List.length_take, Nat.min_eq_left hN] at htake
  exact ((refused h).of_take he htake.symm).parse_eq

/-- **Errors are final.** If some tokens are refused at one of them, and not for a wrong number of
arguments, then all tokens that begin with those up to it are refused with the same error. If a limit
is exceeded, the tokens in front of it are enough. -/
theorem error_final {ts : List Token} {p : Nat} {cause : SyntaxCause}
    (h : parse ts = .error ⟨p, cause⟩) :
    ((∀ f expected found, cause ≠ .arity f expected found) → p < ts.length →
      ∀ us, ts.take (p + 1) <+: us → parse us = .error ⟨p, cause⟩) ∧
    (cause = .tooDeep ∨ cause = .tooLarge →
      ∀ us, ts.take p <+: us → parse us = .error ⟨p, cause⟩) := by
  refine ⟨fun harity hp us => parse_of_take h ?_ hp, fun hlimit us => parse_of_take h ?_ ?_⟩
  · intro hpast
    cases cause with
    | arity f expected found => exact harity f expected found rfl
    | tooDeep | tooLarge => exact absurd hpast (Nat.lt_asymm (Nat.lt_succ_self p))
    | _ => exact absurd hpast (Nat.not_succ_le_self p)
  · rcases hlimit with rfl | rfl <;> exact Nat.lt_irrefl p
  · exact (refused h).position_le

/-- Brackets that open too deep, and one that closes the wrong bracket, are refused whatever follows. -/
theorem error_final_brackets :
    let deep := List.replicate 257 (Token.opening .round)
    let mixed := [Token.identifier "sin", .opening .square, .opening .round, .number 1,
      .closing .square]
    parse deep = .error ⟨257, .tooDeep⟩ ∧
      (∀ more, parse (deep ++ more) = .error ⟨257, .tooDeep⟩) ∧
      parse mixed = .error ⟨4, .mismatchedBracket .round .square⟩ ∧ 4 < mixed.length ∧
      ∀ more, parse (mixed ++ more) = .error ⟨4, .mismatchedBracket .round .square⟩ := by
  intro deep mixed
  have hmixed : parse mixed = .error ⟨4, .mismatchedBracket .round .square⟩ := rfl
  have hrefused : (match parse deep with
      | .error e => decide (e = ⟨257, .tooDeep⟩)
      | .ok _ => false) = true := by decide +kernel
  have hdeep : parse deep = .error ⟨257, .tooDeep⟩ := by
    cases herror : parse deep with
    | error e =>
      rw [herror] at hrefused
      rw [of_decide_eq_true hrefused]
    | ok t =>
      rw [herror] at hrefused
      cases hrefused
  refine ⟨hdeep, fun more => ?_, hmixed, by decide, fun more => ?_⟩
  · exact (error_final hdeep).2 (.inl rfl) _ ((List.take_prefix ..).trans (List.prefix_append ..))
  · exact (error_final hmixed).1 (fun _ _ _ h => by cases h) (by decide) _ (List.prefix_append ..)

end DeskCalc
