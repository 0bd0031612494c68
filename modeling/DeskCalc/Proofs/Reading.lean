import DeskCalc.Expr.Descent

/-!
# What a reading does

`Meets m good bad c` says how the reading `m` ends from the cursor `c`: with a result and a cursor
that are `good`, or by a halt that is `bad`. The lemmas compute it for each move of the cursor, so
that a proof about a level of the grammar follows the moves of that level.

A cursor is moved over tokens by `Cursor.moved`, one level deeper by `Cursor.deeper` and into a
bracket by `Cursor.inside`. The moves read as equations between these: what a level reads on the
way in and on the way out cancels, and what is left is `moved`.
-/

namespace DeskCalc

namespace Cursor

/-- The cursor behind some tokens that hold `n` operators, signs and calls. -/
def moved (c : Cursor) (w : List Token) (n : Nat) : Cursor :=
  { c with rest := c.rest.drop w.length, position := c.position + w.length, nodes := c.nodes + n }

/-- The cursor one level deeper. -/
def deeper (c : Cursor) : Cursor := { c with depth := c.depth + 1 }

/-- The cursor inside a bracket, one level deeper. -/
def inside (c : Cursor) (s : Bracket) : Cursor := { c.deeper with opened := s :: c.opened }

theorem moved_moved (c : Cursor) (w v : List Token) (n m : Nat) :
    (c.moved w n).moved v m = c.moved (w ++ v) (n + m) := by
  simp only [moved, List.drop_drop, List.length_append, Nat.add_assoc]

theorem moved_snoc (c : Cursor) (w v : List Token) (tok : Token) (n m i : Nat) :
    ((c.moved w n).moved [tok] i).moved v m = c.moved (w ++ tok :: v) (n + (m + i)) := by
  rw [moved_moved, moved_moved, Nat.add_comm i m]
  rfl

theorem rest_moved {c : Cursor} {w after : List Token} (h : c.rest = w ++ after) (n : Nat) :
    (c.moved w n).rest = after := by
  simp [moved, h]

theorem rest_moved_cons {c : Cursor} {tok : Token} {after : List Token} (h : c.rest = tok :: after)
    (n : Nat) : (c.moved [tok] n).rest = after :=
  rest_moved (w := [tok]) h n

@[simp] theorem depth_moved (c : Cursor) (w : List Token) (n : Nat) :
    (c.moved w n).depth = c.depth := rfl

@[simp] theorem nodes_moved (c : Cursor) (w : List Token) (n : Nat) :
    (c.moved w n).nodes = c.nodes + n := rfl

@[simp] theorem depth_deeper (c : Cursor) : c.deeper.depth = c.depth + 1 := rfl

@[simp] theorem nodes_deeper (c : Cursor) : c.deeper.nodes = c.nodes := rfl

@[simp] theorem rest_inside (c : Cursor) (s : Bracket) : (c.inside s).rest = c.rest := rfl

@[simp] theorem depth_inside (c : Cursor) (s : Bracket) : (c.inside s).depth = c.depth + 1 := rfl

end Cursor

namespace Descent

variable {α β : Type} {good : α → Cursor → Prop} {bad : Halt → Prop} {c : Cursor}

/-- The reading comes to a good result from a cursor, or to a bad halt. -/
def Meets (m : Descent α) (good : α → Cursor → Prop) (bad : Halt → Prop) (c : Cursor) : Prop :=
  match m.run c with
  | .ok (a, c') => good a c'
  | .error h => bad h

theorem Meets.mono {m : Descent α} {good' : α → Cursor → Prop} {bad' : Halt → Prop}
    (h : Meets m good bad c) (hg : ∀ a c', good a c' → good' a c') (hb : ∀ h, bad h → bad' h) :
    Meets m good' bad' c := by
  unfold Meets at h ⊢
  cases hm : m.run c with
  | ok r => rw [hm] at h; exact hg _ _ h
  | error e => rw [hm] at h; exact hb _ h

@[simp] theorem meets_pure (a : α) : Meets (pure a) good bad c ↔ good a c := Iff.rfl

@[simp] theorem meets_bind {m : Descent β} {f : β → Descent α} :
    Meets (m >>= f) good bad c ↔ Meets m (fun b c' => Meets (f b) good bad c') bad c := by
  unfold Meets
  rw [StateT.run_bind]
  cases m.run c <;> rfl

@[simp] theorem meets_throw (h : Halt) : Meets (throw h : Descent α) good bad c ↔ bad h := Iff.rfl

@[simp] theorem meets_get {good : Cursor → Cursor → Prop} :
    Meets get good bad c ↔ good c c := Iff.rfl

@[simp] theorem meets_modify {f : Cursor → Cursor} {good : Unit → Cursor → Prop} :
    Meets (modify f) good bad c ↔ good () (f c) := Iff.rfl

@[simp] theorem meets_failAt (p : Nat) (cause : SyntaxCause) :
    Meets (failAt p cause : Descent α) good bad c ↔ bad (.fault ⟨p, cause⟩) := Iff.rfl

@[simp] theorem meets_fail (cause : SyntaxCause) :
    Meets (fail cause : Descent α) good bad c ↔ bad (.fault ⟨c.position, cause⟩) := Iff.rfl

@[simp] theorem meets_peek {good : Option Token → Cursor → Prop} :
    Meets peek? good bad c ↔ good c.rest.head? c := Iff.rfl

/-! ## The moves of the cursor -/

/-- Why a token, or the end, does not fit where an operand should begin. -/
def misplaced : Option Token → SyntaxCause
  | some t => .unexpectedToken t
  | none => .unexpectedEnd

/-- Why a token, or the end, does not close a bracket. -/
def unclosing (s : Bracket) : Option Token → SyntaxCause
  | some (.closing found) => .mismatchedBracket s found
  | some t => .unexpectedToken t
  | none => .unclosedBracket s

theorem meets_failUnexpected :
    Meets (failUnexpected : Descent α) good bad c
      ↔ bad (.fault ⟨c.position, misplaced c.rest.head?⟩) := by
  rw [failUnexpected, meets_bind, meets_peek]
  cases c.rest.head? <;> exact meets_fail _

theorem meets_advance {t : Token} {after : List Token} {good : Unit → Cursor → Prop}
    (h : c.rest = t :: after) : Meets advance good bad c ↔ good () (c.moved [t] 0) := by
  rw [advance, meets_modify, Cursor.moved, h]
  rfl

theorem meets_descend {good : Unit → Cursor → Prop}
    (hg : c.depth + 1 ≤ maxDepth → good () c.deeper)
    (hb : maxDepth < c.depth + 1 → bad (.fault ⟨c.position, .tooDeep⟩)) :
    Meets descend good bad c := by
  rw [descend, meets_bind, meets_modify, meets_bind, meets_get]
  split
  · next h => exact hb h
  · next h => exact hg (Nat.le_of_not_lt h)

/-- A level that was entered can be left. -/
theorem meets_ascend {good : Unit → Cursor → Prop} :
    Meets ascend good bad c.deeper ↔ good () c := Iff.rfl

theorem meets_countNode {good : Unit → Cursor → Prop}
    (hg : c.nodes + 1 ≤ maxNodes → good () (c.moved [] 1))
    (hb : maxNodes < c.nodes + 1 → bad (.fault ⟨c.position, .tooLarge⟩)) :
    Meets countNode good bad c := by
  rw [countNode, meets_bind, meets_modify, meets_bind, meets_get]
  split
  · next h => exact hb h
  · next h => exact hg (Nat.le_of_not_lt h)

theorem meets_enter {s : Bracket} {good : Unit → Cursor → Prop}
    (hg : c.depth + 1 ≤ maxDepth → good () (c.inside s))
    (hb : maxDepth < c.depth + 1 → bad (.fault ⟨c.position, .tooDeep⟩)) :
    Meets (enter s) good bad c := by
  rw [enter, meets_bind]
  exact meets_descend hg hb

/-- The innermost open bracket can be closed, by its own style only. -/
theorem meets_closing {s : Bracket} {outer : List Bracket} (ho : c.opened = s :: outer)
    {good : Unit → Cursor → Prop}
    (hg : ∀ after, c.rest = .closing s :: after →
      good () ({ c with opened := outer }.moved [.closing s] 0))
    (hb : c.rest.head? ≠ some (.closing s) →
      bad (.fault ⟨c.position, unclosing s c.rest.head?⟩)) :
    Meets close good bad c := by
  obtain ⟨rest, position, opened, depth, nodes⟩ := c
  cases ho
  cases rest with
  | nil => exact hb (by simp)
  | cons t after =>
    cases t with
    | closing found =>
      show Meets (if found = s then advance else fail (.mismatchedBracket s found)) good bad _
      by_cases hf : found = s
      · subst hf
        rw [if_pos rfl]
        exact hg after rfl
      · rw [if_neg hf]
        exact hb (by simpa using hf)
    | number _ | operator _ | identifier _ | opening _ | comma => exact hb (by simp)

/-- So can the bracket that was entered last. -/
theorem meets_close {s : Bracket} {good : Unit → Cursor → Prop}
    (hg : ∀ after, c.rest = .closing s :: after → good () (c.deeper.moved [.closing s] 0))
    (hb : c.rest.head? ≠ some (.closing s) →
      bad (.fault ⟨c.position, unclosing s c.rest.head?⟩)) :
    Meets close good bad (c.inside s) :=
  meets_closing rfl hg hb

theorem meets_leave {s : Bracket} {good : Unit → Cursor → Prop}
    (hg : ∀ after, c.rest = .closing s :: after → good () (c.moved [.closing s] 0))
    (hb : c.rest.head? ≠ some (.closing s) →
      bad (.fault ⟨c.position, unclosing s c.rest.head?⟩)) :
    Meets leave good bad (c.inside s) := by
  rw [leave, meets_bind]
  exact meets_close hg hb

theorem meets_operator? {ops : List Operator} {good : Option Operator → Cursor → Prop}
    (hs : ∀ op ∈ ops, ∀ after, c.rest = .operator op :: after →
      good (some op) (c.moved [.operator op] 0))
    (hn : (∀ op ∈ ops, c.rest.head? ≠ some (.operator op)) → good none c) :
    Meets (operator? ops) good bad c := by
  rw [operator?, meets_bind, meets_peek]
  cases hc : c.rest with
  | nil => exact hn (by simp [hc])
  | cons t after =>
    cases t with
    | operator op =>
      show Meets (if op ∈ ops then advance >>= fun _ => pure (some op) else pure none) good bad c
      by_cases hop : op ∈ ops
      · rw [if_pos hop, meets_bind, meets_advance hc]
        exact hs op hop after hc
      · rw [if_neg hop]
        refine hn fun o ho heq => hop ?_
        rw [hc, List.head?_cons, Option.some.injEq, Token.operator.injEq] at heq
        exact heq ▸ ho
    | number _ | identifier _ | opening _ | closing _ | comma => exact hn (by simp [hc])

end Descent

end DeskCalc
