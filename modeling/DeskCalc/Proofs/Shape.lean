import DeskCalc.Expr.Evaluate
import DeskCalc.Proofs.Grammar

/-!
# The shape of trees

How large and how high a tree is, and how deep its evaluation nests. A tree is no higher than it has
operations, since each edge leads down from an operation of its own; and `evaluate` calls itself
along the edges, so its calls nest one deeper than the tree is high. What the grammar derives has
the operations that the derivation counts, and calls of one argument only.
-/

namespace DeskCalc

namespace Expr

mutual

/-- How many operators, signs and calls a tree holds. -/
def operations : Expr → Nat
  | literal _ => 0
  | constant _ => 0
  | signed _ operand => operand.operations + 1
  | binary _ left right => left.operations + right.operations + 1
  | call _ args => operationsAll args + 1

/-- How many operators, signs and calls some trees hold. -/
def operationsAll : List Expr → Nat
  | [] => 0
  | a :: rest => a.operations + operationsAll rest

end

mutual

/-- How many edges the longest way down a tree has. -/
def height : Expr → Nat
  | literal _ => 0
  | constant _ => 0
  | signed _ operand => operand.height + 1
  | binary _ left right => max left.height right.height + 1
  | call _ args => heightAll args

/-- How many edges the longest way down to and into some trees has. -/
def heightAll : List Expr → Nat
  | [] => 0
  | a :: rest => max (a.height + 1) (heightAll rest)

end

/-- Every call in the tree has one argument. -/
inductive OneArgument : Expr → Prop
  | literal (x : Float) : OneArgument (literal x)
  | constant (c : Constant) : OneArgument (constant c)
  | signed {operand : Expr} (sign : Sign) : OneArgument operand → OneArgument (signed sign operand)
  | binary {left right : Expr} (op : Operator) : OneArgument left → OneArgument right →
      OneArgument (binary op left right)
  | call {t : Expr} (f : Function) : OneArgument t → OneArgument (call f [t])

mutual

/-- A tree is no higher than it has operations. -/
theorem height_le_operations : (t : Expr) → t.height ≤ t.operations
  | literal _ => Nat.le_of_eq (by rw [height, operations])
  | constant _ => Nat.le_of_eq (by rw [height, operations])
  | signed _ operand => by
    have := height_le_operations operand
    rw [height, operations]
    omega
  | binary _ left right => by
    have := height_le_operations left
    have := height_le_operations right
    rw [height, operations]
    omega
  | call _ args => by
    have := heightAll_le_operationsAll args
    rw [height, operations]
    omega

theorem heightAll_le_operationsAll : (ts : List Expr) → heightAll ts ≤ operationsAll ts + 1
  | [] => by
    rw [heightAll]
    omega
  | a :: rest => by
    have := height_le_operations a
    have := heightAll_le_operationsAll rest
    rw [heightAll, operationsAll]
    omega

end

/-! ## Nested calls of the evaluation -/

/-- An evaluation that keeps the most calls of `evaluate` that were open at once. -/
abbrev Gauged := ExceptT DomainError (StateM Nat)

/-- Opens a call of `evaluate` while `n` others are open. -/
def Gauged.call (n : Nat) : Gauged Unit := ExceptT.mk fun peak => (.ok (), max peak (n + 1))

/-- A result that takes no more calls. -/
def Gauged.done {α : Type} (result : Except DomainError α) : Gauged α := ExceptT.mk (pure result)

mutual

/-- The value of an expression, while `n` calls are open. -/
def gauged (n : Nat) : Expr → Gauged Float
  | literal value => do
    Gauged.call n
    Gauged.done (real value)
  | constant c => do
    Gauged.call n
    return c.value
  | signed sign operand => do
    Gauged.call n
    let x ← gauged (n + 1) operand
    return sign.apply x
  | binary op left right => do
    Gauged.call n
    let l ← gauged (n + 1) left
    let r ← gauged (n + 1) right
    Gauged.done (op.apply l r)
  | call f args => do
    Gauged.call n
    let values ← gaugedAll (n + 1) args
    Gauged.done (f.apply values)

/-- The values of some expressions, taken left to right. -/
def gaugedAll (n : Nat) : List Expr → Gauged (List Float)
  | [] => return []
  | a :: rest => do
    let x ← gauged n a
    let xs ← gaugedAll n rest
    return x :: xs

end

section Gauges

variable {α β : Type} {N n : Nat}

/-- The evaluation comes to the result and never has more than `N` calls open. -/
def Gauges (N : Nat) (g : Gauged α) (result : Except DomainError α) : Prop :=
  ∀ peak ≤ N, ∃ highest ≤ N, g.run.run peak = (result, highest)

theorem gauges_done (result : Except DomainError α) : Gauges N (Gauged.done result) result :=
  fun peak hpeak => ⟨peak, hpeak, rfl⟩

theorem Gauges.call {g : Gauged α} {result : Except DomainError α} (hn : n + 1 ≤ N)
    (hg : Gauges N g result) : Gauges N (Gauged.call n >>= fun _ => g) result :=
  fun peak hpeak => hg (max peak (n + 1)) (Nat.max_le.2 ⟨hpeak, hn⟩)

theorem Gauges.bind {g : Gauged α} {h : α → Gauged β} {result : Except DomainError α}
    {f : α → Except DomainError β} (hg : Gauges N g result) (hf : ∀ a, Gauges N (h a) (f a)) :
    Gauges N (g >>= h) (result >>= f) := by
  intro peak hpeak
  obtain ⟨middle, hmiddle, heq⟩ := hg peak hpeak
  rw [ExceptT.run_bind, StateT.run_bind, heq]
  cases result with
  | error e => exact ⟨middle, hmiddle, rfl⟩
  | ok a => exact hf a middle hmiddle

mutual

/-- The calls of `evaluate` nest one deeper than the tree is high. -/
theorem gauges : (t : Expr) → {n : Nat} → n + t.height + 1 ≤ N → Gauges N (gauged n t) t.evaluate
  | literal value, n, h => by
    rw [height] at h
    rw [gauged, evaluate]
    exact (gauges_done _).call h
  | constant c, n, h => by
    rw [height] at h
    rw [gauged, evaluate]
    exact (gauges_done (.ok c.value)).call h
  | signed sign operand, n, h => by
    rw [height] at h
    rw [gauged, evaluate]
    have ho := gauges operand (n := n + 1) (by omega)
    exact .call (by omega) (ho.bind fun x => gauges_done (.ok (sign.apply x)))
  | binary op left right, n, h => by
    rw [height] at h
    rw [gauged, evaluate]
    have hl := gauges left (n := n + 1) (by omega)
    have hr := gauges right (n := n + 1) (by omega)
    exact .call (by omega) (hl.bind fun l => hr.bind fun r => gauges_done _)
  | call f args, n, h => by
    rw [height] at h
    rw [gauged, evaluate]
    have ha := gaugesAll args (n := n + 1) (by omega)
    exact .call (by omega) (ha.bind fun values => gauges_done _)

theorem gaugesAll : (ts : List Expr) → {n : Nat} → n + heightAll ts ≤ N →
    Gauges N (gaugedAll n ts) (evaluateAll ts)
  | [], n, _ => by
    rw [gaugedAll, evaluateAll]
    exact gauges_done (.ok [])
  | a :: rest, n, h => by
    rw [heightAll] at h
    rw [gaugedAll, evaluateAll]
    have ha := gauges a (n := n) (by omega)
    have hrest := gaugesAll rest (n := n) (by omega)
    exact ha.bind fun x => hrest.bind fun xs => gauges_done (.ok (x :: xs))

end

end Gauges

end Expr

/-! ## Trees of phrases -/

section Spells

variable {p : Phrase} {w : List Token} {t : Expr} {n d : Nat}

/-- A derivation counts the operations of its tree. -/
theorem Spells.operations_eq (h : Spells p w t n d) : t.operations = n := by
  induction h with
  | sumOfProduct _ ih | productOfPower _ ih | powerOfSigned _ ih | signedOfAtom _ ih
  | group _ _ ih => exact ih
  | sumSnoc _ _ _ ihl ihr | productSnoc _ _ _ ihl ihr | raise _ _ ihl ihr =>
    rw [Expr.operations, ihl, ihr]
  | minus _ ih | plus _ ih => rw [Expr.operations, ih]
  | number | constant => rw [Expr.operations]
  | call _ _ _ ih => rw [Expr.operations, Expr.operationsAll, Expr.operationsAll, ih, Nat.add_zero]

/-- The grammar gives every call one argument. -/
theorem Spells.oneArgument (h : Spells p w t n d) : t.OneArgument := by
  induction h with
  | sumOfProduct _ ih | productOfPower _ ih | powerOfSigned _ ih | signedOfAtom _ ih
  | group _ _ ih => exact ih
  | sumSnoc _ _ _ ihl ihr | productSnoc _ _ _ ihl ihr | raise _ _ ihl ihr => exact .binary _ ihl ihr
  | minus _ ih | plus _ ih => exact .signed _ ih
  | number x => exact .literal x
  | constant c => exact .constant c
  | call f _ _ ih => exact .call f ih

end Spells

end DeskCalc
