import DeskCalc.Proofs.Parsing

/-!
# Readings go onward

No function of the grammar puts a token back: from any cursor, one that comes to a result leaves a
last part of the tokens (`Advances`, `onward`), and one that reads a token leaves fewer. So a loop
that reads a token in each round has no more rounds than tokens are left.
-/

namespace DeskCalc

namespace Descent

/-- From any cursor, a reading that comes to a result leaves a last part of the tokens. -/
def Advances {α : Type} (m : Descent α) : Prop :=
  ∀ c : Cursor, Meets m (fun _ c' => c'.rest <:+ c.rest) (fun _ => True) c

section Advances

variable {α β : Type} {m : Descent α} {f : α → Descent β}

theorem Advances.bind (hm : Advances m) (hf : ∀ a, Advances (f a)) : Advances (m >>= f) := by
  intro c
  rw [meets_bind]
  refine (hm c).mono (fun a c' h => ?_) fun _ h => h
  exact (hf a c').mono (fun _ _ h' => h'.trans h) fun _ h => h

theorem advances_pure (a : α) : Advances (pure a) := fun c => List.suffix_refl c.rest

theorem advances_throw (e : Halt) : Advances (throw e : Descent α) := fun _ => trivial

theorem advances_get : Advances get := fun c => List.suffix_refl c.rest

theorem advances_failAt (position : Nat) (cause : SyntaxCause) :
    Advances (failAt position cause : Descent α) := fun _ => trivial

theorem advances_fail (cause : SyntaxCause) : Advances (fail cause : Descent α) := fun _ => trivial

theorem advances_peek : Advances peek? := fun c => List.suffix_refl c.rest

theorem advances_advance : Advances advance := fun c => List.tail_suffix c.rest

theorem advances_failUnexpected : Advances (failUnexpected : Descent α) :=
  fun _ => meets_failUnexpected.2 trivial

theorem advances_descend : Advances descend := fun c =>
  meets_descend (fun _ => List.suffix_refl c.rest) fun _ => trivial

theorem advances_countNode : Advances countNode := fun c =>
  meets_countNode (fun _ => List.suffix_refl c.rest) fun _ => trivial

theorem advances_ascend : Advances ascend := by
  intro c
  unfold ascend
  rw [meets_bind, meets_get]
  split
  · trivial
  · exact List.suffix_refl c.rest

theorem advances_enter (s : Bracket) : Advances (enter s) := fun c =>
  meets_enter (fun _ => List.suffix_refl c.rest) fun _ => trivial

theorem advances_close : Advances close := by
  intro c
  unfold close
  rw [meets_bind, meets_get]
  split
  · trivial
  · rw [meets_bind, meets_modify, meets_bind, meets_peek]
    split
    · split
      · exact advances_advance c
      · trivial
    · exact meets_failUnexpected.2 trivial
    · trivial

theorem advances_leave : Advances leave :=
  advances_close.bind fun _ => advances_ascend

theorem advances_operator? (ops : List Operator) : Advances (operator? ops) := by
  refine advances_peek.bind fun t => ?_
  split
  · split
    · exact advances_advance.bind fun _ => advances_pure _
    · exact advances_pure none
  · exact advances_pure none

theorem advances_chain (ops : List Operator) {operand : Descent Expr} (h : Advances operand)
    (rounds : List Token) (left : Expr) : Advances (chain ops operand rounds left) := by
  induction rounds generalizing left with
  | nil => exact advances_pure left
  | cons _ rounds ih =>
    refine (advances_operator? ops).bind fun o => ?_
    split
    · exact advances_pure left
    · exact advances_countNode.bind fun _ => h.bind fun right => ih _

theorem advances_moreArguments {argument : Descent Expr} (h : Advances argument)
    (rounds : List Token) (found : List Expr) : Advances (moreArguments argument rounds found) := by
  induction rounds generalizing found with
  | nil => exact advances_pure _
  | cons _ rounds ih =>
    refine advances_peek.bind fun t => ?_
    split
    · exact advances_advance.bind fun _ => h.bind fun next => ih _
    · exact advances_pure _

end Advances

/-- No level goes back. -/
structure Onward (fuel : Nat) : Prop where
  sum : Advances (sum fuel)
  product : Advances (product fuel)
  power : Advances (power fuel)
  signed : Advances (signed fuel)
  atom : Advances (atom fuel)
  named : ∀ start name, Advances (named fuel start name)
  group : ∀ s, Advances (group fuel s)
  arguments : ∀ s, Advances (arguments fuel s)

section Levels

variable {fuel : Nat}

theorem advances_chain_level (ops : List Operator) {operand : Descent Expr}
    (h : Advances operand) : Advances (operand >>= fun first => get >>= fun c =>
      chain ops operand c.rest first) :=
  h.bind fun first => advances_get.bind fun c => advances_chain ops h c.rest first

theorem advances_power (h : Onward fuel) : Advances (power (fuel + 1)) := by
  rw [power]
  refine h.signed.bind fun base => (advances_operator? _).bind fun o => ?_
  split
  · exact advances_pure base
  · exact advances_countNode.bind fun _ => advances_descend.bind fun _ =>
      h.power.bind fun _ => advances_ascend.bind fun _ => advances_pure _

theorem advances_signed (h : Onward fuel) : Advances (signed (fuel + 1)) := by
  rw [signed]
  refine (advances_operator? _).bind fun o => ?_
  split
  · exact h.atom
  · exact advances_countNode.bind fun _ => advances_descend.bind fun _ =>
      h.signed.bind fun _ => advances_ascend.bind fun _ => advances_pure _

theorem advances_atom (h : Onward fuel) : Advances (atom (fuel + 1)) := by
  rw [atom]
  refine advances_peek.bind fun t => ?_
  split
  · exact advances_advance.bind fun _ => advances_pure _
  · exact advances_get.bind fun _ => advances_advance.bind fun _ => h.named _ _
  · exact advances_advance.bind fun _ => h.group _
  · exact advances_failUnexpected

theorem advances_named (h : Onward fuel) (start : Nat) (name : String) :
    Advances (named (fuel + 1) start name) := by
  rw [named]
  split
  · exact advances_pure _
  · split
    · exact advances_failAt _ _
    · refine advances_peek.bind fun t => ?_
      split
      · refine advances_advance.bind fun _ => advances_countNode.bind fun _ =>
          (h.arguments _).bind fun args => ?_
        split
        · exact advances_pure _
        · exact advances_failAt _ _
      · exact advances_fail _

theorem advances_group (h : Onward fuel) (s : Bracket) : Advances (group (fuel + 1) s) := by
  rw [group]
  refine (advances_enter s).bind fun _ => advances_peek.bind fun t => ?_
  split
  · exact advances_get.bind fun _ => advances_close.bind fun _ => advances_failAt _ _
  · exact h.sum.bind fun inner => advances_leave.bind fun _ => advances_pure inner

theorem advances_arguments (h : Onward fuel) (s : Bracket) :
    Advances (arguments (fuel + 1) s) := by
  rw [arguments]
  refine (advances_enter s).bind fun _ => advances_peek.bind fun t => ?_
  split
  · exact advances_leave.bind fun _ => advances_pure []
  · exact h.sum.bind fun first => advances_get.bind fun c =>
      (advances_moreArguments h.sum c.rest [first]).bind fun args =>
        advances_leave.bind fun _ => advances_pure args

end Levels

theorem onward (fuel : Nat) : Onward fuel := by
  induction fuel with
  | zero =>
    exact {
      sum := advances_throw _
      product := advances_throw _
      power := advances_throw _
      signed := advances_throw _
      atom := advances_throw _
      named := fun _ _ => advances_throw _
      group := fun _ => advances_throw _
      arguments := fun _ => advances_throw _ }
  | succ fuel ih =>
    exact {
      sum := advances_chain_level _ ih.product
      product := advances_chain_level _ ih.power
      power := advances_power ih
      signed := advances_signed ih
      atom := advances_atom ih
      named := advances_named ih
      group := advances_group ih
      arguments := advances_arguments ih }

/-- What is good of every result is good of the one that is found. -/
theorem Meets.of_run {α : Type} {m : Descent α} {good : α → Cursor → Prop} {bad : Halt → Prop}
    {c c' : Cursor} {a : α} (h : Meets m good bad c) (hr : m.run c = .ok (a, c')) : good a c' := by
  unfold Meets at h
  rwa [hr] at h

theorem Advances.length_le {α : Type} {m : Descent α} {c c' : Cursor} {a : α} (h : Advances m)
    (hr : m.run c = .ok (a, c')) : c'.rest.length ≤ c.rest.length :=
  ((h c).of_run hr).length_le

/-- An operator that is read is one token less to read. -/
theorem length_operator? {ops : List Operator} {op : Operator} {c c' : Cursor}
    (hr : (operator? ops).run c = .ok (some op, c')) : c'.rest.length < c.rest.length := by
  have h : Meets (operator? ops) (fun o c' => o ≠ none → c'.rest.length < c.rest.length)
      (fun _ => True) c := by
    refine meets_operator? (fun op _ after hc _ => ?_) fun _ h => (h rfl).elim
    rw [Cursor.rest_moved_cons hc, hc]
    exact Nat.lt_succ_self _
  exact h.of_run hr nofun

/-- So is a token that is seen and then read. -/
theorem length_advance {t : Token} {u : Unit} {c c₁ c₂ : Cursor}
    (ht : peek?.run c = .ok (some t, c₁)) (hr : advance.run c₁ = .ok (u, c₂)) :
    c₂.rest.length < c.rest.length := by
  obtain ⟨rest, position, opened, depth, nodes⟩ := c
  cases rest with
  | nil => cases ht
  | cons t' after =>
    cases ht
    cases hr
    exact Nat.lt_succ_self _

end Descent

end DeskCalc
