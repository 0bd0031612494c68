import DeskCalc.Proofs.RoundTrip
import DeskCalc.Proofs.Values

/-!
# Evaluation on a stack

**Theorem (`evaluate_on_stack`).** The value of an expression is what a run of its reverse Polish
listing leaves on an empty stack. If the expression has none, its error is that of the first node in
postfix order that has no value, and there the run stops.

A `step` takes the operands of an item off the stack, the last one from the top, and pushes the
result. `Polish.run` knows no trees: an item that found too few operands would stop it as `short`,
apart from all errors of the domain. By induction on the tree, the listing of an expression pushes
its value on any stack (`run_polish`), and those of some arguments their values, the first deepest
(`run_polishAll`). So no operand is missing, and a call finds its arguments in order. The nodes of a
subtree stand together in the listing (`nodes_suffix`), so the step of any node that a run comes to
pushes the value of that node (`step_node`); this tells where a run that fails stops.
-/

namespace DeskCalc

namespace Polish

/-! ## The machine -/

/-- Why a run stops before the end of the listing. -/
inductive Stop where
  /-- An item has no result. -/
  | failed (error : DomainError)
  /-- An item has more operands than are on the stack. -/
  | short
  deriving DecidableEq

/-- Pushes a result. -/
def push (stack : List Float) : Except DomainError Float → Except Stop (List Float)
  | .ok x => .ok (x :: stack)
  | .error e => .error (.failed e)

theorem push_eq_error_iff {stack : List Float} {result : Except DomainError Float}
    {e : DomainError} : push stack result = .error (.failed e) ↔ result = .error e := by
  cases result <;> simp [push]

theorem of_push_eq_ok {stack after : List Float} {result : Except DomainError Float}
    (h : push stack result = .ok after) : ∃ v, result = .ok v := by
  cases result with
  | error e => cases h
  | ok v => exact ⟨v, rfl⟩

/-- Takes the operands of an item off the stack and pushes its result. -/
def step (stack : List Float) : Polish → Except Stop (List Float)
  | literal x => push stack (real x)
  | constant c => push stack (real c.value)
  | sign s =>
    match stack with
    | x :: below => push below (.ok (s.apply x))
    | [] => .error .short
  | operator op =>
    match stack with
    | r :: l :: below => push below (op.apply l r)
    | _ => .error .short
  | call f count =>
    if count ≤ stack.length then push (stack.drop count) (f.apply (stack.take count).reverse)
    else .error .short

/-- The stack behind some items, if none of them fails. -/
def run (stack : List Float) (items : List Polish) : Except Stop (List Float) :=
  items.foldlM step stack

theorem run_cons (stack : List Float) (item : Polish) (items : List Polish) :
    run stack (item :: items) = step stack item >>= fun stack' => run stack' items :=
  List.foldlM_cons

theorem run_append (stack : List Float) (items more : List Polish) :
    run stack (items ++ more) = run stack items >>= fun stack' => run stack' more :=
  List.foldlM_append

theorem run_singleton (stack : List Float) (item : Polish) :
    run stack [item] = step stack item := by
  rw [run_cons]
  cases step stack item <;> rfl

/-- A run stops at the first item whose step fails. -/
theorem run_eq_error_iff {stack : List Float} {items : List Polish} {stop : Stop} :
    run stack items = .error stop ↔ ∃ before item after stack',
      items = before ++ item :: after ∧ run stack before = .ok stack' ∧
        step stack' item = .error stop := by
  constructor
  · intro h
    induction items generalizing stack with
    | nil => cases h
    | cons item items ih =>
      rw [run_cons] at h
      rcases of_bind_eq_error h with hitem | ⟨next, hitem, hrest⟩
      · exact ⟨[], item, items, stack, rfl, rfl, hitem⟩
      · obtain ⟨before, last, after, stack', rfl, hbefore, hlast⟩ := ih hrest
        refine ⟨item :: before, last, after, stack', rfl, ?_, hlast⟩
        rw [run_cons, hitem]
        exact hbefore
  · rintro ⟨before, item, after, stack', rfl, hbefore, hitem⟩
    rw [run_append, hbefore]
    show run stack' (item :: after) = _
    rw [run_cons, hitem]
    rfl

end Polish

namespace Expr

/-! ## The nodes of a tree -/

mutual

/-- The nodes of a tree in postfix order: those of its operands left to right, then itself. -/
def nodes : Expr → List Expr
  | literal x => [literal x]
  | constant c => [constant c]
  | signed sign operand => operand.nodes ++ [signed sign operand]
  | binary op left right => left.nodes ++ (right.nodes ++ [binary op left right])
  | call f args => nodesAll args ++ [call f args]

/-- The nodes of some trees, one tree after the other. -/
def nodesAll : List Expr → List Expr
  | [] => []
  | a :: rest => a.nodes ++ nodesAll rest

end

/-- The item of a node in a listing. -/
def item : Expr → Polish
  | literal x => .literal x
  | constant c => .constant c
  | signed sign _ => .sign sign
  | binary op _ _ => .operator op
  | call f args => .call f args.length

mutual

/-- A listing has one item for each node. -/
theorem polish_eq_map_item : (t : Expr) → t.polish = t.nodes.map item
  | literal x => rfl
  | constant c => rfl
  | signed sign operand => by
    rw [polish, nodes, List.map_append, polish_eq_map_item operand]
    rfl
  | binary op left right => by
    rw [polish, nodes, List.map_append, List.map_append, polish_eq_map_item left,
      polish_eq_map_item right]
    rfl
  | call f args => by
    rw [polish, nodes, List.map_append, polishAll_eq_map_item args]
    rfl

theorem polishAll_eq_map_item : (ts : List Expr) → polishAll ts = (nodesAll ts).map item
  | [] => rfl
  | a :: rest => by
    rw [polishAll, nodesAll, List.map_append, polish_eq_map_item a, polishAll_eq_map_item rest]

end

/-! ## Running a listing -/

theorem length_of_evaluateAll {values : List Float} :
    (ts : List Expr) → evaluateAll ts = .ok values → values.length = ts.length
  | [], h => by
    rw [evaluateAll] at h
    cases h
    rfl
  | a :: rest, h => by
    rw [evaluateAll] at h
    obtain ⟨x, -, h⟩ := of_bind_eq_ok h
    obtain ⟨xs, hxs, h⟩ := of_bind_eq_ok h
    cases h
    rw [List.length_cons, List.length_cons, length_of_evaluateAll rest hxs]

/-- A call finds its arguments on the stack, the last one on top. -/
theorem step_call (f : Function) (values stack : List Float) :
    Polish.step (values.reverse ++ stack) (.call f values.length)
      = Polish.push stack (f.apply values) := by
  have hlength : values.length = values.reverse.length := List.length_reverse.symm
  rw [Polish.step, if_pos (by simp), hlength, List.take_left, List.drop_left, List.reverse_reverse]

mutual

/-- The listing of a tree pushes the value of the tree. -/
theorem run_polish : (t : Expr) → (stack : List Float) →
    Polish.run stack t.polish = Polish.push stack t.evaluate
  | literal x, stack => by
    rw [polish, evaluate]
    exact Polish.run_singleton _ _
  | constant c, stack => by
    have hvalue := real_of_isFinite (isFinite_constant c)
    rw [polish, evaluate, ← hvalue]
    exact Polish.run_singleton _ _
  | signed sign operand, stack => by
    rw [polish, evaluate, Polish.run_append, run_polish operand]
    cases operand.evaluate <;> rfl
  | binary op left right, stack => by
    rw [polish, evaluate, Polish.run_append, run_polish left]
    cases left.evaluate with
    | error e => rfl
    | ok l =>
      show Polish.run (l :: stack) (right.polish ++ [.operator op]) = _
      rw [Polish.run_append, run_polish right]
      cases right.evaluate with
      | error e => rfl
      | ok r => exact Polish.run_singleton _ _
  | call f args, stack => by
    rw [polish, evaluate, Polish.run_append, run_polishAll args]
    cases hvalues : evaluateAll args with
    | error e => rfl
    | ok values =>
      rw [← length_of_evaluateAll args hvalues]
      exact (Polish.run_singleton _ _).trans (step_call f values stack)

/-- The listings of some trees push their values, the first deepest. -/
theorem run_polishAll : (ts : List Expr) → (stack : List Float) →
    Polish.run stack (polishAll ts)
      = (evaluateAll ts).mapError .failed >>= fun values => .ok (values.reverse ++ stack)
  | [], stack => by
    rw [polishAll, evaluateAll]
    rfl
  | a :: rest, stack => by
    rw [polishAll, evaluateAll, Polish.run_append, run_polish a]
    cases a.evaluate with
    | error e => rfl
    | ok x =>
      show Polish.run (x :: stack) (polishAll rest) = _
      rw [run_polishAll rest]
      cases evaluateAll rest with
      | error e => rfl
      | ok xs =>
        show Except.ok (xs.reverse ++ x :: stack) = Except.ok ((x :: xs).reverse ++ stack)
        rw [List.reverse_cons, List.append_assoc]
        rfl

end

/-! ## The steps of a run -/

section Cuts

variable {α : Type} {x y before after : List α} {t u : α}

/-- Where a member of two lists one after the other stands. -/
theorem cut_append (h : x ++ y = before ++ u :: after) :
    (∃ mid, x = before ++ u :: mid) ∨ ∃ mid, before = x ++ mid ∧ y = mid ++ u :: after := by
  rcases List.append_eq_append_iff.1 h with ⟨mid, hbefore, hy⟩ | ⟨mid, hx, hy⟩
  · exact .inr ⟨mid, hbefore, hy⟩
  · cases mid with
    | nil => exact .inr ⟨[], by simpa using hx.symm, hy.symm⟩
    | cons first mid =>
      obtain ⟨rfl, -⟩ := List.cons.inj hy
      exact .inl ⟨mid, hx⟩

theorem cut_snoc (h : x ++ [t] = before ++ u :: after) :
    (∃ mid, x = before ++ u :: mid) ∨ before = x ∧ u = t := by
  rcases cut_append h with hx | ⟨mid, rfl, hlast⟩
  · exact .inl hx
  · cases mid with
    | nil => exact .inr ⟨List.append_nil x, (List.cons.inj hlast).1.symm⟩
    | cons first mid => simp at hlast

end Cuts

theorem exists_nodes_eq (t : Expr) : ∃ inner, t.nodes = inner ++ [t] := by
  cases t with
  | literal x => exact ⟨[], rfl⟩
  | constant c => exact ⟨[], rfl⟩
  | signed sign operand => exact ⟨operand.nodes, by rw [nodes]⟩
  | binary op left right => exact ⟨left.nodes ++ right.nodes, by rw [nodes, List.append_assoc]⟩
  | call f args => exact ⟨nodesAll args, by rw [nodes]⟩

mutual

/-- The nodes of a subtree are the last ones up to its root. -/
theorem nodes_suffix : (t : Expr) → {before after : List Expr} → {u : Expr} →
    t.nodes = before ++ u :: after → u.nodes <:+ before ++ [u]
  | literal x, _, _, _, h => by
    rcases cut_snoc (x := []) h with ⟨mid, hnone⟩ | ⟨rfl, rfl⟩
    · simp at hnone
    · exact List.suffix_refl _
  | constant c, _, _, _, h => by
    rcases cut_snoc (x := []) h with ⟨mid, hnone⟩ | ⟨rfl, rfl⟩
    · simp at hnone
    · exact List.suffix_refl _
  | signed sign operand, _, _, _, h => by
    rcases cut_snoc h with ⟨mid, hoperand⟩ | ⟨rfl, rfl⟩
    · exact nodes_suffix operand hoperand
    · exact List.suffix_refl _
  | binary op left right, _, _, _, h => by
    rw [nodes] at h
    rcases cut_append h with ⟨mid, hleft⟩ | ⟨mid, rfl, hrest⟩
    · exact nodes_suffix left hleft
    · rw [List.append_assoc]
      rcases cut_snoc hrest with ⟨mid, hright⟩ | ⟨rfl, rfl⟩
      · exact (nodes_suffix right hright).trans (List.suffix_append _ _)
      · rw [nodes]
  | call f args, _, _, _, h => by
    rcases cut_snoc h with ⟨mid, hargs⟩ | ⟨rfl, rfl⟩
    · exact nodesAll_suffix args hargs
    · exact List.suffix_refl _

theorem nodesAll_suffix : (ts : List Expr) → {before after : List Expr} → {u : Expr} →
    nodesAll ts = before ++ u :: after → u.nodes <:+ before ++ [u]
  | [], _, _, _, h => by simp [nodesAll] at h
  | a :: rest, _, _, _, h => by
    rw [nodesAll] at h
    rcases cut_append h with ⟨mid, ha⟩ | ⟨mid, rfl, hrest⟩
    · exact nodes_suffix a ha
    · rw [List.append_assoc]
      exact (nodesAll_suffix rest hrest).trans (List.suffix_append _ _)

end

variable {t u : Expr} {before after : List Expr} {stack : List Float}

/-- Where a run comes to a node, the step of the node pushes its value. -/
theorem step_node (h : t.nodes = before ++ u :: after)
    (hrun : Polish.run [] (before.map item) = .ok stack) :
    ∃ below, Polish.step stack u.item = Polish.push below u.evaluate := by
  obtain ⟨outer, houter⟩ := nodes_suffix t h
  obtain ⟨inner, hinner⟩ := u.exists_nodes_eq
  obtain rfl : outer ++ inner = before := by
    rw [hinner, ← List.append_assoc] at houter
    exact (List.append_inj' houter rfl).1
  -- The items of `inner` and the node are the listing of its own tree.
  rw [List.map_append, Polish.run_append] at hrun
  obtain ⟨below, -, hrun⟩ := of_bind_eq_ok hrun
  have hvalue := run_polish u below
  rw [polish_eq_map_item, hinner, List.map_append, Polish.run_append, hrun] at hvalue
  exact ⟨below, (Polish.run_singleton _ _).symm.trans hvalue⟩

/-- What a run has passed has a value. -/
theorem exists_value_of_run (h : t.nodes = before ++ after)
    (hrun : Polish.run [] (before.map item) = .ok stack) (hu : u ∈ before) :
    ∃ v, u.evaluate = .ok v := by
  obtain ⟨front, back, rfl⟩ := List.append_of_mem hu
  rw [List.map_append, Polish.run_append] at hrun
  obtain ⟨stack', hfront, hrest⟩ := of_bind_eq_ok hrun
  rw [List.map_cons, Polish.run_cons] at hrest
  obtain ⟨next, hnext, -⟩ := of_bind_eq_ok hrest
  rw [List.append_assoc] at h
  obtain ⟨below, hstep⟩ := step_node h hfront
  exact Polish.of_push_eq_ok (hstep.symm.trans hnext)

/-- A run that fails stops at a node without a value, behind nodes that have one. -/
theorem run_eq_failed_iff {e : DomainError} :
    Polish.run [] t.polish = .error (.failed e) ↔ ∃ before node after stack,
      t.nodes = before ++ node :: after ∧ (∀ u ∈ before, ∃ v, u.evaluate = .ok v) ∧
      node.evaluate = .error e ∧ Polish.run [] (before.map item) = .ok stack ∧
      Polish.step stack node.item = .error (.failed e) := by
  rw [polish_eq_map_item, Polish.run_eq_error_iff]
  constructor
  · rintro ⟨_, _, _, stack, hitems, hbefore, hitem⟩
    obtain ⟨before, rest, hnodes, rfl, hrest⟩ := List.map_eq_append_iff.1 hitems
    obtain ⟨node, after, rfl, rfl, rfl⟩ := List.map_eq_cons_iff.1 hrest
    obtain ⟨below, hstep⟩ := step_node hnodes hbefore
    have hnode : node.evaluate = .error e := by
      rw [← Polish.push_eq_error_iff, ← hstep, hitem]
    exact ⟨before, node, after, stack, hnodes, fun u hu => exists_value_of_run hnodes hbefore hu,
      hnode, hbefore, hitem⟩
  · rintro ⟨before, node, after, stack, hnodes, -, -, hbefore, hnode⟩
    exact ⟨before.map item, node.item, after.map item, stack, by simp [hnodes], hbefore, hnode⟩

/-- **Evaluation on a stack.** The listing of an expression has an item for each node in postfix
order. Run on an empty stack it leaves the value of the expression. If that is an error, it is the
error of the first node that has no value: all nodes before it have one, and the run stops there. -/
theorem evaluate_on_stack (t : Expr) :
    t.polish = t.nodes.map item ∧
    Polish.run [] t.polish
      = (match t.evaluate with
        | .ok v => .ok [v]
        | .error e => .error (.failed e)) ∧
    ∀ e, t.evaluate = .error e ↔ ∃ before node after stack, t.nodes = before ++ node :: after ∧
      (∀ u ∈ before, ∃ v, u.evaluate = .ok v) ∧ node.evaluate = .error e ∧
      Polish.run [] (before.map item) = .ok stack ∧
      Polish.step stack node.item = .error (.failed e) := by
  have hrun := run_polish t []
  refine ⟨polish_eq_map_item t, ?_, fun e => ?_⟩
  · rw [hrun]
    cases t.evaluate <;> rfl
  · rw [← run_eq_failed_iff, hrun, Polish.push_eq_error_iff]

/-- A call of two arguments fails in the second one, before its number of arguments counts. -/
example : Polish.run [] [.literal 4, .literal 1, .literal 0, .operator .div, .call .sqrt 2]
    = .error (.failed .divisionByZero) := by decide +kernel

end Expr

end DeskCalc
