import DeskCalc.Proofs.Contracts

/-!
# Calls leave the cursor in balance

**Theorem (`calls_balance`).** Whatever the tokens are, every call that is made while they are parsed,
and that comes back with a result, is back on its level and inside the same brackets, is further on in
the tokens, though not behind their end, and has counted the operations of its result. No level is left
that was not entered, and no bracket is closed while none is open.

`Cursor.Balanced` says this of two cursors. It is what the functions promise in the contract
`balancing`, where the loops promise it too, with what they are given as counted before. That no move
is ever stuck is the other half of the contract, and the two need each other: a level can be left
because the call in between is back on it.
-/

namespace DeskCalc

theorem Expr.operationsAll_append (ts us : List Expr) :
    operationsAll (ts ++ us) = operationsAll ts + operationsAll us := by
  induction ts with
  | nil => rw [List.nil_append, operationsAll, Nat.zero_add]
  | cons t ts ih => rw [List.cons_append, operationsAll, operationsAll, ih, Nat.add_assoc]

theorem Expr.operationsAll_reverse (ts : List Expr) :
    operationsAll ts.reverse = operationsAll ts := by
  induction ts with
  | nil => rfl
  | cons t ts ih =>
    rw [List.reverse_cons, operationsAll_append, ih, operationsAll, operationsAll, operationsAll]
    omega

/-! ## Two cursors in balance -/

namespace Cursor

/-- The second cursor stands on the same level and in the same brackets as the first, behind the token
at an index, with the same tokens in all. It has counted the operations of a result, some of which the
first cursor has counted before. -/
structure Balanced (c : Cursor) (origin counted operations : Nat) (c' : Cursor) : Prop where
  depth : c'.depth = c.depth
  opened : c'.opened = c.opened
  onward : origin < c'.position
  total : c'.position + c'.rest.length = c.position + c.rest.length
  nodes : c'.nodes + counted = c.nodes + operations

variable {c c' c'' : Cursor} {origin k n m : Nat}

theorem total_moved {tok : Token} {after : List Token} (hr : c.rest = tok :: after) (i : Nat) :
    (c.moved [tok] i).position + (c.moved [tok] i).rest.length = c.position + c.rest.length := by
  rw [rest_moved_cons hr, hr, List.length_cons]
  show c.position + 1 + after.length = _
  omega

namespace Balanced

/-- Nothing is read. -/
theorem refl (h : origin < c.position) : c.Balanced origin n n c := ⟨rfl, rfl, h, rfl, rfl⟩

theorem since {o : Nat} (h : c.Balanced o k n c') (ho : origin ≤ o) : c.Balanced origin k n c' :=
  { h with onward := Nat.lt_of_le_of_lt ho h.onward }

/-- What is counted at the second cursor is what is counted before the reading goes on there. -/
theorem trans {o : Nat} (h : c.Balanced origin k n c') (h' : c'.Balanced o n m c'')
    (ho : c'.position ≤ o + 1) : c.Balanced origin k m c'' where
  depth := h'.depth.trans h.depth
  opened := h'.opened.trans h.opened
  onward := by
    have := h.onward
    have := h'.onward
    omega
  total := h'.total.trans h.total
  nodes := by
    have := h.nodes
    have := h'.nodes
    omega

/-- A token stands in front of what is read, and perhaps it is an operation. -/
theorem cons {tok : Token} {after : List Token} {i : Nat}
    (h : (c.moved [tok] i).Balanced origin 0 n c') (hr : c.rest = tok :: after) (k : Nat) :
    c.Balanced origin k (k + n + i) c' where
  depth := h.depth
  opened := h.opened
  onward := h.onward
  total := h.total.trans (total_moved hr i)
  nodes := by
    have := h.nodes
    rw [nodes_moved] at this
    omega

/-- A token that is no operation stands in front of what is read. -/
theorem behind {tok : Token} {after : List Token} (h : (c.moved [tok] 0).Balanced origin 0 n c')
    (hr : c.rest = tok :: after) : c.Balanced origin 0 n c' := by
  have hcons := h.cons hr 0
  rwa [Nat.zero_add, Nat.add_zero] at hcons

/-- What is read one level deeper, seen from above. -/
theorem above (h : c.deeper.Balanced origin k n c') :
    ∃ c'', c' = c''.deeper ∧ c.Balanced origin k n c'' := by
  obtain ⟨rest, position, opened, depth, nodes⟩ := c'
  obtain ⟨hdepth, hopened, honward, htotal, hnodes⟩ := h
  cases hdepth
  exact ⟨⟨rest, position, opened, c.depth, nodes⟩, rfl, rfl, hopened, honward, htotal, hnodes⟩

/-- What is read inside a bracket, seen from outside. -/
theorem outside {s : Bracket} (h : (c.inside s).Balanced origin k n c') :
    ∃ c'', c' = c''.inside s ∧ c.Balanced origin k n c'' := by
  obtain ⟨rest, position, opened, depth, nodes⟩ := c'
  obtain ⟨hdepth, hopened, honward, htotal, hnodes⟩ := h
  cases hdepth
  cases hopened
  exact ⟨⟨rest, position, c.opened, c.depth, nodes⟩, rfl, rfl, rfl, honward, htotal, hnodes⟩

/-- A token that is no operation stands behind what is read. -/
theorem snoc {tok : Token} {after : List Token} (h : c.Balanced origin k n c')
    (hr : c'.rest = tok :: after) : c.Balanced origin k n (c'.moved [tok] 0) where
  depth := h.depth
  opened := h.opened
  onward := Nat.lt_succ_of_lt h.onward
  total := (total_moved hr 0).trans h.total
  nodes := h.nodes

end Balanced

end Cursor

namespace Descent

open Code Cursor

/-! ## The contract -/

namespace Call

/-- The index of the first token of what a call reads. Some calls are made behind it, and the loops
are made behind some token. -/
def origin {α : Type} : Call α → Cursor → Nat
  | named start _, _ => start
  | group _, c | arguments _, c | addends _, c | factors _, c | further _, c => c.position - 1
  | _, c => c.position

/-- How many operations of its result are counted before a call is made. -/
def counted {α : Type} : Call α → Nat
  | addends left | factors left => left.operations
  | further found => Expr.operationsAll found
  | _ => 0

/-- How many operations a result holds. -/
def operations : {α : Type} → Call α → α → Nat
  | _, sum, t | _, product, t | _, power, t | _, signed, t | _, atom, t | _, named _ _, t
  | _, group _, t | _, addends _, t | _, factors _, t => t.operations
  | _, arguments _, ts | _, further _, ts => Expr.operationsAll ts

/-- When a call may be made, if there are so many tokens in all. -/
def Placed (total : Nat) {α : Type} : Call α → Cursor → Prop
  | named start _, c => c.position + c.rest.length = total ∧ start < c.position
  | group _, c | arguments _, c | addends _, c | factors _, c | further _, c =>
    c.position + c.rest.length = total ∧ 0 < c.position
  | _, c => c.position + c.rest.length = total

theorem Placed.total {total : Nat} {α : Type} {q : Call α} {c : Cursor} (h : q.Placed total c) :
    c.position + c.rest.length = total := by
  cases q with
  | sum | product | power | signed | atom => exact h
  | named | group | arguments | addends | factors | further => exact h.1

end Call

/-- The functions leave the cursor in balance and are never stuck. -/
def balancing (total : Nat) : Contract where
  before := Call.Placed total
  after q c a c' := c.Balanced (q.origin c) q.counted (q.operations a) c'
  fails := (· ≠ .stuck)

theorem fault_ne_stuck (e : SyntaxError) : Halt.fault e ≠ .stuck := nofun

/-- A function that reads a phrase from its first token on. -/
structure Begins (total : Nat) (q : Call Expr) : Prop where
  placed : ∀ {c : Cursor}, c.position + c.rest.length = total → q.Placed total c
  back : ∀ {c t c'}, (balancing total).after q c t c' → c.Balanced c.position 0 t.operations c'

/-- A loop that goes on from a tree. -/
structure GoesOn (total : Nat) (more : Expr → Call Expr) : Prop where
  placed : ∀ {left} {c : Cursor}, c.position + c.rest.length = total → 0 < c.position →
    (more left).Placed total c
  back : ∀ {left c t c'}, (balancing total).after (more left) c t c' →
    c.Balanced (c.position - 1) left.operations t.operations c'

section Bodies

variable {total : Nat} {c : Cursor} (hc : c.position + c.rest.length = total)

theorem begins_product : Begins total .product := ⟨fun h => h, fun h => h⟩

theorem begins_power : Begins total .power := ⟨fun h => h, fun h => h⟩

theorem begins_signed : Begins total .signed := ⟨fun h => h, fun h => h⟩

theorem goesOn_addends : GoesOn total .addends := ⟨fun h hpos => ⟨h, hpos⟩, fun h => h⟩

theorem goesOn_factors : GoesOn total .factors := ⟨fun h hpos => ⟨h, hpos⟩, fun h => h⟩

/-- The bracket behind what is read inside it. -/
theorem meets_balanced_leave {s : Bracket} {origin n : Nat} {c' : Cursor}
    (h : (c.inside s).Balanced origin 0 n c') :
    Meets leave (fun _ c' => c.Balanced origin 0 n c') (· ≠ .stuck) c' := by
  obtain ⟨c'', rfl, hinner⟩ := h.outside
  exact meets_leave (fun _ hr => hinner.snoc hr) fun _ => fault_ne_stuck _

include hc

/-- The operand behind an operator, one level deeper. -/
theorem keeps_balanced_operand {op : Operator} {after : List Token} {q : Call Expr}
    (hq : Begins total q) {make : Expr → Expr} {good : Expr → Cursor → Prop}
    (hr : c.rest = .operator op :: after)
    (hg : ∀ t c', (c.moved [.operator op] 1).Balanced (c.position + 1) 0 t.operations c' →
      good (make t) c') :
    Code.Keeps (balancing total) (Code.move countNode >>= fun _ => Code.move descend >>= fun _ =>
      Code.call q >>= fun operand => Code.move ascend >>= fun _ => pure (make operand))
      good (c.moved [.operator op] 0) := by
  rw [keeps_bind, keeps_move]
  refine meets_countNode (fun _ => ?_) fun _ => fault_ne_stuck _
  rw [keeps_bind, keeps_move]
  refine meets_descend (fun _ => ?_) fun _ => fault_ne_stuck _
  rw [keeps_bind, keeps_call]
  refine ⟨hq.placed ((total_moved hr 1).trans hc), fun operand c' hback => ?_⟩
  obtain ⟨c'', rfl, hoperand⟩ := (hq.back hback).above
  rw [keeps_bind, keeps_move, meets_ascend]
  exact hg operand c'' hoperand

/-- One round of a loop that reads on as long as operators come. -/
theorem keeps_balanced_round {ops : List Operator} {q : Call Expr} (hq : Begins total q)
    {more : Expr → Call Expr} (hmore : GoesOn total more) {left : Expr} (hpos : 0 < c.position) :
    Code.Keeps (balancing total) (Code.move (operator? ops) >>= fun
      | none => pure left
      | some op => Code.move countNode >>= fun _ => Code.call q >>= fun right =>
        Code.call (more (.binary op left right)))
      (fun t c' => c.Balanced (c.position - 1) left.operations t.operations c') c := by
  rw [keeps_bind, keeps_move]
  refine meets_operator? (fun op _ after hr => ?_) fun _ => .refl (by omega)
  dsimp only
  rw [keeps_bind, keeps_move]
  refine meets_countNode (fun _ => ?_) fun _ => fault_ne_stuck _
  rw [keeps_bind, keeps_call]
  refine ⟨hq.placed ((total_moved hr 1).trans hc), fun right c₁ hback => ?_⟩
  have hround : c.Balanced (c.position - 1) left.operations
      (Expr.binary op left right).operations c₁ := by
    have ho : c.position - 1 ≤ c.position + 1 := by omega
    rw [Expr.operations]
    exact ((hq.back hback).cons hr left.operations).since ho
  rw [keeps_call]
  refine ⟨hmore.placed (hround.total.trans hc) (Nat.zero_lt_of_lt hround.onward), fun t c₂ hend => ?_⟩
  exact hround.trans (hmore.back hend) (by omega)

/-- A level that reads one operand and then goes on in a loop. -/
theorem keeps_balanced_level {q : Call Expr} (hq : Begins total q) {more : Expr → Call Expr}
    (hmore : GoesOn total more) :
    Code.Keeps (balancing total) (Code.call q >>= fun first => Code.call (more first))
      (fun t c' => c.Balanced c.position 0 t.operations c') c := by
  rw [keeps_bind, keeps_call]
  refine ⟨hq.placed hc, fun first c₁ hback => ?_⟩
  have hfirst := hq.back hback
  rw [keeps_call]
  refine ⟨hmore.placed (hfirst.total.trans hc) (Nat.zero_lt_of_lt hfirst.onward), fun t c₂ hend => ?_⟩
  exact hfirst.trans (hmore.back hend) (by omega)

theorem keeps_balanced_power :
    Call.power.body.Keeps (balancing total) ((balancing total).after .power c) c := by
  rw [Call.body, keeps_bind, keeps_call]
  refine ⟨hc, fun base c₁ hback => ?_⟩
  have hbase : c.Balanced c.position 0 base.operations c₁ := hback
  rw [keeps_bind, keeps_move]
  refine meets_operator? (fun op _ after hr => ?_) fun _ => hbase
  refine keeps_balanced_operand (hbase.total.trans hc) begins_power hr
    fun t c' h => ?_
  show c.Balanced c.position 0 (Expr.binary op base t).operations c'
  rw [Expr.operations]
  exact hbase.trans (h.cons hr base.operations) (by omega)

theorem keeps_balanced_signed :
    Call.signed.body.Keeps (balancing total) ((balancing total).after .signed c) c := by
  rw [Call.body, keeps_bind, keeps_move]
  refine meets_operator? (fun op _ after hr => ?_) fun _ => ⟨hc, fun _ _ h => h⟩
  refine keeps_balanced_operand hc begins_signed hr fun t c' h => ?_
  show c.Balanced c.position 0 (Expr.signed (if op = .sub then .minus else .plus) t).operations c'
  rw [Expr.operations]
  have hsigned := (h.cons hr 0).since (Nat.le_succ c.position)
  rwa [Nat.zero_add] at hsigned

theorem keeps_balanced_atom :
    Call.atom.body.Keeps (balancing total) ((balancing total).after .atom c) c := by
  rw [Call.body, keeps_bind, keeps_move, meets_peek]
  split
  · next x hr =>
    obtain ⟨after, hr⟩ := List.head?_eq_some_iff.1 hr
    rw [keeps_bind, keeps_move, meets_advance hr, keeps_pure]
    exact (Balanced.refl (Nat.lt_succ_self c.position)).behind hr
  · next name hr =>
    obtain ⟨after, hr⟩ := List.head?_eq_some_iff.1 hr
    rw [keeps_bind, keeps_move, meets_get, keeps_bind, keeps_move, meets_advance hr, keeps_call]
    refine ⟨⟨(total_moved hr 0).trans hc, Nat.lt_succ_self _⟩, fun t c' h => ?_⟩
    exact Balanced.behind h hr
  · next s hr =>
    obtain ⟨after, hr⟩ := List.head?_eq_some_iff.1 hr
    rw [keeps_bind, keeps_move, meets_advance hr, keeps_call]
    refine ⟨⟨(total_moved hr 0).trans hc, Nat.succ_pos _⟩, fun t c' h => ?_⟩
    exact Balanced.behind h hr
  · rw [keeps_move, meets_failUnexpected]
    exact fault_ne_stuck _

theorem keeps_balanced_named {start : Nat} {name : String} (hstart : start < c.position) :
    (Call.named start name).body.Keeps (balancing total)
      ((balancing total).after (.named start name) c) c := by
  rw [Call.body]
  split
  · exact .refl hstart
  split
  · exact fault_ne_stuck _
  next f _ =>
  rw [keeps_bind, keeps_move, meets_peek]
  split
  · next s hr =>
    obtain ⟨after, hr⟩ := List.head?_eq_some_iff.1 hr
    rw [keeps_bind, keeps_move, meets_advance hr, keeps_bind, keeps_move]
    refine meets_countNode (fun _ => ?_) fun _ => fault_ne_stuck _
    rw [keeps_bind, keeps_call]
    refine ⟨⟨(total_moved hr 1).trans hc, Nat.succ_pos _⟩, fun args c' h => ?_⟩
    have hargs : (c.moved [.opening s] 1).Balanced c.position 0 (Expr.operationsAll args) c' := h
    have hcall := (hargs.cons hr 0).since (Nat.le_of_lt hstart)
    split
    · show c.Balanced start 0 (Expr.call f args).operations c'
      rw [Expr.operations]
      rwa [Nat.zero_add] at hcall
    · exact fault_ne_stuck _
  · exact fault_ne_stuck _

theorem keeps_balanced_group {s : Bracket} :
    (Call.group s).body.Keeps (balancing total) ((balancing total).after (.group s) c) c := by
  rw [Call.body, keeps_bind, keeps_move]
  refine meets_enter (fun _ => ?_) fun _ => fault_ne_stuck _
  rw [keeps_bind, keeps_move, meets_peek]
  split
  · rw [keeps_bind, keeps_move, meets_get, keeps_bind, keeps_move]
    exact meets_close (fun _ _ => fault_ne_stuck _) fun _ => fault_ne_stuck _
  · rw [keeps_bind, keeps_call]
    refine ⟨hc, fun inner c' h => ?_⟩
    have hinner : (c.inside s).Balanced c.position 0 inner.operations c' := h
    rw [keeps_bind, keeps_move]
    exact meets_balanced_leave (hinner.since (Nat.sub_le _ 1))

theorem keeps_balanced_arguments {s : Bracket} (hpos : 0 < c.position) :
    (Call.arguments s).body.Keeps (balancing total) ((balancing total).after (.arguments s) c) c := by
  rw [Call.body, keeps_bind, keeps_move]
  refine meets_enter (fun _ => ?_) fun _ => fault_ne_stuck _
  rw [keeps_bind, keeps_move, meets_peek]
  split
  · rw [keeps_bind, keeps_move]
    have hnone : (c.inside s).Balanced (c.position - 1) 0 0 (c.inside s) :=
      .refl (Nat.sub_lt hpos Nat.one_pos)
    exact meets_balanced_leave hnone
  · rw [keeps_bind, keeps_call]
    refine ⟨hc, fun first c₁ hback => ?_⟩
    have hfirst : (c.inside s).Balanced c.position 0 (Expr.operationsAll [first]) c₁ := by
      rw [Expr.operationsAll, Expr.operationsAll, Nat.add_zero]
      exact hback
    rw [keeps_bind, keeps_call]
    refine ⟨⟨hfirst.total.trans hc, Nat.zero_lt_of_lt hfirst.onward⟩, fun args c₂ hback' => ?_⟩
    have hargs : c₁.Balanced (c₁.position - 1) (Expr.operationsAll [first])
        (Expr.operationsAll args) c₂ := hback'
    rw [keeps_bind, keeps_move]
    exact meets_balanced_leave ((hfirst.trans hargs (by omega)).since (Nat.sub_le _ 1))

theorem keeps_balanced_further {found : List Expr} (hpos : 0 < c.position) :
    (Call.further found).body.Keeps (balancing total)
      ((balancing total).after (.further found) c) c := by
  rw [Call.body, keeps_bind, keeps_move, meets_peek]
  split
  · next hr =>
    obtain ⟨after, hr⟩ := List.head?_eq_some_iff.1 hr
    rw [keeps_bind, keeps_move, meets_advance hr, keeps_bind, keeps_call]
    refine ⟨(total_moved hr 0).trans hc, fun next c₁ hback => ?_⟩
    have hnext : (c.moved [.comma] 0).Balanced (c.position + 1) 0 next.operations c₁ := hback
    have hround : c.Balanced (c.position - 1) (Expr.operationsAll found)
        (Expr.operationsAll (next :: found)) c₁ := by
      have ho : c.position - 1 ≤ c.position + 1 := by omega
      rw [Expr.operationsAll, Nat.add_comm]
      exact (hnext.cons hr (Expr.operationsAll found)).since ho
    rw [keeps_call]
    refine ⟨⟨hround.total.trans hc, Nat.zero_lt_of_lt hround.onward⟩, fun args c₂ hback' => ?_⟩
    have hrest : c₁.Balanced (c₁.position - 1) (Expr.operationsAll (next :: found))
        (Expr.operationsAll args) c₂ := hback'
    exact hround.trans hrest (by omega)
  · show c.Balanced (c.position - 1) (Expr.operationsAll found)
      (Expr.operationsAll found.reverse) c
    rw [Expr.operationsAll_reverse]
    exact .refl (by omega)

end Bodies

/-- Every function keeps the contract. -/
theorem keeps_balancing (total : Nat) {β : Type} (q : Call β) (c : Cursor)
    (h : q.Placed total c) : q.body.Keeps (balancing total) ((balancing total).after q c) c := by
  cases q with
  | sum => exact keeps_balanced_level h begins_product goesOn_addends
  | product => exact keeps_balanced_level h begins_power goesOn_factors
  | power => exact keeps_balanced_power h
  | signed => exact keeps_balanced_signed h
  | atom => exact keeps_balanced_atom h
  | named start name => exact keeps_balanced_named h.1 h.2
  | group s => exact keeps_balanced_group h.1
  | arguments s => exact keeps_balanced_arguments h.1 h.2
  | addends left => exact keeps_balanced_round h.1 begins_product goesOn_addends h.2
  | factors left => exact keeps_balanced_round h.1 begins_power goesOn_factors h.2
  | further found => exact keeps_balanced_further h.1 h.2

/-! ## Calls with fuel -/

/-- A call comes back with a result. -/
def Call.Returns {β : Type} (q : Call β) (c : Cursor) (b : β) (c' : Cursor) : Prop :=
  ∃ n highest, Runs q.body n c (.ok (b, c')) highest

/-- The function with fuel that is called, or the loop with a round for every token left. -/
def Call.reader {β : Type} : Call β → Nat → Descent β
  | sum, fuel => Descent.sum fuel
  | product, fuel => Descent.product fuel
  | power, fuel => Descent.power fuel
  | signed, fuel => Descent.signed fuel
  | atom, fuel => Descent.atom fuel
  | named start name, fuel => Descent.named fuel start name
  | group s, fuel => Descent.group fuel s
  | arguments s, fuel => Descent.arguments fuel s
  | addends left, fuel => do chain [.add, .sub] (Descent.product fuel) (← get).rest left
  | factors left, fuel => do chain [.mul, .div] (Descent.power fuel) (← get).rest left
  | further found, fuel => do moreArguments (Descent.sum fuel) (← get).rest found

theorem follows_reader {β : Type} (q : Call β) (fuel : Nat) (c : Cursor) :
    Follows fuel 0 (call q) (q.reader fuel) c := by
  have h : Following fuel 0 fuel := following (Nat.le_of_eq (Nat.zero_add fuel))
  cases q with
  | sum => exact h.sum c
  | product => exact h.product c
  | power => exact h.power c
  | signed => exact h.signed c
  | atom => exact h.atom c
  | named start name => exact h.named start name c
  | group s => exact h.group s c
  | arguments s => exact h.arguments s c
  | addends left =>
    exact .get (follows_chain (fun _ => rfl) (fun _ => rfl) h.product (onward fuel).product _
      (Nat.le_refl _))
  | factors left =>
    exact .get (follows_chain (fun _ => rfl) (fun _ => rfl) h.power (onward fuel).power _
      (Nat.le_refl _))
  | further found => exact .get (follows_moreArguments h.sum _ found (Nat.le_refl _))

/-- What a function with fuel comes back with, the call without fuel comes back with. -/
theorem returns_of_reader {β : Type} {q : Call β} {fuel : Nat} {c c' : Cursor} {b : β}
    (h : (q.reader fuel).run c = .ok (b, c')) : q.Returns c b c' := by
  have hne : (q.reader fuel).run c ≠ .error .stuck := by
    rw [h]
    nofun
  obtain ⟨highest, -, hruns⟩ := follows_reader q fuel c (Nat.zero_le fuel) hne
  rw [h] at hruns
  cases hruns with
  | called hbody hdone =>
    cases hdone
    exact ⟨_, _, hbody⟩

/-! ## Levels and brackets that are left -/

theorem depth_ne_zero {c : Cursor} (h : ascend.run c ≠ .error .stuck) : c.depth ≠ 0 := by
  obtain ⟨rest, position, opened, depth, nodes⟩ := c
  rintro rfl
  exact h rfl

theorem opened_ne_nil {c : Cursor} (h : close.run c ≠ .error .stuck) : c.opened ≠ [] := by
  obtain ⟨rest, position, opened, depth, nodes⟩ := c
  rintro rfl
  exact h rfl

/-- Leaving a bracket is closing it, and then leaving its level. -/
theorem run_leave_ne_stuck {c : Cursor} (h : leave.run c ≠ .error .stuck) :
    c.opened ≠ [] ∧ ∀ c', close.run c = .ok ((), c') → c'.depth ≠ 0 := by
  rw [leave, StateT.run_bind] at h
  refine ⟨opened_ne_nil fun hclose => h (by rw [hclose]; rfl), fun c' hclose => ?_⟩
  refine depth_ne_zero fun hascend => h ?_
  rw [hclose]
  exact hascend

/-! ## Parsing -/

/-- A sum begins with a signed operand. -/
theorem makes_signed {c d : Cursor} {step : Step} (h : Makes Call.signed.body c step d) :
    Makes Call.sum.body c step d :=
  .within (q := .product) _ (.within (q := .power) _ (.within (q := .signed) _ h))

/-- Tokens that begin with a bracket begin with a group. -/
theorem makes_group {s : Bracket} {after : List Token} {d : Cursor} {step : Step}
    (h : Makes (call (.group s)) ⟨after, 1, [], 0, 0⟩ step d) :
    Makes (call .sum) (.start (.opening s :: after)) step d :=
  .within _ (makes_signed (.behindMove rfl (.within (q := .atom) _
    (.behindMove rfl (.behindMove rfl h)))))

/-- **Calls leave the cursor in balance.** Whatever is called while some tokens are parsed, if it comes
back then on its level and in the same brackets, further on than it began and not behind the end, and
with the operations of its result counted. No move is stuck: where a level is left one was entered, and
where a bracket is closed one is open. -/
theorem calls_balance (tokens : List Token) :
    let made := Makes (call .sum) (.start tokens)
    (∃ highest, Runs (call .sum) 0 (.start tokens) ((sum descentFuel).run (.start tokens)) highest) ∧
    (∀ {β : Type} (q : Call β) fuel c b c', (q.reader fuel).run c = .ok (b, c') →
      q.Returns c b c') ∧
    (∀ {β : Type} (q : Call β) c b c', made (.call q) c → q.Returns c b c' →
      c'.depth = c.depth ∧ c'.opened = c.opened ∧ q.origin c < c'.position ∧
      c'.position ≤ tokens.length ∧ c'.nodes + q.counted = c.nodes + q.operations b) ∧
    (∀ {β : Type} (m : Descent β) c, made (.move m) c → m.run c ≠ .error .stuck) ∧
    (∀ c, made (.move ascend) c → c.depth ≠ 0) ∧
    (∀ c, made (.move close) c → c.opened ≠ []) ∧
    ∀ c, made (.move leave) c →
      c.opened ≠ [] ∧ ∀ c', close.run c = .ok ((), c') → c'.depth ≠ 0 := by
  intro made
  have hstart : (call .sum).Keeps (balancing tokens.length) (fun _ _ => True) (.start tokens) :=
    ⟨Nat.zero_add _, fun _ _ _ => trivial⟩
  have hallowed : ∀ {step : Step} {c : Cursor}, made step c →
      step.Allowed (balancing tokens.length) c := fun h =>
    h.allowed (fun q c => keeps_balancing tokens.length q c) hstart
  have hmove : ∀ {β : Type} (m : Descent β) c, made (.move m) c → m.run c ≠ .error .stuck := by
    intro β m c h hstuck
    have hmeets : Meets m (fun _ _ => True) (· ≠ .stuck) c := hallowed h
    rw [meets_iff_ends, hstuck] at hmeets
    exact hmeets rfl
  refine ⟨runs_parse tokens, fun q fuel c b c' => returns_of_reader, fun q c b c' h hreturns => ?_,
    hmove, fun c h => depth_ne_zero (hmove _ c h), fun c h => opened_ne_nil (hmove _ c h),
    fun c h => run_leave_ne_stuck (hmove _ c h)⟩
  obtain ⟨n, highest, hruns⟩ := hreturns
  have hplaced : q.Placed tokens.length c := hallowed h
  have hbalanced : c.Balanced (q.origin c) q.counted (q.operations b) c' :=
    hruns.keeps (fun q c => keeps_balancing tokens.length q c) (keeps_balancing _ q c hplaced)
  refine ⟨hbalanced.depth, hbalanced.opened, hbalanced.onward, ?_, hbalanced.nodes⟩
  rw [← hplaced.total, ← hbalanced.total]
  exact Nat.le_add_right _ _

/-- In `(-1)` the group comes back in balance, and the level of the sign and the bracket are left; in
`()` the bracket is closed. -/
theorem calls_balance_negative :
    let ts : List Token := [.opening .round, .operator .sub, .number 1, .closing .round]
    let made := Makes (call .sum) (.start ts)
    let opened : Cursor := ⟨ts.drop 1, 1, [], 0, 0⟩
    let closed : Cursor := ⟨[], 4, [], 0, 1⟩
    let behindOne : Cursor := ⟨ts.drop 3, 3, [.round], 2, 1⟩
    let behindSum : Cursor := ⟨ts.drop 3, 3, [.round], 1, 1⟩
    let empty : List Token := [.opening .round, .closing .round]
    let inEmpty : Cursor := ⟨empty.drop 1, 1, [.round], 1, 0⟩
    ((group 20 .round).run opened = .ok (.signed .minus (.literal 1), closed) ∧
      made (.call (.group .round)) opened ∧
      (Call.group .round).Returns opened (.signed .minus (.literal 1)) closed ∧
      closed.depth = opened.depth ∧ closed.opened = opened.opened ∧
      opened.position - 1 < closed.position ∧ closed.position ≤ ts.length) ∧
    (made (.move ascend) behindOne ∧ ascend.run behindOne ≠ .error .stuck ∧
      behindOne.depth ≠ 0) ∧
    (made (.move leave) behindSum ∧ behindSum.opened ≠ [] ∧
      close.run behindSum = .ok ((), ⟨[], 4, [], 1, 1⟩) ∧ 1 ≠ 0) ∧
    Makes (call .sum) (.start empty) (.move close) inEmpty ∧ inEmpty.opened ≠ [] := by
  intro ts made opened closed behindOne behindSum empty inEmpty
  have hrun : (group 20 .round).run opened = .ok (.signed .minus (.literal 1), closed) := rfl
  have hcalled : made (.call (.group .round)) opened := makes_group (.call _ _ _)
  have hone : (Call.signed.reader 9).run ⟨ts.drop 2, 2, [.round], 2, 1⟩
      = .ok (.literal 1, behindOne) := rfl
  obtain ⟨_, _, hone⟩ := returns_of_reader hone
  have hsum : (Call.sum.reader 9).run ⟨ts.drop 1, 1, [.round], 1, 0⟩
      = .ok (.signed .minus (.literal 1), behindSum) := rfl
  obtain ⟨_, _, hsum⟩ := returns_of_reader hsum
  have hsign : Makes Call.signed.body ⟨ts.drop 1, 1, [.round], 1, 0⟩ (.move ascend) behindOne :=
    .behindMove rfl (.behindMove rfl (.behindMove rfl (.behindCall hone (.move _ _ _))))
  have hascend : made (.move ascend) behindOne :=
    makes_group (.within _ (.behindMove rfl (.behindMove rfl (.within (q := .sum) _
      (makes_signed hsign)))))
  have hleave : made (.move leave) behindSum :=
    makes_group (.within _ (.behindMove rfl (.behindMove rfl (.behindCall hsum (.move _ _ _)))))
  have hclose : Makes (call .sum) (.start empty) (.move close) inEmpty :=
    makes_group (.within _ (.behindMove rfl (.behindMove rfl (.behindMove rfl (.move _ _ _)))))
  obtain ⟨-, hreturns, hbalance, hmove, hascends, -, hleaves⟩ := calls_balance ts
  have hback := hreturns (.group .round) 20 opened _ closed hrun
  obtain ⟨hdepth, hopened, honward, hwithin, -⟩ := hbalance _ _ _ _ hcalled hback
  have hclosed : close.run behindSum = .ok ((), ⟨[], 4, [], 1, 1⟩) := rfl
  obtain ⟨hopen, hdeep⟩ := hleaves _ hleave
  exact ⟨⟨hrun, hcalled, hback, hdepth, hopened, honward, hwithin⟩,
    ⟨hascend, hmove _ _ hascend, hascends _ hascend⟩, ⟨hleave, hopen, hclosed, hdeep _ hclosed⟩,
    hclose, (calls_balance empty).2.2.2.2.2.1 _ hclose⟩

end Descent

end DeskCalc
