import DeskCalc.Proofs.Onward
import DeskCalc.Proofs.Shape
import DeskCalc.Proofs.Substitution

/-!
# How deep calls nest

**Theorem (`bounded_recursion`).** Whatever the tokens are, the functions of the grammar, taken
without fuel and with loops that count no rounds, come to an end, and never are more than
`7 * (256 + 1)` of their calls open at once. With that number as its fuel the descent comes to the
same end. A tree that is accepted has at most 1024 operations, calls of one argument only, and no
way down it is longer than 1024, so no more than 1025 calls of `evaluate` are open at once.

The functions without fuel are `Code`, in which a call is a step like a move of the cursor. `Runs`
says how some code ends, if it ends, and how many calls were open at most. The code of a function
follows the function with fuel call by call, as long as that is not stuck (`Follows`, `following`):
where `n` calls are open and `fuel` are left, the two sum up to the same bound. That the descent is
never stuck with the fuel of `parse` is its soundness. A loop follows a chain that has a round for
every token left, because no reading puts a token back.
-/

namespace DeskCalc

namespace Descent

/-! ## The functions without fuel -/

/-- The functions of the grammar and the loops in them, with their arguments. -/
inductive Call : Type → Type
  | sum : Call Expr
  | product : Call Expr
  | power : Call Expr
  | signed : Call Expr
  | atom : Call Expr
  | named (start : Nat) (name : String) : Call Expr
  | group (style : Bracket) : Call Expr
  | arguments (style : Bracket) : Call (List Expr)
  /-- Reads on from a sum. -/
  | addends (left : Expr) : Call Expr
  /-- Reads on from a product. -/
  | factors (left : Expr) : Call Expr
  /-- Reads on from some arguments, latest first. -/
  | further (found : List Expr) : Call (List Expr)

/-- What a function does: it moves the cursor and calls functions. -/
inductive Code : Type → Type 1
  | done {α : Type} (a : α) : Code α
  | moving {α β : Type} (m : Descent β) (next : β → Code α) : Code α
  | calling {α β : Type} (q : Call β) (next : β → Code α) : Code α

namespace Code

variable {α β : Type}

def bind : Code α → (α → Code β) → Code β
  | done a, f => f a
  | moving m next, f => .moving m fun b => (next b).bind f
  | calling q next, f => .calling q fun b => (next b).bind f

instance : Monad Code where
  pure := done
  bind := bind

/-- A move of the cursor. -/
def move (m : Descent α) : Code α := .moving m .done

/-- A call. -/
def call (q : Call α) : Code α := .calling q .done

end Code

open Code

namespace Call

/-- How many calls are opened: none by a loop, which goes on in the call it stands in. -/
def opens {α : Type} : Call α → Nat
  | addends _ | factors _ | further _ => 0
  | _ => 1

/-- The code of a function or a loop. -/
def body {α : Type} : Call α → Code α
  | sum => do
    let first ← call .product
    call (.addends first)
  | addends left => do
    match ← move (operator? [.add, .sub]) with
    | none => return left
    | some op =>
      move countNode
      let right ← call .product
      call (.addends (.binary op left right))
  | product => do
    let first ← call .power
    call (.factors first)
  | factors left => do
    match ← move (operator? [.mul, .div]) with
    | none => return left
    | some op =>
      move countNode
      let right ← call .power
      call (.factors (.binary op left right))
  | power => do
    let base ← call .signed
    match ← move (operator? [.pow]) with
    | none => return base
    | some op =>
      move countNode
      move descend
      let exponent ← call .power
      move ascend
      return .binary op base exponent
  | signed => do
    match ← move (operator? [.sub, .add]) with
    | none => call .atom
    | some op =>
      move countNode
      move descend
      let operand ← call .signed
      move ascend
      return .signed (if op = .sub then .minus else .plus) operand
  | atom => do
    match ← move peek? with
    | some (.number value) =>
      move advance
      return .literal value
    | some (.identifier name) =>
      let start := (← move get).position
      move advance
      call (.named start name)
    | some (.opening style) =>
      move advance
      call (.group style)
    | _ => move failUnexpected
  | named start name => do
    match Constant.ofName? name with
    | some constant => return .constant constant
    | none =>
      match Function.ofName? name with
      | none => move (failAt start (.unknownIdentifier name))
      | some f =>
        match ← move peek? with
        | some (.opening style) =>
          move advance
          move countNode
          let args ← call (.arguments style)
          if args.length = f.arity then return .call f args
          else move (failAt start (.arity f f.arity args.length))
        | _ => move (fail (.missingArguments f))
  | group style => do
    move (enter style)
    match ← move peek? with
    | some (.closing _) =>
      let position := (← move get).position
      move close
      move (failAt position .emptyGroup)
    | _ =>
      let inner ← call .sum
      move leave
      return inner
  | arguments style => do
    move (enter style)
    match ← move peek? with
    | some (.closing _) =>
      move leave
      return []
    | _ =>
      let first ← call .sum
      let args ← call (.further [first])
      move leave
      return args
  | further found => do
    match ← move peek? with
    | some .comma =>
      move advance
      let next ← call .sum
      call (.further (next :: found))
    | _ => return found.reverse

end Call

/-! ## Runs -/

/-- With `n` calls open, some code ends from a cursor, and the most calls that were open at once. -/
inductive Runs : {α : Type} → Code α → Nat → Cursor → Except Halt (α × Cursor) → Nat → Prop
  | done {α : Type} (a : α) (n : Nat) (c : Cursor) : Runs (.done a) n c (.ok (a, c)) n
  | moved {α β : Type} {m : Descent β} {next : β → Code α} {n highest : Nat} {c c' : Cursor}
      {b : β} {r : Except Halt (α × Cursor)} : m.run c = .ok (b, c') →
      Runs (next b) n c' r highest → Runs (.moving m next) n c r highest
  | failed {α β : Type} {m : Descent β} (next : β → Code α) (n : Nat) {c : Cursor} {e : Halt} :
      m.run c = .error e → Runs (.moving m next) n c (.error e) n
  | called {α β : Type} {q : Call β} {next : β → Code α} {n inside highest : Nat} {c c' : Cursor}
      {b : β} {r : Except Halt (α × Cursor)} : Runs q.body (n + q.opens) c (.ok (b, c')) inside →
      Runs (next b) n c' r highest → Runs (.calling q next) n c r (max inside highest)
  | broken {α β : Type} {q : Call β} (next : β → Code α) {n inside : Nat} {c : Cursor} {e : Halt} :
      Runs q.body (n + q.opens) c (.error e) inside →
      Runs (.calling q next) n c (.error e) inside

namespace Runs

variable {α β : Type} {g : Code α} {f : α → Code β} {n highest highest' : Nat} {c c' : Cursor}

/-- The calls that are open at the start count. -/
theorem le {r : Except Halt (α × Cursor)} (h : Runs g n c r highest) : n ≤ highest := by
  induction h with
  | done | failed => exact Nat.le_refl _
  | moved _ _ ih => exact ih
  | called _ _ _ ih => exact Nat.le_trans ih (Nat.le_max_right ..)
  | broken _ _ ih => exact Nat.le_trans (Nat.le_add_right ..) ih

/-- Some code ends in one way only, with one most number of calls. -/
theorem unique {r r' : Except Halt (α × Cursor)} (h : Runs g n c r highest)
    (h' : Runs g n c r' highest') : r = r' ∧ highest = highest' := by
  induction h generalizing highest' with
  | done => cases h' with
    | done => exact ⟨rfl, rfl⟩
  | moved hrun _ ih => cases h' with
    | moved hrun' hnext =>
      rw [hrun] at hrun'
      cases hrun'
      exact ih hnext
    | failed _ _ hrun' =>
      rw [hrun] at hrun'
      cases hrun'
  | failed _ _ hrun => cases h' with
    | moved hrun' =>
      rw [hrun] at hrun'
      cases hrun'
    | failed _ _ hrun' =>
      rw [hrun] at hrun'
      cases hrun'
      exact ⟨rfl, rfl⟩
  | called _ _ ihbody ihnext => cases h' with
    | called hbody hnext =>
      obtain ⟨heq, hinside⟩ := ihbody hbody
      cases heq
      obtain ⟨hr, hrest⟩ := ihnext hnext
      exact ⟨hr, by rw [hinside, hrest]⟩
    | broken _ hbody => cases (ihbody hbody).1
  | broken _ _ ihbody => cases h' with
    | called hbody => cases (ihbody hbody).1
    | broken _ hbody =>
      obtain ⟨heq, hinside⟩ := ihbody hbody
      cases heq
      exact ⟨rfl, hinside⟩

theorem bind {a : α} {r : Except Halt (β × Cursor)} (hg : Runs g n c (.ok (a, c')) highest)
    (hf : Runs (f a) n c' r highest') : Runs (g >>= f) n c r (max highest highest') := by
  generalize hr : (.ok (a, c') : Except Halt (α × Cursor)) = r' at hg
  induction hg with
  | done =>
    cases hr
    rw [Nat.max_eq_right hf.le]
    exact hf
  | moved hrun _ ih => exact .moved hrun (ih hf hr)
  | failed => cases hr
  | called hbody _ _ ih =>
    rw [Nat.max_assoc]
    exact .called hbody (ih hf hr)
  | broken => cases hr

theorem bind_error {e : Halt} (hg : Runs g n c (.error e) highest) :
    Runs (g >>= f) n c (.error e) highest := by
  generalize hr : (.error e : Except Halt (α × Cursor)) = r at hg
  induction hg with
  | done => cases hr
  | moved hrun _ ih => exact .moved hrun (ih hr)
  | failed _ _ hrun =>
    cases hr
    exact .failed _ _ hrun
  | called hbody _ _ ih => exact .called hbody (ih hr)
  | broken _ hbody =>
    cases hr
    exact .broken _ hbody

end Runs

/-! ## Following the functions with fuel -/

/-- From a cursor, some code comes to the end of a reading with fuel, unless that is stuck, and
never has more than `N` calls open. -/
def Follows {α : Type} (N n : Nat) (g : Code α) (m : Descent α) (c : Cursor) : Prop :=
  n ≤ N → m.run c ≠ .error .stuck → ∃ highest ≤ N, Runs g n c (m.run c) highest

section Follows

variable {α β : Type} {N n : Nat} {c : Cursor} {g : Code α} {f : α → Code β} {m : Descent α}
  {k : α → Descent β}

theorem follows_move (m : Descent α) : Follows N n (move m) m c := by
  intro hn _
  refine ⟨n, hn, ?_⟩
  cases hr : m.run c with
  | ok r => exact .moved hr (.done r.1 n r.2)
  | error e => exact .failed _ n hr

theorem follows_pure (a : α) : Follows N n (pure a) (pure a) c :=
  fun hn _ => ⟨n, hn, .done a n c⟩

theorem follows_stuck (g : Code α) : Follows N n g (throw .stuck) c :=
  fun _ hm => (hm rfl).elim

theorem Follows.bind (hg : Follows N n g m c)
    (hf : ∀ a c', m.run c = .ok (a, c') → Follows N n (f a) (k a) c') :
    Follows N n (g >>= f) (m >>= k) c := by
  intro hn hm
  unfold Follows at hg
  rw [StateT.run_bind] at hm ⊢
  cases hr : m.run c with
  | error e =>
    rw [hr] at hm hg
    obtain ⟨highest, hle, hruns⟩ := hg hn fun h => hm (by cases h; rfl)
    exact ⟨highest, hle, hruns.bind_error⟩
  | ok r =>
    obtain ⟨a, c'⟩ := r
    rw [hr] at hm hg
    obtain ⟨highest, hle, hruns⟩ := hg hn nofun
    obtain ⟨highest', hle', hruns'⟩ := hf a c' hr hn hm
    exact ⟨max highest highest', Nat.max_le.2 ⟨hle, hle'⟩, hruns.bind hruns'⟩

theorem Follows.called {q : Call α} (hn : n + q.opens ≤ N)
    (hbody : Follows N (n + q.opens) q.body m c) : Follows N n (call q) m c := by
  intro _ hm
  obtain ⟨inside, hle, hruns⟩ := hbody hn hm
  refine ⟨inside, hle, ?_⟩
  cases hr : m.run c with
  | error e =>
    rw [hr] at hruns
    exact .broken _ hruns
  | ok r =>
    obtain ⟨a, c'⟩ := r
    rw [hr] at hruns
    have hreturn := Runs.called hruns (.done a n c')
    rwa [Nat.max_eq_left (Nat.le_trans (Nat.le_add_right ..) hruns.le)] at hreturn

/-- A loop goes on with the calls that are open. -/
theorem Follows.looped {q : Call α} (hq : q.opens = 0) (hbody : Follows N n q.body m c) :
    Follows N n (call q) m c := fun hn =>
  Follows.called (by rwa [hq]) (by rwa [hq]) hn

theorem Follows.get {k : Cursor → Descent α} (hg : Follows N n g (k c) c) :
    Follows N n g (get >>= k) c := hg

end Follows

/-! ## Loops -/

section Loops

variable {N fuel n : Nat} {c : Cursor}

/-- A loop that reads on as long as operators come follows a chain that has a round for every
token. -/
theorem follows_chain {ops : List Operator} {operand : Descent Expr} {q : Call Expr}
    {more : Expr → Call Expr} (hopens : ∀ left, (more left).opens = 0)
    (hbody : ∀ left, (more left).body = move (operator? ops) >>= fun
      | none => pure left
      | some op => move countNode >>= fun _ => call q >>= fun right =>
        call (more (.binary op left right)))
    (hoperand : ∀ c, Follows N n (call q) operand c) (hadvances : Advances operand)
    (rounds : List Token) {left : Expr} (hrounds : c.rest.length ≤ rounds.length) :
    Follows N n (call (more left)) (chain ops operand rounds left) c := by
  induction rounds generalizing left c with
  | nil =>
    have hc : c.rest = [] := List.length_eq_zero_iff.1 (Nat.le_zero.1 hrounds)
    have hnone : (operator? ops).run c = .ok (none, c) := by
      obtain ⟨rest, position, opened, depth, nodes⟩ := c
      cases hc
      rfl
    refine .looped (hopens left) fun hn _ => ⟨n, hn, ?_⟩
    rw [hbody]
    exact .moved hnone (.done left n c)
  | cons _ rounds ih =>
    refine .looped (hopens left) ?_
    rw [hbody]
    refine (follows_move _).bind fun o c₁ ho => ?_
    cases o with
    | none => exact follows_pure left
    | some op =>
      have h₁ := length_operator? ho
      refine (follows_move _).bind fun _ c₂ hcount => ?_
      have h₂ := advances_countNode.length_le hcount
      refine (hoperand c₂).bind fun right c₃ hright => ih ?_
      have h₃ := hadvances.length_le hright
      rw [List.length_cons] at hrounds
      omega

theorem follows_moreArguments (hsum : ∀ c, Follows N n (call .sum) (sum fuel) c)
    (rounds : List Token) (found : List Expr) (hrounds : c.rest.length ≤ rounds.length) :
    Follows N n (call (.further found)) (moreArguments (sum fuel) rounds found) c := by
  induction rounds generalizing found c with
  | nil =>
    have hc : c.rest = [] := List.length_eq_zero_iff.1 (Nat.le_zero.1 hrounds)
    have hnone : peek?.run c = .ok (none, c) := by
      obtain ⟨rest, position, opened, depth, nodes⟩ := c
      cases hc
      rfl
    exact .looped rfl fun hn _ => ⟨n, hn, .moved hnone (.done found.reverse n c)⟩
  | cons _ rounds ih =>
    refine .looped rfl ((follows_move _).bind fun t c₁ ht => ?_)
    cases t with
    | none => exact follows_pure _
    | some t =>
      cases t with
      | comma =>
        refine (follows_move _).bind fun _ c₂ hadvance => ?_
        have h₂ := length_advance ht hadvance
        refine (hsum c₂).bind fun next c₃ hnext => ih _ ?_
        have h₃ := (onward fuel).sum.length_le hnext
        rw [List.length_cons] at hrounds
        omega
      | number | operator | identifier | opening | closing => exact follows_pure _

end Loops

/-! ## Levels -/

/-- With `n` calls open, calling a function follows the one with fuel. -/
structure Following (N n fuel : Nat) : Prop where
  sum : ∀ c, Follows N n (call .sum) (sum fuel) c
  product : ∀ c, Follows N n (call .product) (product fuel) c
  power : ∀ c, Follows N n (call .power) (power fuel) c
  signed : ∀ c, Follows N n (call .signed) (signed fuel) c
  atom : ∀ c, Follows N n (call .atom) (atom fuel) c
  named : ∀ start name c, Follows N n (call (.named start name)) (named fuel start name) c
  group : ∀ s c, Follows N n (call (.group s)) (group fuel s) c
  arguments : ∀ s c, Follows N n (call (.arguments s)) (arguments fuel s) c

section Levels

variable {N n fuel : Nat} (below : Following N (n + 1) fuel) (hn : n + 1 ≤ N)
include below hn

theorem follows_sum (c : Cursor) : Follows N n (call .sum) (sum (fuel + 1)) c :=
  .called hn ((below.product c).bind fun _ c' _ => .get
    (follows_chain (fun _ => rfl) (fun _ => rfl) below.product (onward fuel).product _
      (Nat.le_refl c'.rest.length)))

theorem follows_product (c : Cursor) : Follows N n (call .product) (product (fuel + 1)) c :=
  .called hn ((below.power c).bind fun _ c' _ => .get
    (follows_chain (fun _ => rfl) (fun _ => rfl) below.power (onward fuel).power _
      (Nat.le_refl c'.rest.length)))

theorem follows_power (c : Cursor) : Follows N n (call .power) (power (fuel + 1)) c := by
  refine .called hn ((below.signed c).bind fun base _ _ => (follows_move _).bind fun o _ _ => ?_)
  cases o with
  | none => exact follows_pure base
  | some op =>
    exact (follows_move _).bind fun _ _ _ => (follows_move _).bind fun _ c' _ =>
      (below.power c').bind fun _ _ _ => (follows_move _).bind fun _ _ _ => follows_pure _

theorem follows_signed (c : Cursor) : Follows N n (call .signed) (signed (fuel + 1)) c := by
  refine .called hn ((follows_move _).bind fun o c' _ => ?_)
  cases o with
  | none => exact below.atom c'
  | some op =>
    exact (follows_move _).bind fun _ _ _ => (follows_move _).bind fun _ c'' _ =>
      (below.signed c'').bind fun _ _ _ => (follows_move _).bind fun _ _ _ => follows_pure _

theorem follows_atom (c : Cursor) : Follows N n (call .atom) (atom (fuel + 1)) c := by
  refine .called hn ((follows_move _).bind fun t _ _ => ?_)
  cases t with
  | none => exact follows_move _
  | some t =>
    cases t with
    | number => exact (follows_move _).bind fun _ _ _ => follows_pure _
    | identifier =>
      exact (follows_move _).bind fun _ _ _ => (follows_move _).bind fun _ _ _ =>
        below.named _ _ _
    | opening => exact (follows_move _).bind fun _ _ _ => below.group _ _
    | operator | closing | comma => exact follows_move _

theorem follows_named (start : Nat) (name : String) (c : Cursor) :
    Follows N n (call (.named start name)) (named (fuel + 1) start name) c := by
  refine .called hn ?_
  rw [Call.body, named]
  cases Constant.ofName? name with
  | some constant => exact follows_pure _
  | none =>
    cases Function.ofName? name with
    | none => exact follows_move _
    | some f =>
      refine (follows_move _).bind fun t _ _ => ?_
      cases t with
      | none => exact follows_move _
      | some t =>
        cases t with
        | opening =>
          refine (follows_move _).bind fun _ _ _ => (follows_move _).bind fun _ c' _ =>
            (below.arguments _ c').bind fun args _ _ => ?_
          by_cases hl : args.length = f.arity
          · rw [if_pos hl, if_pos hl]
            exact follows_pure _
          · rw [if_neg hl, if_neg hl]
            exact follows_move _
        | number | operator | identifier | closing | comma => exact follows_move _

theorem follows_group (s : Bracket) (c : Cursor) :
    Follows N n (call (.group s)) (group (fuel + 1) s) c := by
  refine .called hn ((follows_move _).bind fun _ _ _ => (follows_move _).bind fun t c' _ => ?_)
  have hsum := (below.sum c').bind fun inner _ _ =>
    (follows_move leave).bind fun _ _ _ => follows_pure inner
  cases t with
  | none => exact hsum
  | some t =>
    cases t with
    | closing =>
      exact (follows_move _).bind fun _ _ _ => (follows_move _).bind fun _ _ _ => follows_move _
    | number | operator | identifier | opening | comma => exact hsum

theorem follows_arguments (s : Bracket) (c : Cursor) :
    Follows N n (call (.arguments s)) (arguments (fuel + 1) s) c := by
  refine .called hn ((follows_move _).bind fun _ _ _ => (follows_move _).bind fun t c' _ => ?_)
  have hsums := (below.sum c').bind fun first _ _ => Follows.get
    ((follows_moreArguments below.sum _ [first] (Nat.le_refl _)).bind fun args _ _ =>
      (follows_move leave).bind fun _ _ _ => follows_pure args)
  cases t with
  | none => exact hsums
  | some t =>
    cases t with
    | closing => exact (follows_move _).bind fun _ _ _ => follows_pure _
    | number | operator | identifier | opening | comma => exact hsums

end Levels

/-- Where the calls that are open and the fuel sum up to at most `N`, every function follows. -/
theorem following {N n fuel : Nat} (hN : n + fuel ≤ N) : Following N n fuel := by
  induction fuel generalizing n with
  | zero =>
    exact {
      sum := fun _ => follows_stuck _
      product := fun _ => follows_stuck _
      power := fun _ => follows_stuck _
      signed := fun _ => follows_stuck _
      atom := fun _ => follows_stuck _
      named := fun _ _ _ => follows_stuck _
      group := fun _ _ => follows_stuck _
      arguments := fun _ _ => follows_stuck _ }
  | succ fuel ih =>
    have below : Following N (n + 1) fuel := ih (by omega)
    have hn : n + 1 ≤ N := by omega
    exact {
      sum := follows_sum below hn
      product := follows_product below hn
      power := follows_power below hn
      signed := follows_signed below hn
      atom := follows_atom below hn
      named := follows_named below hn
      group := follows_group below hn
      arguments := follows_arguments below hn }

end Descent

/-! ## Parsing and evaluating -/

/-- The descent is never stuck with the fuel of the parser. -/
theorem run_ne_stuck (tokens : List Token) :
    (Descent.sum descentFuel).run (.start tokens) ≠ .error .stuck := by
  have h := (Descent.sound descentFuel).sum _ (Cursor.start_within tokens)
    (Cursor.start_fuelled tokens)
  intro hstuck
  unfold Descent.Meets at h
  rw [hstuck] at h
  exact h rfl

/-- **Recursion is bounded.** On every list of tokens the descent without fuel ends, with at most
`7 * (256 + 1)` calls ever open at once, and the descent with that much fuel ends in the same way
and is not stuck. An accepted tree has at most 1024 operations, calls of one argument only and a
height of at most 1024, and evaluating it never has more than 1025 calls open. -/
theorem bounded_recursion (tokens : List Token) :
    let ending := (Descent.sum (7 * (256 + 1))).run (.start tokens)
    (∃ highest ≤ 7 * (256 + 1), Descent.Runs (.call .sum) 0 (.start tokens) ending highest ∧
      ∀ other most, Descent.Runs (.call .sum) 0 (.start tokens) other most →
        other = ending ∧ most = highest) ∧
    ending ≠ .error .stuck ∧
    ∀ t, parse tokens = .ok t →
      t.operations ≤ 1024 ∧ t.OneArgument ∧ t.height ≤ 1024 ∧
        ∃ highest ≤ 1024 + 1, (Expr.gauged 0 t).run.run 0 = (t.evaluate, highest) := by
  intro ending
  have hends : ending ≠ .error .stuck := run_ne_stuck tokens
  refine ⟨?_, hends, fun t ht => ?_⟩
  · have hfollowing := Descent.following (Nat.le_of_eq (Nat.zero_add (7 * (256 + 1))))
    obtain ⟨highest, hle, hruns⟩ := hfollowing.sum (.start tokens) (Nat.zero_le _) hends
    exact ⟨highest, hle, hruns, fun other most h => h.unique hruns⟩
  · obtain ⟨n, d, hspells, hn, -⟩ := spells_of_parse ht
    have hoperations : t.operations ≤ 1024 := hspells.operations_eq ▸ hn
    have hheight : t.height ≤ 1024 := Nat.le_trans t.height_le_operations hoperations
    have hgauges : Expr.Gauges (1024 + 1) (Expr.gauged 0 t) t.evaluate := Expr.gauges t (by omega)
    exact ⟨hoperations, hspells.oneArgument, hheight, hgauges 0 (Nat.zero_le _)⟩

/-- A sum of ones is as high as it has operators. -/
theorem spells_ones (k : Nat) :
    ∃ t, Spells .sum (.number 1 :: (List.replicate k [.operator .add, .number 1]).flatten) t k 0 ∧
      t.height = k := by
  induction k with
  | zero => exact ⟨_, (Spells.number 1).toSum, by rw [Expr.height]⟩
  | succ k ih =>
    obtain ⟨t, ht, hheight⟩ := ih
    have hone : Spells .product [.number 1] (.literal 1) 0 0 := (Spells.number 1).ofAtom .product
    have hsum := ht.sumSnoc (show Operator.add ∈ [Operator.add, .sub] by decide) hone
    refine ⟨.binary .add t (.literal 1), ?_, ?_⟩
    · rw [List.replicate_succ', List.flatten_append]
      exact hsum
    · rw [Expr.height, Expr.height, hheight, Nat.max_zero]

/-- The tree of a sum of 1025 ones is as high and as large as a tree can be. -/
theorem bounded_recursion_ones :
    ∃ t, parse (.number 1 :: (List.replicate 1024 [.operator .add, .number 1]).flatten) = .ok t ∧
      t.height = 1024 ∧ t.operations ≤ 1024 ∧ t.OneArgument ∧
        ∃ highest ≤ 1024 + 1, (Expr.gauged 0 t).run.run 0 = (t.evaluate, highest) := by
  obtain ⟨t, ht, hheight⟩ := spells_ones 1024
  have hparse := parse_of_spells ht (Nat.le_refl _) (Nat.zero_le _)
  obtain ⟨-, -, hshape⟩ := bounded_recursion
    (.number 1 :: (List.replicate 1024 [.operator .add, .number 1]).flatten)
  obtain ⟨hoperations, hcalls, -, hgauged⟩ := hshape t hparse
  exact ⟨t, hparse, hheight, hoperations, hcalls, hgauged⟩

/-- Calls of `sin` that nest one level too deep open as many calls as there can be: with less fuel
the descent is stuck on them. -/
example :
    let tokens := (List.replicate 257 [Token.identifier "sin", .opening .round]).flatten
    (match (Descent.sum (7 * (256 + 1) - 1)).run (.start tokens) with
      | .error .stuck => true
      | _ => false) = true := by
  decide +kernel

end DeskCalc
