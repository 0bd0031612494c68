import DeskCalc.Proofs.Soundness

/-!
# What the parser does not refuse

Every phrase is read, if nothing behind it continues it: the reading comes back with the phrase's
tree behind the phrase, or it meets a limit, and then the phrase does exceed that limit.

The proof is an induction on the phrase. A sum is longer than the sum it begins with, so the claim
for a sum is not about the whole reading but about its loop: the reading of a sum comes to the point
where the loop holds the tree (`Phrase.resume`), and what the loop does from there is up to what
follows.
-/

namespace DeskCalc

namespace Phrase

/-- The level of the parser that reads a kind of phrase. -/
def reader : Phrase → Nat → Descent Expr
  | sum => Descent.sum
  | product => Descent.product
  | power => Descent.power
  | signed => Descent.signed
  | atom => Descent.atom

/-- How many calls the reading of a phrase takes down to the next level of nesting. -/
def calls : Phrase → Nat
  | sum => 7
  | product => 6
  | power => 5
  | signed => 4
  | atom => 3

/-- What is left of a reading when a tree stands for all that is read so far. -/
def resume : Phrase → Nat → List Token → Expr → Descent Expr
  | sum, fuel, rounds, t => Descent.chain [.add, .sub] (Descent.product fuel) rounds t
  | product, fuel, rounds, t => Descent.chain [.mul, .div] (Descent.power fuel) rounds t
  | _, _, _, t => pure t

/-- The operators that would take up a phrase of a kind as their left operand. -/
def joiners : Phrase → List Operator
  | sum => [.add, .sub, .mul, .div, .pow]
  | product => [.mul, .div, .pow]
  | power => [.pow]
  | signed => []
  | atom => []

/-- A phrase of a kind ends before these tokens. -/
def Ends (p : Phrase) (after : List Token) : Prop :=
  ∀ op ∈ p.joiners, after.head? ≠ some (.operator op)

theorem ends_signed (after : List Token) : signed.Ends after :=
  List.forall_mem_nil _

theorem ends_atom (after : List Token) : atom.Ends after :=
  List.forall_mem_nil _

/-- The kind of phrase that the loop of a kind repeats. -/
def operand : Phrase → Phrase
  | sum => product
  | product => power
  | p => p

theorem Ends.operand {p : Phrase} {after : List Token} (h : p.Ends after) :
    p.operand.Ends after := by
  intro op hop
  refine h op ?_
  revert hop
  cases p <;> cases op <;> decide

end Phrase

/-- Why a phrase is not read: it exceeds a limit here. -/
inductive Cursor.Overruns (c : Cursor) (n d : Nat) : Halt → Prop
  | deep (position : Nat) : maxDepth < c.depth + d → Overruns c n d (.fault ⟨position, .tooDeep⟩)
  | large (position : Nat) : maxNodes < c.nodes + n → Overruns c n d (.fault ⟨position, .tooLarge⟩)

theorem Cursor.Overruns.mono {c c' : Cursor} {n m d e : Nat} {h : Halt} (ho : c.Overruns n d h)
    (hn : c.nodes + n ≤ c'.nodes + m) (hd : c.depth + d ≤ c'.depth + e) : c'.Overruns m e h := by
  cases ho with
  | deep position h => exact .deep position (by omega)
  | large position h => exact .large position (by omega)

/-! ## How phrases begin -/

namespace Spells

/-- An atom begins with a token that is no operator, every phrase with one that closes nothing. -/
theorem head {p : Phrase} {w : List Token} {t : Expr} {n d : Nat} (h : Spells p w t n d) :
    ∃ tok v, w = tok :: v ∧ (∀ s, tok ≠ .closing s) ∧ (p = .atom → ∀ op, tok ≠ .operator op) := by
  induction h with
  | sumOfProduct _ ih | productOfPower _ ih | powerOfSigned _ ih | signedOfAtom _ ih =>
    obtain ⟨tok, v, rfl, hc, -⟩ := ih
    exact ⟨tok, v, rfl, hc, nofun⟩
  | sumSnoc _ _ _ ih _ | productSnoc _ _ _ ih _ | raise _ _ ih _ =>
    obtain ⟨tok, v, rfl, hc, -⟩ := ih
    exact ⟨tok, _, rfl, hc, nofun⟩
  | minus | plus => exact ⟨_, _, rfl, nofun, nofun⟩
  | number | constant | group | call => exact ⟨_, _, rfl, nofun, fun _ => nofun⟩

end Spells

/-! ## Readings of a phrase -/

/-- Every reading that stands before the phrase reads it, or the phrase overruns a limit there. The
reading is done when the loop of the phrase's kind, if it has one, holds the tree. -/
def Completes (p : Phrase) (w : List Token) (t : Expr) (n d : Nat) : Prop :=
  ∀ ⦃fuel : Nat⦄ ⦃c : Cursor⦄ ⦃after : List Token⦄ ⦃good : Expr → Cursor → Prop⦄
    ⦃bad : Halt → Prop⦄, c.Within → c.Fuelled p.calls (fuel + 1) → c.rest = w ++ after →
    p.operand.Ends after → (∀ h, c.Overruns n d h → bad h) →
    (c.Fits n d → ∀ rounds : List Token, after.length ≤ rounds.length →
      Descent.Meets (p.resume fuel rounds t) good bad (c.moved w n)) →
    Descent.Meets (p.reader (fuel + 1)) good bad c

namespace Descent

variable {fuel : Nat} {c : Cursor} {p q : Phrase} {w v after : List Token} {t l r : Expr}
  {n m d e : Nat} {bad : Halt → Prop}

/-- A loop that sees none of its operators is over. -/
theorem meets_chain_end {ops : List Operator} {operand : Descent Expr}
    {good : Expr → Cursor → Prop} (he : ∀ op ∈ ops, c.rest.head? ≠ some (.operator op))
    (rounds : List Token) (h : good t c) : Meets (chain ops operand rounds t) good bad c := by
  cases rounds with
  | nil => exact h
  | cons _ rounds =>
    rw [chain, meets_bind]
    refine meets_operator? (fun op hop after hc => ?_) fun _ => h
    exact absurd (by rw [hc, List.head?_cons]) (he op hop)

theorem meets_resume {good : Expr → Cursor → Prop} (he : p.Ends c.rest) (rounds : List Token)
    (h : good t c) : Meets (p.resume fuel rounds t) good bad c := by
  cases p with
  | sum => exact meets_chain_end (fun op hop => he op (by revert hop; cases op <;> decide)) rounds h
  | product =>
    exact meets_chain_end (fun op hop => he op (by revert hop; cases op <;> decide)) rounds h
  | power | signed | atom => exact h

end Descent

namespace Completes

open Descent

variable {fuel : Nat} {c : Cursor} {p q : Phrase} {w v after : List Token} {t l r : Expr}
  {n m d e : Nat} {good : Expr → Cursor → Prop} {bad : Halt → Prop}

/-- A phrase that nothing continues is read as a whole. -/
theorem closed (h : Completes p w t n d) (hc : c.Within) (hf : c.Fuelled p.calls fuel)
    (hr : c.rest = w ++ after) (he : p.Ends after) (hb : ∀ h, c.Overruns n d h → bad h)
    (hg : c.Fits n d → good t (c.moved w n)) : Meets (p.reader fuel) good bad c := by
  obtain ⟨fuel, rfl⟩ : ∃ f, fuel = f + 1 := by cases p <;> exact hf.exists_succ hc
  refine h hc hf hr he.operand hb fun hfit rounds _ => meets_resume ?_ rounds (hg hfit)
  rwa [Cursor.rest_moved hr]

/-! ## Chains -/

/-- One round of the loop that joins phrases of the kind `q` to one of the kind `p`. -/
theorem snoc {ops : List Operator} {op : Operator} (hop : op ∈ ops) (hq : ∀ o ∈ ops, o ∉ q.joiners)
    (hres : ∀ fuel rounds t, p.resume fuel rounds t = chain ops (q.reader fuel) rounds t)
    (hpq : p.operand = q) (hcalls : p.calls = q.calls + 1) (hl : Completes p w l n d)
    (hr : Completes q v r m e) :
    Completes p (w ++ .operator op :: v) (.binary op l r) (n + m + 1) (max d e) := by
  intro fuel c after good bad hc hf hrest he hb hg
  have hrest' : c.rest = w ++ .operator op :: (v ++ after) := by rw [hrest, List.append_assoc]; rfl
  have hat : (c.moved w n).rest = .operator op :: (v ++ after) := Cursor.rest_moved hrest' n
  refine hl hc hf hrest' ?_ (fun h ho => hb h (ho.mono (by omega) (by omega)))
    fun hfit rounds hrounds => ?_
  · rw [hpq]
    intro o ho heq
    rw [List.head?_cons, Option.some.injEq, Token.operator.injEq] at heq
    exact hq op hop (heq ▸ ho)
  cases rounds with
  | nil => exact absurd hrounds (by simp)
  | cons _ rounds =>
    rw [hres, chain, meets_bind]
    refine meets_operator? (fun o ho after' ha => ?_) fun hno =>
      absurd (by rw [hat]; rfl) (hno op hop)
    rw [hat, List.cons.injEq, Token.operator.injEq] at ha
    obtain ⟨rfl, -⟩ := ha
    rw [meets_bind]
    refine meets_countNode (fun hn => ?_) fun hn => hb _ (.large _ ?_)
    · rw [meets_bind]
      show Meets _ _ _ ((c.moved w n).moved [.operator op] 1)
      refine hr.closed ⟨hn, hc.depth⟩ ?_ (Cursor.rest_moved_cons hat 1) ?_
        (fun h ho => hb h (ho.mono ?_ ?_)) fun hfit' => ?_
      · rw [hcalls] at hf
        exact hf.step
      · rwa [← hpq]
      · rw [Cursor.nodes_moved, Cursor.nodes_moved]
        omega
      · rw [Cursor.depth_moved, Cursor.depth_moved]
        omega
      · rw [← hres, Cursor.moved_snoc]
        refine hg ⟨?_, ?_⟩ rounds ?_
        · have := hfit'.nodes
          rw [Cursor.nodes_moved, Cursor.nodes_moved] at this
          omega
        · have := hfit.depth
          have := hfit'.depth
          rw [Cursor.depth_moved, Cursor.depth_moved] at this
          omega
        · rw [List.length_cons, List.length_append, List.length_cons] at hrounds
          omega
    · rw [Cursor.nodes_moved, Cursor.nodes_moved] at hn
      omega

/-- A phrase of the kind that a loop repeats is a phrase of the loop's kind. -/
theorem ofOperand (hread : ∀ fuel, p.reader (fuel + 1) = q.reader fuel >>= fun first =>
      get >>= fun c => p.resume fuel c.rest first)
    (hpq : p.operand = q) (hcalls : p.calls = q.calls + 1) (h : Completes q w t n d) :
    Completes p w t n d := by
  intro fuel c after good bad hc hf hrest he hb hg
  rw [hcalls] at hf
  rw [hread, meets_bind]
  refine h.closed hc hf.step hrest (hpq ▸ he) hb fun hfit => ?_
  rw [meets_bind, meets_get, Cursor.rest_moved hrest]
  exact hg hfit after (Nat.le_refl _)

/-! ## Powers and signs -/

theorem powerOfSigned (h : Completes .signed w t n d) : Completes .power w t n d := by
  intro fuel c after good bad hc hf hrest he hb hg
  show Meets (power (fuel + 1)) good bad c
  rw [power, meets_bind]
  refine h.closed hc hf.step hrest (Phrase.ends_signed after) hb fun hfit => ?_
  rw [meets_bind]
  refine meets_operator? (fun op hop after' ha => ?_) fun _ => hg hfit after (Nat.le_refl _)
  exact absurd (by rw [← Cursor.rest_moved hrest n, ha, List.head?_cons]) (he op hop)

/-- The operand behind a power operator or a sign, which is read one level deeper. -/
theorem operandBelow {op : Operator} {k : Expr → Descent Expr} (h : Completes p v r m e)
    (hf : c.Fuelled 0 fuel) (hr : c.rest = .operator op :: (v ++ after)) (he : p.Ends after)
    (hb : ∀ h, c.Overruns (m + 1) (e + 1) h → bad h)
    (hg : c.Fits (m + 1) (e + 1) → Meets (k r) good bad (c.moved (.operator op :: v) (m + 1))) :
    Meets (countNode >>= fun _ => descend >>= fun _ => p.reader fuel >>= fun t =>
      ascend >>= fun _ => k t) good bad (c.moved [.operator op] 0) := by
  rw [meets_bind]
  refine meets_countNode (fun hn => ?_) fun hn => hb _ (.large _ ?_)
  · rw [meets_bind]
    refine meets_descend (fun hd => ?_) fun hd => hb _ (.deep _ ?_)
    · rw [meets_bind]
      show Meets _ _ _ (c.moved [.operator op] 1).deeper
      have hf' : (c.moved [.operator op] 1).deeper.Fuelled 7 fuel := Cursor.Fuelled.deeper hf
      refine h.closed ⟨hn, hd⟩ (hf'.mono (by cases p <;> decide)) (Cursor.rest_moved_cons hr 1) he
        (fun h ho => hb h (ho.mono ?_ ?_)) fun hfit => ?_
      · rw [Cursor.nodes_deeper, Cursor.nodes_moved]
        omega
      · rw [Cursor.depth_deeper, Cursor.depth_moved]
        omega
      · show Meets (ascend >>= _) _ _ ((c.moved [.operator op] 1).moved v m).deeper
        rw [meets_bind, meets_ascend, Cursor.moved_moved, Nat.add_comm 1 m]
        refine hg ⟨?_, ?_⟩
        · have := hfit.nodes
          rw [Cursor.nodes_deeper, Cursor.nodes_moved] at this
          omega
        · have := hfit.depth
          rw [Cursor.depth_deeper, Cursor.depth_moved] at this
          omega
    · rw [Cursor.depth_moved, Cursor.depth_moved] at hd
      omega
  · rw [Cursor.nodes_moved] at hn
    omega

theorem raise (hl : Completes .signed w l n d) (hr : Completes .power v r m e) :
    Completes .power (w ++ .operator .pow :: v) (.binary .pow l r) (n + m + 1) (max d (e + 1)) := by
  intro fuel c after good bad hc hf hrest he hb hg
  have hrest' : c.rest = w ++ .operator .pow :: (v ++ after) := by
    rw [hrest, List.append_assoc]; rfl
  have hat : (c.moved w n).rest = .operator .pow :: (v ++ after) := Cursor.rest_moved hrest' n
  show Meets (power (fuel + 1)) good bad c
  rw [power, meets_bind]
  refine hl.closed hc hf.step hrest' (Phrase.ends_signed _)
    (fun h ho => hb h (ho.mono (by omega) (by omega))) fun hfit => ?_
  rw [meets_bind]
  refine meets_operator? (fun o ho after' _ => ?_) fun hno =>
    absurd (by rw [hat]; rfl) (hno .pow (by decide))
  obtain rfl := List.mem_singleton.1 ho
  have hd := hfit.depth
  refine hr.operandBelow (c := c.moved w n) (hf.step.mono (Nat.zero_le _)) hat he
    (fun h ho => hb h (ho.mono ?_ ?_)) fun hfit' => ?_
  · rw [Cursor.nodes_moved]
    omega
  · rw [Cursor.depth_moved]
    omega
  · rw [meets_pure, Cursor.moved_moved, ← Nat.add_assoc]
    refine hg ⟨?_, ?_⟩ after (Nat.le_refl _)
    · have := hfit'.nodes
      rw [Cursor.nodes_moved] at this
      omega
    · have := hfit'.depth
      rw [Cursor.depth_moved] at this
      omega

theorem sign {op : Operator} (hop : op ∈ [Operator.sub, .add]) (h : Completes .signed w t n d) :
    Completes .signed (.operator op :: w) (.signed (if op = .sub then .minus else .plus) t)
      (n + 1) (d + 1) := by
  intro fuel c after good bad hc hf hrest he hb hg
  show Meets (signed (fuel + 1)) good bad c
  rw [signed, meets_bind]
  refine meets_operator? (fun o ho after' ha => ?_) fun hno =>
    absurd (by rw [hrest]; rfl) (hno op hop)
  rw [hrest, List.cons_append, List.cons.injEq, Token.operator.injEq] at ha
  obtain ⟨rfl, -⟩ := ha
  refine h.operandBelow (hf.step.mono (Nat.zero_le _)) hrest (Phrase.ends_signed after) hb
    fun hfit => ?_
  rw [meets_pure]
  exact hg hfit after (Nat.le_refl _)

/-! ## Atoms -/

theorem signedOfAtom {tok : Token} (htok : ∀ op, tok ≠ .operator op)
    (h : Completes .atom (tok :: w) t n d) : Completes .signed (tok :: w) t n d := by
  intro fuel c after good bad hc hf hrest he hb hg
  show Meets (signed (fuel + 1)) good bad c
  rw [signed, meets_bind]
  refine meets_operator? (fun op hop after' ha => ?_) fun _ => ?_
  · rw [hrest, List.cons_append, List.cons.injEq] at ha
    exact absurd ha.1 (htok op)
  · exact h.closed hc hf.step hrest (Phrase.ends_atom after) hb fun hfit =>
      hg hfit after (Nat.le_refl _)

theorem number (x : Float) : Completes .atom [.number x] (.literal x) 0 0 := by
  intro fuel c after good bad hc hf hrest he hb hg
  show Meets (atom (fuel + 1)) good bad c
  rw [atom, meets_bind, meets_peek, hrest]
  show Meets (advance >>= _) good bad c
  rw [meets_bind, meets_advance hrest]
  exact hg ⟨hc.nodes, hc.depth⟩ after (Nat.le_refl _)

theorem constant (k : Constant) : Completes .atom [.identifier k.name] (.constant k) 0 0 := by
  intro fuel c after good bad hc hf hrest he hb hg
  obtain ⟨fuel, rfl⟩ := hf.step.exists_succ hc
  show Meets (atom (fuel + 1 + 1)) good bad c
  rw [atom, meets_bind, meets_peek, hrest]
  show Meets (get >>= _) good bad c
  rw [meets_bind, meets_get, meets_bind, meets_advance hrest, named, Constant.ofName?_name]
  exact hg ⟨hc.nodes, hc.depth⟩ after (Nat.le_refl _)

/-- A sum in front of the bracket that closes it, read one level deeper. -/
theorem inside {s : Bracket} (h : Completes .sum w t n d) (hc : c.Within)
    (hd : c.depth + 1 ≤ maxDepth) (hf : c.Fuelled 0 fuel) (hr : c.rest = w ++ .closing s :: after)
    (hb : ∀ h, c.Overruns n (d + 1) h → bad h)
    (hg : c.Fits n (d + 1) → good t ((c.moved w n).inside s)) :
    Meets (sum fuel) good bad (c.inside s) := by
  refine h.closed ⟨hc.nodes, hd⟩ hf.deeper hr (fun _ _ => nofun)
    (fun h ho => hb h (ho.mono (Nat.le_refl _) ?_)) fun hfit => hg ⟨hfit.nodes, ?_⟩
  · rw [Cursor.depth_inside]
    omega
  · have := hfit.depth
    rw [Cursor.depth_inside] at this
    omega

/-- The bracket that closes a group or an argument list. -/
theorem leave {α : Type} {s : Bracket} {good : α → Cursor → Prop} {k : Unit → Descent α}
    (hr : c.rest = .closing s :: after) (hg : Meets (k ()) good bad (c.moved [.closing s] 0)) :
    Meets (leave >>= k) good bad (c.inside s) := by
  rw [meets_bind]
  exact meets_leave (fun _ _ => hg) fun hno => absurd (by rw [hr, List.head?_cons]) hno

theorem group (s : Bracket) {tok : Token} (htok : ∀ s, tok ≠ .closing s)
    (h : Completes .sum (tok :: w) t n d) :
    Completes .atom (.opening s :: (tok :: w ++ [.closing s])) t n (d + 1) := by
  intro fuel c after good bad hc hf hrest he hb hg
  obtain ⟨fuel, rfl⟩ := hf.step.exists_succ hc
  have hin : c.rest = .opening s :: (tok :: w ++ .closing s :: after) := by simp [hrest]
  have hat := Cursor.rest_moved_cons hin 0
  show Meets (atom (fuel + 1 + 1)) good bad c
  rw [atom, meets_bind, meets_peek, hin]
  show Meets (advance >>= _) good bad c
  rw [meets_bind, meets_advance hin, Descent.group, meets_bind]
  refine meets_enter (fun hd => ?_) fun hd => hb _ (.deep _ ?_)
  · rw [meets_bind, meets_peek, Cursor.rest_inside, hat]
    split
    · next s' heq =>
      exact absurd (Option.some.inj heq) (htok s')
    · rw [meets_bind]
      refine h.inside ⟨hc.nodes, hc.depth⟩ hd (hf.step.step.mono (by decide)) hat
        (fun h ho => hb h (ho.mono (Nat.le_refl _) (Nat.le_refl _))) fun hfit => ?_
      refine leave (Cursor.rest_moved hat n) ?_
      rw [Cursor.moved_moved, Cursor.moved_moved, Nat.zero_add]
      exact hg ⟨hfit.nodes, hfit.depth⟩ after (Nat.le_refl _)
  · rw [Cursor.depth_moved] at hd
    omega

theorem call (f : Function) (s : Bracket) {tok : Token} (htok : ∀ s, tok ≠ .closing s)
    (h : Completes .sum (tok :: w) t n d) :
    Completes .atom (.identifier f.name :: .opening s :: (tok :: w ++ [.closing s])) (.call f [t])
      (n + 1) (d + 1) := by
  intro fuel c after good bad hc hf hrest he hb hg
  obtain ⟨fuel, rfl⟩ := hf.step.exists_succ hc
  obtain ⟨fuel, rfl⟩ := hf.step.step.exists_succ hc
  have hin : c.rest = .identifier f.name :: .opening s :: (tok :: w ++ .closing s :: after) := by
    simp [hrest]
  have hopen := Cursor.rest_moved_cons hin 0
  have hat : ((c.moved [.identifier f.name] 0).moved [.opening s] 1).rest = _ :=
    Cursor.rest_moved_cons hopen 1
  show Meets (atom (fuel + 1 + 1 + 1)) good bad c
  rw [atom, meets_bind, meets_peek, hin]
  show Meets (get >>= _) good bad c
  rw [meets_bind, meets_get, meets_bind, meets_advance hin, named, Constant.ofName?_functionName,
    Function.ofName?_name]
  show Meets (peek? >>= _) _ _ _
  rw [meets_bind, meets_peek, hopen]
  show Meets (advance >>= _) _ _ _
  rw [meets_bind, meets_advance hopen, meets_bind]
  refine meets_countNode (fun hn => ?_) fun hn => hb _ (.large _ ?_)
  · show Meets _ _ _ ((c.moved [.identifier f.name] 0).moved [.opening s] 1)
    rw [meets_bind, arguments, meets_bind]
    refine meets_enter (fun hd => ?_) fun hd => hb _ (.deep _ ?_)
    · rw [meets_bind, meets_peek, Cursor.rest_inside, hat]
      split
      · next s' heq =>
        exact absurd (Option.some.inj heq) (htok s')
      · rw [meets_bind]
        refine h.inside ⟨hn, hc.depth⟩ hd hf.step.step.step hat
          (fun h ho => hb h (ho.mono ?_ (Nat.le_refl _))) fun hfit => ?_
        · rw [Cursor.nodes_moved, Cursor.nodes_moved]
          omega
        · rw [meets_bind, meets_get, Cursor.rest_inside, Cursor.rest_moved hat, meets_bind,
            moreArguments, meets_bind, meets_peek, Cursor.rest_inside, Cursor.rest_moved hat]
          show Meets (Descent.leave >>= _) _ _ _
          refine leave (Cursor.rest_moved hat n) ?_
          rw [Cursor.moved_moved, Cursor.moved_moved, Cursor.moved_moved, ← Nat.add_assoc,
            Nat.zero_add, Nat.add_comm 1]
          refine hg ⟨?_, hfit.depth⟩ after (Nat.le_refl _)
          have := hfit.nodes
          rw [Cursor.nodes_moved, Cursor.nodes_moved] at this
          omega
    · rw [Cursor.depth_moved, Cursor.depth_moved] at hd
      omega
  · rw [Cursor.nodes_moved, Cursor.nodes_moved] at hn
    omega

end Completes

/-- **Completeness.** Every phrase is read, or overruns a limit. -/
theorem Spells.completes {p : Phrase} {w : List Token} {t : Expr} {n d : Nat}
    (h : Spells p w t n d) : Completes p w t n d := by
  induction h with
  | sumOfProduct _ ih => exact ih.ofOperand (fun _ => rfl) rfl rfl
  | sumSnoc _ hop _ hl hr =>
    exact hl.snoc hop (by decide) (fun _ _ _ => rfl) rfl rfl hr
  | productOfPower _ ih => exact ih.ofOperand (fun _ => rfl) rfl rfl
  | productSnoc _ hop _ hl hr =>
    exact hl.snoc hop (by decide) (fun _ _ _ => rfl) rfl rfl hr
  | powerOfSigned _ ih => exact ih.powerOfSigned
  | raise _ _ hl hr => exact hl.raise hr
  | signedOfAtom h ih =>
    obtain ⟨tok, v, rfl, -, hop⟩ := h.head
    exact ih.signedOfAtom (hop rfl)
  | minus _ ih => exact ih.sign (show Operator.sub ∈ [Operator.sub, .add] by decide)
  | plus _ ih => exact ih.sign (show Operator.add ∈ [Operator.sub, .add] by decide)
  | number x => exact .number x
  | constant k => exact .constant k
  | group s h ih =>
    obtain ⟨tok, v, rfl, hc, -⟩ := h.head
    exact ih.group s hc
  | call f s h ih =>
    obtain ⟨tok, v, rfl, hc, -⟩ := h.head
    exact ih.call f s hc

end DeskCalc
