import DeskCalc.Proofs.Grammar
import DeskCalc.Proofs.Reading

/-!
# What the parser accepts

Each level of the parser reads a phrase of its kind: the cursor it comes back with is the one
behind the phrase, and the phrase is within the limits at the place where it stands. With enough
fuel for the levels that are left, the only other ending is a fault in the tokens.

The proof is an induction on the fuel over all levels at once (`sound`). The loops carry the phrase
that is read so far as their invariant.
-/

namespace DeskCalc

/-! ## Limits and fuel -/

/-- The counts of a cursor are within the limits. -/
structure Cursor.Within (c : Cursor) : Prop where
  nodes : c.nodes ≤ maxNodes
  depth : c.depth ≤ maxDepth

/-- So many operators, signs and calls, so deep, are within the limits here. -/
structure Cursor.Fits (c : Cursor) (n d : Nat) : Prop where
  nodes : c.nodes + n ≤ maxNodes
  depth : c.depth + d ≤ maxDepth

/-- What fits one level deeper fits here with one level more. -/
theorem Cursor.Fits.above {c : Cursor} {n d : Nat} (h : c.deeper.Fits n d) : c.Fits n (d + 1) where
  nodes := h.nodes
  depth := by
    have := h.depth
    rw [Cursor.depth_deeper] at this
    omega

/-- There is fuel for the levels left below this one, and for `k` calls on this one. -/
def Cursor.Fuelled (c : Cursor) (k fuel : Nat) : Prop := 7 * maxDepth + k ≤ fuel + 7 * c.depth

theorem Cursor.Fuelled.step {c : Cursor} {k fuel : Nat} (h : c.Fuelled (k + 1) (fuel + 1)) :
    c.Fuelled k fuel := by
  unfold Cursor.Fuelled at h ⊢
  omega

theorem Cursor.not_fuelled_zero {c : Cursor} {k : Nat} (hc : c.Within) : ¬ c.Fuelled (k + 1) 0 := by
  have := hc.depth
  unfold Cursor.Fuelled
  omega

theorem Cursor.Fuelled.exists_succ {c : Cursor} {k fuel : Nat} (h : c.Fuelled (k + 1) fuel)
    (hc : c.Within) : ∃ f, fuel = f + 1 := by
  cases fuel with
  | zero => exact (not_fuelled_zero hc h).elim
  | succ f => exact ⟨f, rfl⟩

theorem Cursor.Fuelled.mono {c : Cursor} {j k fuel : Nat} (h : c.Fuelled k fuel) (hj : j ≤ k) :
    c.Fuelled j fuel := by
  unfold Cursor.Fuelled at h ⊢
  omega

/-- A level deeper, seven calls are covered by the level itself. -/
theorem Cursor.Fuelled.deeper {c : Cursor} {k fuel : Nat} (h : c.Fuelled k fuel) :
    c.deeper.Fuelled (k + 7) fuel := by
  unfold Cursor.Fuelled at h ⊢
  rw [Cursor.depth_deeper]
  omega

/-! ## What stands between two cursors -/

/-- The tokens between two cursors are as `P` says of them and their counts, and they are within
the limits `k` levels deeper than the cursors. -/
def Spans (P : List Token → Nat → Nat → Prop) (k : Nat) (c c' : Cursor) : Prop :=
  ∃ w n d, P w n d ∧ c.rest = w ++ c'.rest ∧ c' = c.moved w n ∧ c.Fits n (d + k)

namespace Spans

variable {P Q R : List Token → Nat → Nat → Prop} {k : Nat} {c c' c'' : Cursor}

theorem within (h : Spans P k c c') : c'.Within := by
  obtain ⟨w, n, d, -, -, rfl, hf⟩ := h
  exact ⟨hf.nodes, Nat.le_trans (Nat.le_add_right _ _) hf.depth⟩

/-- The fuel at the first cursor does behind the second too. -/
theorem fuelled {j fuel : Nat} (h : Spans P k c c') (hf : c.Fuelled j fuel) (v : List Token)
    (m : Nat) : (c'.moved v m).Fuelled j fuel := by
  obtain ⟨w, n, d, -, -, rfl, -⟩ := h
  exact hf

theorem mono (h : Spans P k c c') (hQ : ∀ {w n d}, P w n d → Q w n d) : Spans Q k c c' := by
  obtain ⟨w, n, d, hw, hc⟩ := h
  exact ⟨w, n, d, hQ hw, hc⟩

/-- What was read one level deeper, seen from above. -/
theorem of_deeper (h : Spans P 0 c.deeper c') : ∃ c'', c' = c''.deeper ∧ Spans P 1 c c'' := by
  obtain ⟨w, n, d, hw, hr, rfl, hf⟩ := h
  exact ⟨c.moved w n, rfl, w, n, d, hw, hr, rfl, hf.above⟩

/-- What was read inside a bracket, seen from outside. -/
theorem of_inside {s : Bracket} (h : Spans P 0 (c.inside s) c') :
    ∃ c'', c' = c''.inside s ∧ Spans P 1 c c'' := by
  obtain ⟨w, n, d, hw, hr, rfl, hf⟩ := h
  have hd : c.deeper.Fits n d := ⟨hf.nodes, hf.depth⟩
  exact ⟨c.moved w n, rfl, w, n, d, hw, hr, rfl, hd.above⟩

/-- A token with its counts, and what stands behind it, perhaps some levels deeper. -/
theorem cons {tok : Token} {after : List Token} {i : Nat} (htok : c.rest = tok :: after)
    (h : Spans P k (c.moved [tok] i) c')
    (hQ : ∀ {w n d}, P w n d → Q (tok :: w) (n + i) (d + k)) : Spans Q 0 c c' := by
  obtain ⟨w, n, d, hw, hr, rfl, hf⟩ := h
  rw [Cursor.rest_moved_cons htok] at hr
  refine ⟨_, _, _, hQ hw, ?_, ?_, ?_, hf.depth⟩
  · rw [htok, hr]
    rfl
  · rw [Cursor.moved_moved, Nat.add_comm i n]
    rfl
  · have := hf.nodes
    rw [Cursor.nodes_moved] at this
    omega

/-- What stands up to a cursor, and what stands behind it. -/
theorem append (h : Spans P 0 c c') (h' : Spans Q 0 c' c'')
    (hR : ∀ {w v n m d e}, P w n d → Q v m e → R (w ++ v) (n + m) (max d e)) :
    Spans R 0 c c'' := by
  obtain ⟨w, n, d, hw, hwr, rfl, hwf⟩ := h
  obtain ⟨v, m, e, hv, hvr, rfl, hvf⟩ := h'
  refine ⟨_, _, _, hR hw hv, ?_, ?_, ?_, ?_⟩
  · rw [hwr, hvr, List.append_assoc]
  · rw [Cursor.moved_moved]
  · rw [← Nat.add_assoc]
    exact hvf.nodes
  · have hd := hwf.depth
    have he := hvf.depth
    rw [Cursor.depth_moved] at he
    omega

/-- What stands up to a token, and what stands behind it. -/
theorem snoc {tok : Token} {after : List Token} {i : Nat} (h : Spans P 0 c c')
    (htok : c'.rest = tok :: after) (h' : Spans Q k (c'.moved [tok] i) c'')
    (hR : ∀ {w v n m d e}, P w n d → Q v m e →
      R (w ++ tok :: v) (n + (m + i)) (max d (e + k))) : Spans R 0 c c'' := by
  have ht : Spans (fun w n d => ∃ v m e, w = tok :: v ∧ n = m + i ∧ d = e + k ∧ Q v m e) 0 c' c'' :=
    cons htok h' fun hv => ⟨_, _, _, rfl, rfl, rfl, hv⟩
  refine h.append ht ?_
  rintro w _ n _ d _ hw ⟨v, m, e, rfl, rfl, rfl, hv⟩
  exact hR hw hv

/-- A closing bracket behind what stands one level deeper. -/
theorem close {s : Bracket} {after : List Token} (h : Spans P 1 c c')
    (hs : c'.rest = .closing s :: after)
    (hR : ∀ {w n d}, P w n d → R (w ++ [.closing s]) n (d + 1)) :
    Spans R 0 c (c'.moved [.closing s] 0) := by
  obtain ⟨w, n, d, hw, hr, rfl, hf⟩ := h
  refine ⟨_, _, _, hR hw, ?_, ?_, hf⟩
  · rw [hr, Cursor.rest_moved_cons hs, hs, List.append_assoc]
    rfl
  · rw [Cursor.moved_moved]
    rfl

end Spans

/-! ## Readings that find what they look for -/

namespace Descent

/-- From every cursor within the limits and with enough fuel, a reading comes back with a result
and the tokens that `P` allows for it, or it finds a fault in the tokens. -/
def Finds {α : Type} (P : α → List Token → Nat → Nat → Prop) (k fuel : Nat) (m : Descent α) :
    Prop :=
  ∀ c : Cursor, c.Within → c.Fuelled k fuel →
    Meets m (fun a c' => Spans (P a) 0 c c') (· ≠ .stuck) c

/-- The tokens are a phrase of a kind with a tree. -/
abbrev phrase (p : Phrase) (t : Expr) (w : List Token) (n d : Nat) : Prop := Spells p w t n d

/-- The tokens make an atom with a tree when a token stands before them. -/
abbrev atomBehind (tok : Token) (t : Expr) (w : List Token) (n d : Nat) : Prop :=
  Spells .atom (tok :: w) t n d

/-- The tokens are arguments, or none, and the bracket that closes them. -/
def closedArguments (s : Bracket) (ts : List Expr) (w : List Token) (n d : Nat) : Prop :=
  ∃ v e, w = v ++ [.closing s] ∧ d = e + 1 ∧ (v = [] ∧ ts = [] ∧ n = 0 ∨ SpellsAll v ts n e)

variable {fuel : Nat} {c : Cursor}

/-- The loop of a chain keeps that all before it is one phrase. -/
theorem chain_finds {ops : List Operator} {p q : Phrase} {k : Nat} {operand : Descent Expr}
    (hpq : ∀ {w v l r n m d e op}, op ∈ ops → Spells p w l n d → Spells q v r m e →
      Spells p (w ++ .operator op :: v) (.binary op l r) (n + m + 1) (max d e))
    (hq : Finds (phrase q) k fuel operand) {c₀ : Cursor} (hfuel : c₀.Fuelled k fuel)
    (rounds : List Token) {left : Expr} {c : Cursor} (h : Spans (phrase p left) 0 c₀ c) :
    Meets (chain ops operand rounds left) (fun t => Spans (phrase p t) 0 c₀) (· ≠ .stuck) c := by
  induction rounds generalizing left c with
  | nil => exact h
  | cons _ rounds ih =>
    rw [chain, meets_bind]
    refine meets_operator? (fun op hop after hc => ?_) fun _ => h
    rw [meets_bind]
    refine meets_countNode (fun hn => ?_) fun _ => nofun
    rw [meets_bind]
    refine (hq (c.moved [.operator op] 1) ⟨hn, h.within.depth⟩ (h.fuelled hfuel _ _)).mono
      (fun right c' hr => ?_) fun _ => id
    exact ih (h.snoc hc hr (hpq hop))

theorem moreArguments_finds {argument : Descent Expr} {k : Nat}
    (hq : Finds (phrase .sum) k fuel argument) {c₀ : Cursor} (hfuel : c₀.Fuelled k fuel)
    (rounds : List Token) {found : List Expr} {c : Cursor}
    (h : Spans (fun w n d => SpellsAll w found.reverse n d) 0 c₀ c) :
    Meets (moreArguments argument rounds found)
      (fun ts => Spans (fun w n d => SpellsAll w ts n d) 0 c₀) (· ≠ .stuck) c := by
  induction rounds generalizing found c with
  | nil => exact h
  | cons _ rounds ih =>
    rw [moreArguments, meets_bind, meets_peek]
    split
    · next hc =>
      obtain ⟨after, hc⟩ := List.head?_eq_some_iff.1 hc
      rw [meets_bind, meets_advance hc, meets_bind]
      have hw : (c.moved [.comma] 0).Within := ⟨h.within.nodes, h.within.depth⟩
      refine (hq (c.moved [.comma] 0) hw (h.fuelled hfuel _ _)).mono (fun next c' hr => ih ?_)
        fun _ => id
      rw [List.reverse_cons]
      exact h.snoc hc hr SpellsAll.snoc
    · exact h

/-- All levels find their phrases with some fuel. -/
structure Sound (fuel : Nat) : Prop where
  sum : Finds (phrase .sum) 7 fuel (sum fuel)
  product : Finds (phrase .product) 6 fuel (product fuel)
  power : Finds (phrase .power) 5 fuel (power fuel)
  signed : Finds (phrase .signed) 4 fuel (signed fuel)
  atom : Finds (phrase .atom) 3 fuel (atom fuel)
  named : ∀ start name, Finds (atomBehind (.identifier name)) 2 fuel (named fuel start name)
  group : ∀ s, Finds (atomBehind (.opening s)) 1 fuel (group fuel s)
  arguments : ∀ s, Finds (closedArguments s) 1 fuel (arguments fuel s)

/-! ## One level, given the levels below -/

/-- A level that reads a chain finds its phrases when the level below does. -/
theorem chain_level_finds {ops : List Operator} {p q : Phrase} {k : Nat} {operand : Descent Expr}
    (hq : Finds (phrase q) k fuel operand)
    (hone : ∀ {w t n d}, Spells q w t n d → Spells p w t n d)
    (hpq : ∀ {w v l r n m d e op}, op ∈ ops → Spells p w l n d → Spells q v r m e →
      Spells p (w ++ .operator op :: v) (.binary op l r) (n + m + 1) (max d e)) :
    Finds (phrase p) (k + 1) (fuel + 1)
      (operand >>= fun first => get >>= fun c => chain ops operand c.rest first) := by
  intro c hc hf
  rw [meets_bind]
  refine (hq c hc hf.step).mono (fun first c' h₁ => ?_) fun _ => id
  rw [meets_bind, meets_get]
  exact chain_finds hpq hq hf.step _ (h₁.mono hone)

theorem power_finds (h : Sound fuel) : Finds (phrase .power) 5 (fuel + 1) (power (fuel + 1)) := by
  intro c hc hf
  rw [power, meets_bind]
  refine (h.signed c hc hf.step).mono (fun base c' hb => ?_) fun _ => id
  rw [meets_bind]
  refine meets_operator? (fun op hop after hr => ?_) fun _ => hb.mono .powerOfSigned
  obtain rfl := List.mem_singleton.1 hop
  rw [meets_bind]
  refine meets_countNode (fun hn => ?_) fun _ => nofun
  rw [meets_bind]
  refine meets_descend (fun hd => ?_) fun _ => nofun
  rw [meets_bind]
  have hf' : (c'.moved [.operator .pow] 1).Fuelled 4 fuel := hb.fuelled hf.step _ _
  refine (h.power (c'.moved [.operator .pow] 1).deeper ⟨hn, hd⟩ (hf'.deeper.mono (by decide))).mono
    (fun x c'' hx => ?_) fun _ => id
  obtain ⟨c'', rfl, hx'⟩ := hx.of_deeper
  rw [meets_bind, meets_ascend, meets_pure]
  exact hb.snoc hr hx' .raise

theorem signed_finds (h : Sound fuel) :
    Finds (phrase .signed) 4 (fuel + 1) (signed (fuel + 1)) := by
  intro c hc hf
  rw [signed, meets_bind]
  refine meets_operator? (fun op hop after hr => ?_) fun _ => ?_
  · rw [meets_bind]
    refine meets_countNode (fun hn => ?_) fun _ => nofun
    rw [meets_bind]
    refine meets_descend (fun hd => ?_) fun _ => nofun
    rw [meets_bind]
    have hf' : (c.moved [.operator op] 1).Fuelled 3 fuel := hf.step
    refine (h.signed (c.moved [.operator op] 1).deeper ⟨hn, hd⟩ (hf'.deeper.mono (by decide))).mono
      (fun t c' ht => ?_) fun _ => id
    obtain ⟨c', rfl, ht'⟩ := ht.of_deeper
    rw [meets_bind, meets_ascend, meets_pure]
    refine ht'.cons hr fun hw => ?_
    simp only [List.mem_cons, List.not_mem_nil, or_false] at hop
    rcases hop with rfl | rfl
    · exact .minus hw
    · exact .plus hw
  · exact (h.atom c hc hf.step).mono (fun t c' ht => ht.mono .signedOfAtom) fun _ => id

theorem atom_finds (h : Sound fuel) : Finds (phrase .atom) 3 (fuel + 1) (atom (fuel + 1)) := by
  intro c hc hf
  rw [atom, meets_bind, meets_peek]
  split
  · next x hr =>
    obtain ⟨after, hr⟩ := List.head?_eq_some_iff.1 hr
    rw [meets_bind, meets_advance hr, meets_pure]
    have hrest : c.rest = [.number x] ++ (c.moved [.number x] 0).rest := by
      rw [hr, Cursor.rest_moved_cons hr]
      rfl
    exact ⟨[.number x], 0, 0, .number x, hrest, rfl, hc.nodes, hc.depth⟩
  · next name hr =>
    obtain ⟨after, hr⟩ := List.head?_eq_some_iff.1 hr
    rw [meets_bind, meets_get, meets_bind, meets_advance hr]
    refine (h.named c.position name (c.moved [.identifier name] 0) ⟨hc.nodes, hc.depth⟩
      hf.step).mono (fun t c' ht => ?_) fun _ => id
    exact ht.cons hr fun ht => ht
  · next s hr =>
    obtain ⟨after, hr⟩ := List.head?_eq_some_iff.1 hr
    rw [meets_bind, meets_advance hr]
    refine (h.group s (c.moved [.opening s] 0) ⟨hc.nodes, hc.depth⟩ (hf.step.mono (by decide))).mono
      (fun t c' ht => ?_) fun _ => id
    exact ht.cons hr fun ht => ht
  · exact meets_failUnexpected.2 nofun

theorem named_finds (h : Sound fuel) (start : Nat) (name : String) :
    Finds (atomBehind (.identifier name)) 2 (fuel + 1) (named (fuel + 1) start name) := by
  intro c hc hf
  rw [named]
  split
  · next k hk =>
    obtain rfl := Constant.name_of_ofName? hk
    exact ⟨[], 0, 0, .constant k, rfl, rfl, hc.nodes, hc.depth⟩
  · split
    · exact nofun
    · next f hname =>
      obtain rfl := Function.name_of_ofName? hname
      rw [meets_bind, meets_peek]
      split
      · next s hr =>
        obtain ⟨after, hr⟩ := List.head?_eq_some_iff.1 hr
        rw [meets_bind, meets_advance hr, meets_bind]
        refine meets_countNode (fun hn => ?_) fun _ => nofun
        rw [meets_bind]
        refine (h.arguments s (c.moved [.opening s] 1) ⟨hn, hc.depth⟩ hf.step).mono
          (fun args c' ha => ?_) fun _ => id
        split
        · next hl =>
          refine ha.cons hr fun ha => ?_
          obtain ⟨v, e, rfl, rfl, ⟨-, rfl, -⟩ | ha⟩ := ha
          · simp [Function.arity] at hl
          · obtain ⟨t, rfl, ht⟩ := ha.eq_single hl
            exact .call f s ht
        · exact nofun
      · exact nofun

theorem group_finds (h : Sound fuel) (s : Bracket) :
    Finds (atomBehind (.opening s)) 1 (fuel + 1) (group (fuel + 1) s) := by
  intro c hc hf
  rw [group, meets_bind]
  refine meets_enter (fun hd => ?_) fun _ => nofun
  rw [meets_bind, meets_peek]
  split
  · rw [meets_bind, meets_get, meets_bind]
    exact meets_close (fun _ _ => nofun) fun _ => nofun
  · rw [meets_bind]
    refine (h.sum (c.inside s) ⟨hc.nodes, hd⟩ hf.step.deeper).mono (fun t c' ht => ?_) fun _ => id
    obtain ⟨c', rfl, ht'⟩ := ht.of_inside
    rw [meets_bind]
    refine meets_leave (fun after hr => ?_) fun _ => nofun
    rw [meets_pure]
    exact ht'.close hr fun ht => .group s ht

theorem arguments_finds (h : Sound fuel) (s : Bracket) :
    Finds (closedArguments s) 1 (fuel + 1) (arguments (fuel + 1) s) := by
  intro c hc hf
  rw [arguments, meets_bind]
  refine meets_enter (fun hd => ?_) fun _ => nofun
  rw [meets_bind, meets_peek]
  have hf' : (c.inside s).Fuelled 7 fuel := hf.step.deeper
  split
  · rw [meets_bind]
    refine meets_leave (fun after hr => ?_) fun _ => nofun
    rw [meets_pure]
    have none : Spans (fun w n d => w = [] ∧ n = 0) 1 c c :=
      ⟨[], 0, 0, ⟨rfl, rfl⟩, rfl, rfl, hc.nodes, hd⟩
    exact none.close hr fun ⟨hw, hn⟩ => ⟨[], _, by rw [hw], rfl, .inl ⟨rfl, rfl, hn⟩⟩
  · rw [meets_bind]
    refine (h.sum (c.inside s) ⟨hc.nodes, hd⟩ hf').mono (fun t c' ht => ?_) fun _ => id
    rw [meets_bind, meets_get, meets_bind]
    have first : Spans (fun w n d => SpellsAll w [t].reverse n d) 0 (c.inside s) c' :=
      ht.mono fun hw => .single hw
    refine (moreArguments_finds h.sum hf' _ first).mono (fun ts c'' hts => ?_) fun _ => id
    obtain ⟨c'', rfl, hts'⟩ := hts.of_inside
    rw [meets_bind]
    refine meets_leave (fun after hr => ?_) fun _ => nofun
    rw [meets_pure]
    exact hts'.close hr fun hw => ⟨_, _, rfl, rfl, .inr hw⟩

/-- **Soundness.** With any fuel, every level finds its phrases. -/
theorem sound (fuel : Nat) : Sound fuel := by
  induction fuel with
  | zero =>
    exact {
      sum := fun c hc hf => (Cursor.not_fuelled_zero hc hf).elim
      product := fun c hc hf => (Cursor.not_fuelled_zero hc hf).elim
      power := fun c hc hf => (Cursor.not_fuelled_zero hc hf).elim
      signed := fun c hc hf => (Cursor.not_fuelled_zero hc hf).elim
      atom := fun c hc hf => (Cursor.not_fuelled_zero hc hf).elim
      named := fun _ _ c hc hf => (Cursor.not_fuelled_zero hc hf).elim
      group := fun _ c hc hf => (Cursor.not_fuelled_zero hc hf).elim
      arguments := fun _ c hc hf => (Cursor.not_fuelled_zero hc hf).elim }
  | succ fuel ih =>
    exact {
      sum := chain_level_finds ih.product .sumOfProduct fun hop hl hr => .sumSnoc hl hop hr
      product := chain_level_finds ih.power .productOfPower fun hop hl hr => .productSnoc hl hop hr
      power := power_finds ih
      signed := signed_finds ih
      atom := atom_finds ih
      named := named_finds ih
      group := group_finds ih
      arguments := arguments_finds ih }

end Descent

end DeskCalc
