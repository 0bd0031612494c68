import DeskCalc.Expr.Descent

/-!
# The grammar of expressions

`Spells p w t n d` says that the tokens `w` are a phrase of the kind `p` with the tree `t`, that the
phrase holds `n` operators, signs and calls, and that it nests `d` deep: each group, argument list,
operand of a sign and exponent lies one level deeper than what it is part of.

The relation knows no limits and no order of reading. `DeskCalc.Proofs.Parsing` shows that the
parser accepts exactly what it derives, within the limits.
-/

namespace DeskCalc

/-- The kinds of phrase, from the loosest to the tightest. -/
inductive Phrase where
  | sum
  | product
  | power
  | signed
  | atom
  deriving DecidableEq, Repr

/-- The tokens are a phrase with a tree, so many operators, signs and calls, and so deep. -/
inductive Spells : Phrase → List Token → Expr → Nat → Nat → Prop
  | sumOfProduct {w : List Token} {t : Expr} {n d : Nat} :
      Spells .product w t n d → Spells .sum w t n d
  | sumSnoc {w v : List Token} {l r : Expr} {n m d e : Nat} {op : Operator} :
      Spells .sum w l n d → op ∈ [Operator.add, .sub] → Spells .product v r m e →
      Spells .sum (w ++ .operator op :: v) (.binary op l r) (n + m + 1) (max d e)
  | productOfPower {w : List Token} {t : Expr} {n d : Nat} :
      Spells .power w t n d → Spells .product w t n d
  | productSnoc {w v : List Token} {l r : Expr} {n m d e : Nat} {op : Operator} :
      Spells .product w l n d → op ∈ [Operator.mul, .div] → Spells .power v r m e →
      Spells .product (w ++ .operator op :: v) (.binary op l r) (n + m + 1) (max d e)
  | powerOfSigned {w : List Token} {t : Expr} {n d : Nat} :
      Spells .signed w t n d → Spells .power w t n d
  | raise {w v : List Token} {b x : Expr} {n m d e : Nat} :
      Spells .signed w b n d → Spells .power v x m e →
      Spells .power (w ++ .operator .pow :: v) (.binary .pow b x) (n + m + 1) (max d (e + 1))
  | signedOfAtom {w : List Token} {t : Expr} {n d : Nat} :
      Spells .atom w t n d → Spells .signed w t n d
  | minus {w : List Token} {t : Expr} {n d : Nat} :
      Spells .signed w t n d →
      Spells .signed (.operator .sub :: w) (.signed .minus t) (n + 1) (d + 1)
  | plus {w : List Token} {t : Expr} {n d : Nat} :
      Spells .signed w t n d →
      Spells .signed (.operator .add :: w) (.signed .plus t) (n + 1) (d + 1)
  | number (x : Float) : Spells .atom [.number x] (.literal x) 0 0
  | constant (c : Constant) : Spells .atom [.identifier c.name] (.constant c) 0 0
  | group {w : List Token} {t : Expr} {n d : Nat} (s : Bracket) :
      Spells .sum w t n d → Spells .atom (.opening s :: (w ++ [.closing s])) t n (d + 1)
  | call {w : List Token} {t : Expr} {n d : Nat} (f : Function) (s : Bracket) :
      Spells .sum w t n d →
      Spells .atom (.identifier f.name :: .opening s :: (w ++ [.closing s])) (.call f [t])
        (n + 1) (d + 1)

/-- The tokens are some sums with commas between them. -/
inductive SpellsAll : List Token → List Expr → Nat → Nat → Prop
  | single {w : List Token} {t : Expr} {n d : Nat} : Spells .sum w t n d → SpellsAll w [t] n d
  | snoc {w v : List Token} {ts : List Expr} {t : Expr} {n m d e : Nat} :
      SpellsAll w ts n d → Spells .sum v t m e →
      SpellsAll (w ++ .comma :: v) (ts ++ [t]) (n + m) (max d e)

theorem SpellsAll.ne_nil {w : List Token} {ts : List Expr} {n d : Nat} (h : SpellsAll w ts n d) :
    ts ≠ [] := by
  cases h <;> simp

theorem SpellsAll.eq_single {w : List Token} {ts : List Expr} {n d : Nat} (h : SpellsAll w ts n d)
    (hl : ts.length = 1) : ∃ t, ts = [t] ∧ Spells .sum w t n d := by
  cases h with
  | single h => exact ⟨_, rfl, h⟩
  | snoc h _ =>
    have := List.length_pos_iff.2 h.ne_nil
    rw [List.length_append, List.length_singleton] at hl
    omega

/-! ## Names -/

@[simp] theorem Constant.ofName?_name (c : Constant) : Constant.ofName? c.name = some c := by
  cases c <;> rfl

theorem Constant.name_of_ofName? {s : String} {c : Constant} (h : Constant.ofName? s = some c) :
    s = c.name := by
  have := List.find?_some h
  exact (beq_iff_eq.1 this).symm

@[simp] theorem Function.ofName?_name (f : Function) : Function.ofName? f.name = some f := by
  cases f <;> rfl

theorem Function.name_of_ofName? {s : String} {f : Function} (h : Function.ofName? s = some f) :
    s = f.name := by
  have := List.find?_some h
  exact (beq_iff_eq.1 this).symm

/-- No name is both a constant and a function. -/
@[simp] theorem Constant.ofName?_functionName (f : Function) : Constant.ofName? f.name = none := by
  cases f <;> rfl

end DeskCalc
