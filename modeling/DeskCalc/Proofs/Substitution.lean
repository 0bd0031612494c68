import DeskCalc.Proofs.Brackets

/-!
# Replacing an operand

Where an operand can begin, one operand can stand for another. `Solid x` lists what makes a piece of
a phrase come whole: its brackets are balanced, and no operator in it can be the one at which the
phrase is put together. `Spells.replace` then carries a phrase around `x` over to the same phrase
around `y`, if every phrase that is just `x` is one that is just `y`.

The proof is an induction on the phrase. Its last construction either has `x` in one of its parts,
where the induction hypothesis replaces it, or is a construction of `x` itself.
-/

namespace DeskCalc

/-! ## Where an operand can begin -/

/-- An operand must follow the token. -/
def Token.Awaits : Token → Prop
  | operator _ | opening _ | comma => True
  | number _ | identifier _ | closing _ => False

/-- No tokens, or tokens that an operand must follow. -/
def Open (w : List Token) : Prop := ∀ tok, w.getLast? = some tok → tok.Awaits

theorem open_nil : Open [] := nofun

theorem Open.append {u v : List Token} (hu : Open u) (hv : Open v) : Open (u ++ v) := by
  intro tok h
  rw [List.getLast?_append] at h
  cases hlast : v.getLast? with
  | none =>
    rw [hlast] at h
    exact hu tok h
  | some last =>
    rw [hlast] at h
    cases h
    exact hv tok hlast

theorem Open.tail {u v : List Token} (h : Open (u ++ v)) : Open v := fun tok hv =>
  h tok (by rw [List.getLast?_append, hv]; rfl)

theorem not_open_snoc {w : List Token} {tok : Token} (h : ¬ tok.Awaits) : ¬ Open (w ++ [tok]) :=
  fun hopen => h (hopen tok (by rw [List.getLast?_append]; rfl))

/-- No phrase ends where an operand must follow. -/
theorem Spells.not_open {p : Phrase} {w : List Token} {t : Expr} {n d : Nat}
    (h : Spells p w t n d) : ¬ Open w := by
  induction h with
  | sumOfProduct _ ih | productOfPower _ ih | powerOfSigned _ ih | signedOfAtom _ ih => exact ih
  | sumSnoc _ _ _ _ ih | productSnoc _ _ _ _ ih | raise _ _ _ ih =>
    exact fun hopen => ih (Open.tail (u := [_]) hopen.tail)
  | minus _ ih | plus _ ih => exact fun hopen => ih (hopen.tail (u := [_]))
  | number | constant => exact not_open_snoc (w := []) id
  | group s _ _ => exact not_open_snoc (w := .opening s :: _) id
  | call f s _ _ => exact not_open_snoc (w := .identifier f.name :: .opening s :: _) id

/-! ## Cutting a phrase -/

theorem eq_nil_or_snoc (w : List Token) : w = [] ∨ ∃ u tok, w = u ++ [tok] := by
  rcases List.eq_nil_or_concat w with h | ⟨u, tok, h⟩
  · exact .inl h
  · exact .inr ⟨u, tok, h.trans List.concat_eq_append⟩

theorem snoc_inj {u v : List Token} {a b : Token} (h : u ++ [a] = v ++ [b]) : u = v ∧ a = b :=
  have hsplit := List.append_inj' h rfl
  ⟨hsplit.1, (List.cons.inj hsplit.2).1⟩

/-- The kind of a phrase once an atom in it may be a signed operand. -/
def Phrase.lifted : Phrase → Phrase
  | atom => signed
  | p => p

/-- Where a token lies in a list of three pieces. -/
theorem cut_cases {u v before x after : List Token} {tok : Token}
    (h : u ++ tok :: v = before ++ x ++ after) :
    (∃ mid, before = u ++ tok :: mid ∧ v = mid ++ x ++ after) ∨
    (∃ l r, x = l ++ tok :: r ∧ u = before ++ l) ∨
    (∃ mid, after = mid ++ tok :: v ∧ u = before ++ x ++ mid) := by
  rcases List.append_eq_append_iff.1 h with ⟨mid, hfront, hback⟩ | ⟨mid, hu, hafter⟩
  · cases mid with
    | nil => exact .inr (.inr ⟨[], hback.symm, by rw [List.append_nil, hfront, List.append_nil]⟩)
    | cons _ mid =>
      obtain ⟨rfl, rfl⟩ := List.cons.inj hback
      rcases List.append_eq_append_iff.1 hfront with ⟨l, hu, hx⟩ | ⟨l, hbefore, hmid⟩
      · exact .inr (.inl ⟨l, mid, hx, hu⟩)
      · cases l with
        | nil =>
          refine .inr (.inl ⟨[], mid, hmid.symm, ?_⟩)
          rw [hbefore, List.append_nil, List.append_nil]
        | cons _ l =>
          obtain ⟨rfl, rfl⟩ := List.cons.inj hmid
          exact .inl ⟨l, hbefore, rfl⟩
  · exact .inr (.inr ⟨mid, hafter, hu⟩)

/-- A piece that stands whole in any phrase around it. -/
structure Solid (x : List Token) : Prop where
  balanced : Balanced x
  ne_nil : x ≠ []
  /-- No argument list can begin behind its first token. -/
  no_name : ∀ name v, x ≠ .identifier name :: v
  /-- What stands before an operator in it does not end a phrase. -/
  cut : ∀ u op v, x = u ++ .operator op :: v → Open u
  /-- If it begins with a sign, the operand of the sign is all of the rest. -/
  sign : ∀ op v after t n d, x = .operator op :: v → Spells .signed (v ++ after) t n d → after = []

namespace Spells

variable {p : Phrase} {w : List Token} {t : Expr} {n d : Nat}

theorem lift (h : Spells p w t n d) : Spells p.lifted w t n d := by
  cases p with
  | atom => exact .signedOfAtom h
  | sum | product | power | signed => exact h

/-- An atom is a phrase of every kind. -/
theorem ofAtom (h : Spells .atom w t n d) (p : Phrase) : Spells p w t n d := by
  have hpower : Spells .power w t n d := .powerOfSigned (.signedOfAtom h)
  cases p with
  | sum => exact .sumOfProduct (.productOfPower hpower)
  | product => exact .productOfPower hpower
  | power => exact hpower
  | signed => exact .signedOfAtom h
  | atom => exact h

/-- Every phrase is a sum. -/
theorem toSum (h : Spells p w t n d) : Spells .sum w t n d := by
  cases p with
  | sum => exact h
  | product => exact .sumOfProduct h
  | power => exact .sumOfProduct (.productOfPower h)
  | signed => exact .sumOfProduct (.productOfPower (.powerOfSigned h))
  | atom => exact h.ofAtom .sum

/-- A signed operand is a phrase of every kind once atoms may be signed. -/
theorem ofSigned (h : Spells .signed w t n d) (p : Phrase) : Spells p.lifted w t n d := by
  cases p with
  | sum => exact .sumOfProduct (.productOfPower (.powerOfSigned h))
  | product => exact .productOfPower (.powerOfSigned h)
  | power => exact .powerOfSigned h
  | signed | atom => exact h

end Spells

/-! ## The replacement -/

section Replace

variable {x y : List Token} {k : Nat}

/-- Wherever `x` stands in the tokens behind open ones, `y` can stand for it, at most `k` deeper. -/
def Replaces (x y : List Token) (k : Nat) (p : Phrase) (w : List Token) (t : Expr) (n d : Nat) :
    Prop :=
  ∀ ⦃before after⦄, w = before ++ x ++ after → Open before →
    ∃ d' ≤ d + k, Spells p.lifted (before ++ y ++ after) t n d'

namespace Replaces

variable {p l r : Phrase} {u v w : List Token} {t a b : Expr} {n m c d e j : Nat} {op : Operator}

/-- A phrase of one kind that is as well one of another kind. -/
theorem ofKind {q : Phrase} (h : Replaces x y k p w t n d)
    (hkind : ∀ {w' d'}, Spells p.lifted w' t n d' → Spells q.lifted w' t n d') :
    Replaces x y k q w t n d := by
  intro before after hw hopen
  obtain ⟨d', hd, h'⟩ := h hw hopen
  exact ⟨d', hd, hkind h'⟩

/-- Two phrases joined by an operator: one of them holds `x`. -/
theorem binary (hx : Solid x) (hl : Spells l u a n d) (ihl : Replaces x y k l u a n d)
    (hr : Spells r v b m e) (ihr : Replaces x y k r v b m e)
    (join : ∀ {u' v' d' e'}, Spells l.lifted u' a n d' → Spells r.lifted v' b m e' →
      Spells p.lifted (u' ++ .operator op :: v') t c (max d' (e' + j))) :
    Replaces x y k p (u ++ .operator op :: v) t c (max d (e + j)) := by
  intro before after hw hopen
  rcases cut_cases hw with ⟨mid, rfl, hv⟩ | ⟨left, right, hcut, hu⟩ | ⟨mid, rfl, hu⟩
  · obtain ⟨e', he, hr'⟩ := ihr hv (Open.tail (u := [_]) hopen.tail)
    refine ⟨_, ?_, by simpa using join hl.lift hr'⟩
    omega
  · exact absurd (hu ▸ hopen.append (hx.cut left op right hcut)) hl.not_open
  · obtain ⟨d', hd, hl'⟩ := ihl hu hopen
    refine ⟨_, ?_, by simpa using join hl' hr.lift⟩
    omega

/-- A sign before an operand that holds `x`, or `x` itself. -/
theorem sign (hx : Solid x) (h : Spells .signed (.operator op :: w) t c (d + 1))
    (hw : Spells .signed w a n d) (ih : Replaces x y k .signed w a n d)
    (base : ∀ d, Spells .signed x t c d → ∃ d' ≤ d + k, Spells .signed y t c d')
    (behind : ∀ {w' d'}, Spells .signed w' a n d' →
      Spells .signed (.operator op :: w') t c (d' + 1)) :
    Replaces x y k .signed (.operator op :: w) t c (d + 1) := by
  intro before after heq hopen
  cases before with
  | nil =>
    obtain ⟨tok, v, hv⟩ := List.exists_cons_of_ne_nil hx.ne_nil
    rw [List.nil_append, hv, List.cons_append] at heq
    obtain ⟨rfl, rfl⟩ := List.cons.inj heq
    obtain rfl := hx.sign op v after _ _ _ hv hw
    rw [List.append_nil, ← hv] at h
    rw [List.nil_append, List.append_nil]
    exact base _ h
  | cons tok before =>
    obtain ⟨rfl, hrest⟩ := List.cons.inj heq
    obtain ⟨d', hd, h'⟩ := ih hrest (hopen.tail (u := [_]))
    exact ⟨d' + 1, by omega, behind h'⟩

/-- A phrase that is all of `x`. -/
theorem whole (h : Spells p w t n d)
    (base : ∀ {p t n d}, Spells p x t n d → ∃ d' ≤ d + k, Spells p.lifted y t n d')
    {before after : List Token} (hw : w = before ++ x ++ after) (hbefore : before = [])
    (hafter : after = []) : ∃ d' ≤ d + k, Spells p.lifted (before ++ y ++ after) t n d' := by
  subst hbefore hafter
  rw [List.nil_append, List.append_nil] at hw ⊢
  subst hw
  exact base h

/-- A single token is all of `x`. -/
theorem single (hx : Solid x) {tok : Token} (h : Spells p [tok] t n d)
    (base : ∀ {p t n d}, Spells p x t n d → ∃ d' ≤ d + k, Spells p.lifted y t n d') :
    Replaces x y k p [tok] t n d := by
  intro before after hw _
  have hlength := congrArg List.length hw
  have hpos := List.length_pos_iff.2 hx.ne_nil
  rw [List.length_append, List.length_append, List.length_singleton] at hlength
  exact whole h base hw (List.length_eq_zero_iff.1 (by omega))
    (List.length_eq_zero_iff.1 (by omega))

/-- A sum in brackets that holds `x` with something beside it holds it inside of the brackets. -/
theorem bracketed (hx : Solid x) {s : Bracket} (hw : Spells .sum w a n d)
    (ih : Replaces x y k .sum w a n d) {before after : List Token}
    (heq : .opening s :: (w ++ [.closing s]) = before ++ x ++ after) (hopen : Open before)
    (hbeside : ¬ (before = [] ∧ after = [])) :
    ∃ before' after', before = .opening s :: before' ∧ after = after' ++ [.closing s] ∧
      ∃ d' ≤ d + k, Spells .sum (before' ++ y ++ after') a n d' := by
  have hbalanced := hw.balanced
  cases before with
  | nil =>
    -- The opening bracket would be the first token of `x`, and the closing one behind `x`.
    obtain ⟨tok, v, rfl⟩ := List.exists_cons_of_ne_nil hx.ne_nil
    obtain ⟨rfl, hrest⟩ := List.cons.inj heq
    rcases eq_nil_or_snoc after with rfl | ⟨after, last, rfl⟩
    · exact absurd ⟨rfl, rfl⟩ hbeside
    · have hsplit : w ++ [.closing s] = (v ++ after) ++ [last] := by
        rw [hrest, List.append_assoc]
        rfl
      obtain ⟨rfl, -⟩ := snoc_inj hsplit
      exact absurd hbalanced hx.balanced.cut_front
  | cons tok before =>
    have hrest : w ++ [.closing s] = before ++ x ++ after := (List.cons.inj heq).2
    obtain rfl : .opening s = tok := (List.cons.inj heq).1
    rcases eq_nil_or_snoc after with rfl | ⟨after, last, rfl⟩
    · -- The closing bracket would be the last token of `x`, and the opening one before `x`.
      obtain ⟨v, last, rfl⟩ := (eq_nil_or_snoc x).resolve_left hx.ne_nil
      rw [List.append_nil, ← List.append_assoc] at hrest
      obtain ⟨rfl, rfl⟩ := snoc_inj hrest
      exact absurd hbalanced hx.balanced.cut_back
    · rw [← List.append_assoc] at hrest
      obtain ⟨hw', rfl⟩ := snoc_inj hrest
      exact ⟨before, after, rfl, rfl, ih hw' (hopen.tail (u := [_]))⟩

end Replaces

/-- **Replacing an operand.** A phrase with `x` where an operand can begin is the same phrase with
`y` there, if `x` stands whole and whatever `x` is alone is also `y`. -/
theorem Spells.replace {p : Phrase} {w : List Token} {t : Expr} {n d : Nat} (hx : Solid x)
    (base : ∀ {p t n d}, Spells p x t n d → ∃ d' ≤ d + k, Spells p.lifted y t n d')
    (h : Spells p w t n d) : Replaces x y k p w t n d := by
  induction h with
  | sumOfProduct h ih => exact ih.ofKind .sumOfProduct
  | sumSnoc hl hop hr ihl ihr =>
    exact Replaces.binary (j := 0) hx hl ihl hr ihr fun hl' hr' => .sumSnoc hl' hop hr'
  | productOfPower h ih => exact ih.ofKind .productOfPower
  | productSnoc hl hop hr ihl ihr =>
    exact Replaces.binary (j := 0) hx hl ihl hr ihr fun hl' hr' => .productSnoc hl' hop hr'
  | powerOfSigned h ih => exact ih.ofKind .powerOfSigned
  | raise hl hr ihl ihr =>
    exact Replaces.binary (j := 1) hx hl ihl hr ihr fun hl' hr' => .raise hl' hr'
  | signedOfAtom h ih => exact ih
  | minus h ih => exact Replaces.sign hx h.minus h ih (fun d => base) .minus
  | plus h ih => exact Replaces.sign hx h.plus h ih (fun d => base) .plus
  | number v => exact Replaces.single hx (.number v) base
  | constant c => exact Replaces.single hx (.constant c) base
  | group s h ih =>
    intro before after hw hopen
    by_cases hbeside : before = [] ∧ after = []
    · exact Replaces.whole (h.group s) base hw hbeside.1 hbeside.2
    · obtain ⟨before, after, rfl, rfl, d', hd, h'⟩ := Replaces.bracketed hx h ih hw hopen hbeside
      refine ⟨d' + 1, by omega, ?_⟩
      simpa using (h'.group s).lift
  | call f s h ih =>
    intro before after hw hopen
    cases before with
    | nil =>
      obtain ⟨tok, v, hv⟩ := List.exists_cons_of_ne_nil hx.ne_nil
      rw [List.nil_append, hv] at hw
      exact absurd (by rw [hv, ← (List.cons.inj hw).1]) (hx.no_name f.name v)
    | cons tok before =>
      have hrest := (List.cons.inj hw).2
      obtain rfl : .identifier f.name = tok := (List.cons.inj hw).1
      have hbeside : ¬ (before = [] ∧ after = []) := by
        rintro ⟨rfl, -⟩
        exact hopen _ rfl
      obtain ⟨before, after, rfl, rfl, d', hd, h'⟩ :=
        Replaces.bracketed hx h ih hrest (hopen.tail (u := [_])) hbeside
      refine ⟨d' + 1, by omega, ?_⟩
      simpa using (h'.call f s).lift

end Replace

/-! ## Brackets around an operand -/

namespace Solid

variable {x : List Token} {p : Phrase} {t : Expr} {n d : Nat}

/-- A piece that stands whole is a signed operand, if it is any phrase. -/
theorem signed (hx : Solid x) (h : Spells p x t n d) : Spells .signed x t n d := by
  induction h with
  | sumOfProduct _ ih | productOfPower _ ih | powerOfSigned _ ih => exact ih hx
  | sumSnoc hl _ _ _ _ | productSnoc hl _ _ _ _ | raise hl _ _ _ =>
    exact absurd (hx.cut _ _ _ rfl) hl.not_open
  | signedOfAtom h _ => exact .signedOfAtom h
  | minus h _ => exact h.minus
  | plus h _ => exact h.plus
  | number | constant => exact .signedOfAtom (by constructor)
  | group s h _ => exact .signedOfAtom (h.group s)
  | call f s h _ => exact .signedOfAtom (h.call f s)

/-- And it is what is read between brackets around it. -/
theorem of_bracketed {s : Bracket} (hx : Solid x) (hb : Solid (.opening s :: (x ++ [.closing s])))
    (h : Spells p (.opening s :: (x ++ [.closing s])) t n d) :
    ∃ d' ≤ d, Spells .signed x t n d' := by
  generalize hw : .opening s :: (x ++ [.closing s]) = w at h
  induction h with
  | sumOfProduct _ ih | productOfPower _ ih | powerOfSigned _ ih | signedOfAtom _ ih => exact ih hw
  | sumSnoc hl _ _ _ _ | productSnoc hl _ _ _ _ | raise hl _ _ _ =>
    exact absurd (hb.cut _ _ _ hw) hl.not_open
  | minus _ _ | plus _ _ | number _ | constant _ | call _ _ _ _ => cases hw
  | @group w t n d s' h _ =>
    obtain ⟨hxw, -⟩ := snoc_inj (List.cons.inj hw).2
    subst hxw
    exact ⟨d, Nat.le_succ d, hx.signed h⟩

end Solid

end DeskCalc
