import DeskCalc.Proofs.Parsing
import DeskCalc.Proofs.Substitution

/-!
# Brackets of other styles

**Theorem (`parse_eq_ok_iff_nested`).** The parser gives a tree exactly if the brackets of the
tokens are `Nested`, each closed in the style that opened it, and it gives that tree with all of
them round. So brackets that belong together can take any other style, and the tree stays what it
is.

`Nested` and `Restyled` follow the pairs of brackets and know neither the grammar nor a stack; a
stack checks the first (`nested_iff`). Every phrase is nested (`Spells.nested`), and restyled it is
the same phrase (`Spells.restyled`). For this the restyled tokens are cut where the phrase is put
together: a piece that is `Balanced` is restyled by itself (`Restyled.cut`), and a bracket around
one together with it (`Restyled.of_bracketed`).
-/

namespace DeskCalc

/-- The token is no bracket. -/
def Token.Plain : Token → Prop
  | opening _ | closing _ => False
  | number _ | operator _ | identifier _ | comma => True

/-- The token, with a round bracket for any bracket. -/
def Token.rounded : Token → Token
  | opening _ => opening .round
  | closing _ => closing .round
  | tok => tok

/-- Every bracket of the tokens is opened and closed in one style, and the pairs do not cross. -/
inductive Nested : List Token → Prop
  | nil : Nested []
  | plain {tok : Token} {w : List Token} : tok.Plain → Nested w → Nested (tok :: w)
  | pair {u v : List Token} (s : Bracket) : Nested u → Nested v →
      Nested (.opening s :: (u ++ .closing s :: v))

/-- The second tokens are the first with some pairs of brackets in other styles. -/
inductive Restyled : List Token → List Token → Prop
  | nil : Restyled [] []
  | plain {tok : Token} {w w' : List Token} : tok.Plain → Restyled w w' →
      Restyled (tok :: w) (tok :: w')
  | pair {u u' v v' : List Token} (s s' : Bracket) : Restyled u u' → Restyled v v' →
      Restyled (.opening s :: (u ++ .closing s :: v)) (.opening s' :: (u' ++ .closing s' :: v'))

/-! ## Phrases are nested -/

theorem Token.Plain.rounded {tok : Token} (h : tok.Plain) : tok.rounded = tok := by
  cases tok with
  | opening _ | closing _ => exact h.elim
  | number _ | operator _ | identifier _ | comma => rfl

theorem Nested.append {u v : List Token} (hu : Nested u) (hv : Nested v) : Nested (u ++ v) := by
  induction hu with
  | nil => exact hv
  | plain htok _ ih => exact .plain htok ih
  | pair s hinner _ _ ih =>
    rw [List.cons_append, List.append_assoc, List.cons_append]
    exact .pair s hinner ih

theorem Spells.nested {p : Phrase} {w : List Token} {t : Expr} {n d : Nat}
    (h : Spells p w t n d) : Nested w := by
  induction h with
  | sumOfProduct _ ih | productOfPower _ ih | powerOfSigned _ ih | signedOfAtom _ ih => exact ih
  | sumSnoc _ _ _ ihl ihr | productSnoc _ _ _ ihl ihr | raise _ _ ihl ihr =>
    exact ihl.append (.plain trivial ihr)
  | minus _ ih | plus _ ih => exact .plain trivial ih
  | number | constant => exact .plain trivial .nil
  | group s _ ih => exact .pair s ih .nil
  | call f s _ ih => exact .plain trivial (.pair s ih .nil)

/-! ## Nested brackets can be checked -/

/-- Tokens behind some open brackets that close these and their own: up to the bracket that closes
the innermost one they are nested. -/
theorem nested_of_nest {opened : List Bracket} {w : List Token} (h : nest opened w = some []) :
    match opened with
    | [] => Nested w
    | s :: outer => ∃ u v, w = u ++ .closing s :: v ∧ Nested u ∧ nest outer v = some [] := by
  -- By induction on the length: what follows a closed pair is no tail of what follows its opener.
  induction hn : w.length using Nat.strongRecOn generalizing opened w with
  | ind n ih =>
    subst hn
    cases w with
    | nil =>
      cases h
      exact .nil
    | cons tok w =>
      cases tok with
      | opening s =>
        have hpair : nest (s :: opened) w = some [] := h
        obtain ⟨u, v, rfl, hu, hv⟩ := ih _ (Nat.lt_succ_self _) hpair rfl
        have hrest := ih v.length (by simp; omega) hv rfl
        cases opened with
        | nil => exact .pair s hu hrest
        | cons s' outer =>
          obtain ⟨u', v', rfl, hu', hv'⟩ := hrest
          exact ⟨.opening s :: (u ++ .closing s :: u'), v', by simp, .pair s hu hu', hv'⟩
      | closing s =>
        cases opened with
        | nil => cases h
        | cons s' outer =>
          simp only [nest] at h
          split at h
          · next hs => exact ⟨[], w, by rw [hs]; rfl, .nil, h⟩
          · cases h
      | number _ | operator _ | identifier _ | comma =>
        have hplain : nest opened w = some [] := h
        have hrest := ih _ (Nat.lt_succ_self _) hplain rfl
        cases opened with
        | nil => exact .plain trivial hrest
        | cons s outer =>
          obtain ⟨u, v, rfl, hu, hv⟩ := hrest
          exact ⟨_ :: u, v, rfl, .plain trivial hu, hv⟩

/-! ## Restyled tokens -/

namespace Restyled

variable {w w' : List Token}

theorem symm (h : Restyled w w') : Restyled w' w := by
  induction h with
  | nil => exact .nil
  | plain htok _ ih => exact .plain htok ih
  | pair s s' _ _ ihu ihv => exact .pair s' s ihu ihv

theorem balanced (h : Restyled w w') : Balanced w := by
  induction h with
  | nil => exact fun _ => rfl
  | @plain tok _ _ htok _ ih =>
    cases tok with
    | opening _ | closing _ => exact htok.elim
    | number _ | operator _ | identifier _ | comma => exact ih
  | @pair u _ v _ s _ _ _ ihu ihv =>
    have hpair := (ihu.bracketed s).append ihv
    rwa [List.cons_append, List.append_assoc] at hpair

end Restyled

/-- Nested brackets can all be made round. -/
theorem Nested.restyled_rounded {w : List Token} (h : Nested w) :
    Restyled w (w.map Token.rounded) := by
  induction h with
  | nil => exact .nil
  | plain htok _ ih =>
    rw [List.map_cons, htok.rounded]
    exact .plain htok ih
  | pair s _ _ ihu ihv =>
    rw [List.map_cons, List.map_append, List.map_cons]
    exact .pair s .round ihu ihv

theorem nested_iff {w : List Token} : Nested w ↔ nest [] w = some [] :=
  ⟨fun h => h.restyled_rounded.balanced [], nested_of_nest⟩

instance (w : List Token) : Decidable (Nested w) := decidable_of_iff _ nested_iff.symm

example : ¬ Nested [.opening .round, .number 3, .closing .square] := by decide

/-! ## Cutting restyled tokens -/

namespace Balanced

variable {u u' v v' : List Token} {s s' : Bracket}

/-- Behind a balanced front stands what is balanced, if all of it is. -/
theorem of_append (h : Balanced (u ++ v)) (hu : Balanced u) : Balanced v := fun opened => by
  have hall := h opened
  rw [nest_append, hu opened] at hall
  exact hall

/-- No balanced piece goes on behind a balanced front with a closing bracket. -/
theorem eq_nil_of_closing {x : List Token} (hu : Balanced u) (hall : Balanced (u ++ v))
    (h : .closing s :: v' = v ++ x) : v = [] := by
  cases v with
  | nil => rfl
  | cons tok v =>
    obtain rfl : .closing s = tok := (List.cons.inj h).1
    exact nomatch hall.of_append hu []

/-- So two balanced fronts of the same tokens that end at closing brackets are one. -/
theorem closer_unique (hu : Balanced u) (hu' : Balanced u')
    (h : u ++ .closing s :: v = u' ++ .closing s' :: v') : u = u' ∧ s = s' ∧ v = v' := by
  obtain rfl : u = u' := by
    rcases List.append_eq_append_iff.1 h with ⟨mid, rfl, hback⟩ | ⟨mid, rfl, hback⟩
    · rw [hu.eq_nil_of_closing hu' hback, List.append_nil]
    · rw [hu'.eq_nil_of_closing hu hback, List.append_nil]
  obtain ⟨hs, hv⟩ := List.cons.inj (List.append_cancel_left h)
  exact ⟨rfl, Token.closing.inj hs, hv⟩

/-- A balanced front that begins with a bracket reaches beyond the one that closes it. -/
theorem cut_pair (hu : Balanced u) (hall : Balanced (.opening s :: u'))
    (h : u ++ .closing s :: v = u' ++ v') :
    ∃ mid, u' = u ++ .closing s :: mid ∧ v = mid ++ v' ∧ Balanced mid := by
  rcases List.append_eq_append_iff.1 h with ⟨mid, rfl, hback⟩ | ⟨mid, rfl, -⟩
  · cases mid with
    | nil => exact absurd (by simpa using hu) (hall.cut_front (v := []))
    | cons tok mid =>
      obtain ⟨rfl, rfl⟩ : .closing s = tok ∧ v = mid ++ v' := List.cons.inj hback
      refine ⟨mid, rfl, rfl, of_append (u := .opening s :: (u ++ [.closing s])) ?_ (hu.bracketed s)⟩
      rwa [List.cons_append, List.append_assoc]
  · exact absurd hu hall.cut_front

end Balanced

namespace Restyled

variable {u v w w' : List Token} {s : Bracket}

/-- A balanced front is restyled by itself. -/
theorem cut (h : Restyled w w') (hw : w = u ++ v) (hu : Balanced u) :
    ∃ u' v', w' = u' ++ v' ∧ Restyled u u' ∧ Restyled v v' := by
  induction h generalizing u with
  | nil =>
    obtain ⟨rfl, rfl⟩ := List.append_eq_nil_iff.1 hw.symm
    exact ⟨[], [], rfl, .nil, .nil⟩
  | @plain tok w w' htok hrest ih =>
    cases u with
    | nil =>
      obtain rfl : tok :: w = v := hw
      exact ⟨[], tok :: w', rfl, .nil, .plain htok hrest⟩
    | cons first u =>
      obtain ⟨rfl, hsplit⟩ : tok = first ∧ w = u ++ v := List.cons.inj hw
      have hfirst : Balanced [tok] := (Restyled.nil.plain htok).balanced
      obtain ⟨u', v', rfl, hu', hv'⟩ := ih hsplit (Balanced.of_append (u := [tok]) hu hfirst)
      exact ⟨tok :: u', v', rfl, .plain htok hu', hv'⟩
  | @pair inner inner' after after' s s' hinner hafter _ ih =>
    cases u with
    | nil =>
      obtain rfl : .opening s :: (inner ++ .closing s :: after) = v := hw
      exact ⟨[], _, rfl, .nil, .pair s s' hinner hafter⟩
    | cons first u =>
      obtain ⟨rfl, hsplit⟩ : .opening s = first ∧ inner ++ .closing s :: after = u ++ v :=
        List.cons.inj hw
      obtain ⟨mid, rfl, hmid, hbalanced⟩ := hinner.balanced.cut_pair hu hsplit
      obtain ⟨mid', v', rfl, hmid', hv'⟩ := ih hmid hbalanced
      exact ⟨.opening s' :: (inner' ++ .closing s' :: mid'), v', by simp, .pair s s' hinner hmid',
        hv'⟩

/-- The operands of an operator are restyled each by itself. -/
theorem of_operator {op : Operator} (h : Restyled (u ++ .operator op :: v) w') (hu : Balanced u) :
    ∃ u' v', w' = u' ++ .operator op :: v' ∧ Restyled u u' ∧ Restyled v v' := by
  obtain ⟨u', _, rfl, hu', hrest⟩ := h.cut rfl hu
  cases hrest with
  | plain _ hv' => exact ⟨u', _, rfl, hu', hv'⟩

/-- A bracket and what it groups are restyled together. -/
theorem of_bracketed (h : Restyled (.opening s :: (u ++ [.closing s])) w') (hu : Balanced u) :
    ∃ s' u', w' = .opening s' :: (u' ++ [.closing s']) ∧ Restyled u u' := by
  generalize hw : .opening s :: (u ++ [.closing s]) = w at h
  cases h with
  | nil => cases hw
  | plain htok _ =>
    cases hw
    exact htok.elim
  | @pair inner inner' after after' s s' hinner hafter =>
    obtain ⟨-, hrest⟩ := List.cons.inj hw
    obtain ⟨rfl, -, rfl⟩ := hu.closer_unique hinner.balanced hrest
    cases hafter
    exact ⟨s', inner', rfl, hinner⟩

end Restyled

/-! ## Phrases with brackets of other styles -/

/-- A phrase with brackets of other styles is the same phrase. -/
theorem Spells.restyled {p : Phrase} {w w' : List Token} {t : Expr} {n d : Nat}
    (h : Spells p w t n d) (hw : Restyled w w') : Spells p w' t n d := by
  induction h generalizing w' with
  | sumOfProduct _ ih => exact .sumOfProduct (ih hw)
  | productOfPower _ ih => exact .productOfPower (ih hw)
  | powerOfSigned _ ih => exact .powerOfSigned (ih hw)
  | signedOfAtom _ ih => exact .signedOfAtom (ih hw)
  | sumSnoc hl hop _ ihl ihr =>
    obtain ⟨_, _, rfl, hleft, hright⟩ := hw.of_operator hl.balanced
    exact .sumSnoc (ihl hleft) hop (ihr hright)
  | productSnoc hl hop _ ihl ihr =>
    obtain ⟨_, _, rfl, hleft, hright⟩ := hw.of_operator hl.balanced
    exact .productSnoc (ihl hleft) hop (ihr hright)
  | raise hb _ ihb ihx =>
    obtain ⟨_, _, rfl, hbase, hexponent⟩ := hw.of_operator hb.balanced
    exact .raise (ihb hbase) (ihx hexponent)
  | minus _ ih =>
    cases hw with
    | plain _ hw => exact .minus (ih hw)
  | plus _ ih =>
    cases hw with
    | plain _ hw => exact .plus (ih hw)
  | number x =>
    cases hw with
    | plain _ hw =>
      cases hw
      exact .number x
  | constant c =>
    cases hw with
    | plain _ hw =>
      cases hw
      exact .constant c
  | group s hinner ih =>
    obtain ⟨s', _, rfl, hinner'⟩ := hw.of_bracketed hinner.balanced
    exact .group s' (ih hinner')
  | call f s hinner ih =>
    cases hw with
    | plain _ hw =>
      obtain ⟨s', _, rfl, hinner'⟩ := hw.of_bracketed hinner.balanced
      exact .call f s' (ih hinner')

variable {ts ts' : List Token} {t : Expr}

/-- Restyled tokens are parsed to the same tree. -/
theorem parse_restyled (hs : Restyled ts ts') (h : parse ts = .ok t) : parse ts' = .ok t := by
  obtain ⟨n, d, ht, hn, hd⟩ := spells_of_parse h
  exact parse_of_spells (ht.restyled hs) hn hd

/-- **Brackets group alike but strictly.** The parser gives a tree if and only if the brackets are
nested, each closed in the style that opened it, and the tokens with round brackets only have that
tree. Pairs of brackets in other styles change nothing in what is parsed. -/
theorem parse_eq_ok_iff_nested (ts : List Token) :
    (∀ t, parse ts = .ok t ↔ Nested ts ∧ parse (ts.map Token.rounded) = .ok t) ∧
      ∀ ts', Restyled ts ts' → ∀ t, parse ts = .ok t ↔ parse ts' = .ok t := by
  refine ⟨fun t => ⟨fun h => ?_, fun ⟨hnested, h⟩ => ?_⟩, fun ts' hs t => ?_⟩
  · obtain ⟨_, _, ht, -, -⟩ := spells_of_parse h
    exact ⟨ht.nested, parse_restyled ht.nested.restyled_rounded h⟩
  · exact parse_restyled hnested.restyled_rounded.symm h
  · exact ⟨parse_restyled hs, parse_restyled hs.symm⟩

/-- The root of a group of 16, in two choices of styles. -/
theorem parse_restyled_root :
    let square : List Token := [.identifier "sqrt", .opening .square, .opening .curly, .number 16,
      .closing .curly, .closing .square]
    let curly : List Token := [.identifier "sqrt", .opening .curly, .opening .round, .number 16,
      .closing .round, .closing .curly]
    Restyled square curly ∧ parse square = .ok (.call .sqrt [.literal 16]) ∧
      parse curly = .ok (.call .sqrt [.literal 16]) := by
  intro square curly
  have hnumber : Restyled [.number 16] [.number 16] := .plain trivial .nil
  have hgroup := hnumber.pair .curly .round .nil
  have hs : Restyled square curly := .plain trivial (hgroup.pair .square .curly .nil)
  have hroot : Spells .atom square (.call .sqrt [.literal 16]) 1 2 :=
    .call .sqrt .square (((Spells.number 16).toSum.group .curly).toSum)
  have hparse := parse_of_spells hroot.toSum (by decide) (by decide)
  exact ⟨hs, hparse, ((parse_eq_ok_iff_nested square).2 curly hs _).1 hparse⟩

end DeskCalc
