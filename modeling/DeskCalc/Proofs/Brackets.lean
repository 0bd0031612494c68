import DeskCalc.Proofs.Grammar

/-!
# Brackets of a phrase

`nest` follows the brackets of some tokens on a stack of the open ones. Every phrase is `Balanced`:
it closes what it opens, in the same style and in order, and nothing else. So no phrase can begin
inside a balanced piece and end outside of it, which is what `Balanced.cut_front` and
`Balanced.cut_back` say in the form the cutting of phrases needs.
-/

namespace DeskCalc

/-- The styles of the brackets that are open behind some tokens, innermost first, if those before
them are `opened`; nothing if a bracket closes another style or none. -/
def nest (opened : List Bracket) : List Token → Option (List Bracket)
  | [] => some opened
  | .opening s :: rest => nest (s :: opened) rest
  | .closing s :: rest =>
    match opened with
    | [] => none
    | innermost :: outer => if s = innermost then nest outer rest else none
  | _ :: rest => nest opened rest

/-- The tokens close the brackets they open and no others. -/
def Balanced (w : List Token) : Prop := ∀ opened, nest opened w = some opened

theorem nest_append (opened : List Bracket) (u v : List Token) :
    nest opened (u ++ v) = (nest opened u).bind (nest · v) := by
  induction u generalizing opened with
  | nil => rfl
  | cons tok u ih =>
    cases tok with
    | opening s => exact ih (s :: opened)
    | closing s =>
      cases opened with
      | nil => rfl
      | cons innermost outer =>
        simp only [List.cons_append, nest]
        split
        · exact ih outer
        · rfl
    | number _ | operator _ | identifier _ | comma => exact ih opened

/-- Brackets that are open further out do not matter. -/
theorem nest_outer {opened after : List Bracket} {w : List Token} (h : nest opened w = some after)
    (outer : List Bracket) : nest (opened ++ outer) w = some (after ++ outer) := by
  induction w generalizing opened with
  | nil =>
    cases h
    rfl
  | cons tok w ih =>
    cases tok with
    | opening s => exact ih h
    | closing s =>
      cases opened with
      | nil => cases h
      | cons innermost opened =>
        simp only [nest] at h
        simp only [List.cons_append, nest]
        split at h
        · next hs => rw [if_pos hs]; exact ih h
        · cases h
    | number _ | operator _ | identifier _ | comma => exact ih h

namespace Balanced

variable {u v w : List Token} {s : Bracket}

theorem append (hu : Balanced u) (hv : Balanced v) : Balanced (u ++ v) := fun opened => by
  rw [nest_append, hu opened]
  exact hv opened

theorem bracketed (h : Balanced w) (s : Bracket) : Balanced (.opening s :: (w ++ [.closing s])) :=
  fun opened => by
    show nest (s :: opened) (w ++ [.closing s]) = some opened
    rw [nest_append, h (s :: opened)]
    show (if s = s then some opened else none) = some opened
    rw [if_pos rfl]

theorem operator (h : Balanced w) (op : Operator) : Balanced (.operator op :: w) := h

theorem identifier (h : Balanced w) (name : String) : Balanced (.identifier name :: w) := h

/-- What is left of a balanced piece without its first bracket is the front of no balanced one. -/
theorem cut_front (h : Balanced (.opening s :: u)) : ¬ Balanced (u ++ v) := fun huv => by
  have hu : nest [s] u = some [] := h []
  have hall := huv []
  rw [nest_append] at hall
  cases hinner : nest [] u with
  | none =>
    rw [hinner] at hall
    cases hall
  | some after =>
    have houter := nest_outer hinner [s]
    rw [List.nil_append, hu] at houter
    simp at houter

/-- Nor is what is left without its last bracket the back of one. -/
theorem cut_back (h : Balanced (v ++ [.closing s])) : ¬ Balanced (u ++ v) := fun huv => by
  have hv : ∀ opened, nest opened v = some (s :: opened) := fun opened => by
    have hclose := h opened
    rw [nest_append] at hclose
    cases hafter : nest opened v with
    | none =>
      rw [hafter] at hclose
      cases hclose
    | some after =>
      rw [hafter] at hclose
      cases after with
      | nil => cases hclose
      | cons innermost outer =>
        simp only [Option.bind_some, nest] at hclose
        split at hclose
        · next hs =>
          cases hclose
          rw [hs]
        · cases hclose
  have hall := huv []
  rw [nest_append] at hall
  cases hafter : nest [] u with
  | none =>
    rw [hafter] at hall
    cases hall
  | some after =>
    rw [hafter, Option.bind_some, hv after] at hall
    cases hall

end Balanced

/-- Every phrase is balanced. -/
theorem Spells.balanced {p : Phrase} {w : List Token} {t : Expr} {n d : Nat}
    (h : Spells p w t n d) : Balanced w := by
  induction h with
  | sumOfProduct _ ih | productOfPower _ ih | powerOfSigned _ ih | signedOfAtom _ ih => exact ih
  | sumSnoc _ _ _ ihl ihr | productSnoc _ _ _ ihl ihr => exact ihl.append (ihr.operator _)
  | raise _ _ ihl ihr => exact ihl.append (ihr.operator _)
  | minus _ ih | plus _ ih => exact ih.operator _
  | number | constant => exact fun _ => rfl
  | group s _ ih => exact ih.bracketed s
  | call f s _ ih => exact (ih.bracketed s).identifier f.name

end DeskCalc
