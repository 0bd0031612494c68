import DeskCalc.Proofs.Completeness

/-!
# The parser and the grammar

**Theorem (`parse_eq_ok_iff_spells`).** The parser gives a tree exactly if the tokens are a sum with
that tree that holds at most 1024 operators, signs and calls and nests at most 256 deep. Tokens that
are a sum beyond a limit are refused for that limit.

Left to right is soundness: the cursor behind the sum stands at the end of the tokens. Right to left
is completeness: nothing follows the sum, so nothing continues it.
-/

namespace DeskCalc

/-- Where the parser begins. -/
def Cursor.start (tokens : List Token) : Cursor := { rest := tokens }

theorem Cursor.start_within (tokens : List Token) : (Cursor.start tokens).Within :=
  ⟨Nat.zero_le _, Nat.zero_le _⟩

theorem Cursor.start_fuelled (tokens : List Token) :
    (Cursor.start tokens).Fuelled 7 descentFuel := by
  show 7 * maxDepth + 7 ≤ descentFuel
  decide

/-- What the parser makes of the reading of a sum. -/
theorem parse_of_meets {tokens : List Token} {good : Expr → Cursor → Prop} {bad : Halt → Prop}
    {P : Except SyntaxError Expr → Prop}
    (h : Descent.Meets (Descent.sum descentFuel) good bad (.start tokens))
    (hb : ∀ e, bad (.fault e) → P (.error e)) (hs : ¬ bad .stuck)
    (hg : ∀ t c, good t c → P (match c.rest with
      | [] => .ok t
      | .closing style :: _ => .error ⟨c.position, .unmatchedBracket style⟩
      | _ => .error ⟨c.position, .trailingTokens⟩)) : P (parse tokens) := by
  unfold Descent.Meets at h
  unfold parse
  rw [Cursor.start] at h
  cases hr : (Descent.sum descentFuel).run { rest := tokens } with
  | ok r =>
    rw [hr] at h
    exact hg _ _ h
  | error e =>
    rw [hr] at h
    cases e with
    | fault e => exact hb e h
    | stuck => exact (hs h).elim

/-- An accepted list of tokens is a sum within the limits. -/
theorem spells_of_parse {tokens : List Token} {t : Expr} (h : parse tokens = .ok t) :
    ∃ n d, Spells .sum tokens t n d ∧ n ≤ maxNodes ∧ d ≤ maxDepth := by
  have hs := (Descent.sound descentFuel).sum _ (Cursor.start_within tokens)
    (Cursor.start_fuelled tokens)
  refine parse_of_meets (P := fun r => r = .ok t → _) hs (fun _ _ => nofun) (fun h => h rfl) ?_ h
  rintro t' c ⟨w, n, d, hw, hr, rfl, hf⟩
  split
  · next hend =>
    rintro ⟨⟩
    rw [hend, List.append_nil] at hr
    subst hr
    refine ⟨n, d, hw, ?_, ?_⟩
    · exact Nat.zero_add n ▸ hf.nodes
    · exact Nat.zero_add d ▸ hf.depth
  · nofun
  · nofun

/-- How the parser answers a sum: with its tree, or by a limit that it does exceed. -/
inductive Answered (t : Expr) (n d : Nat) : Except SyntaxError Expr → Prop
  | ok : n ≤ maxNodes → d ≤ maxDepth → Answered t n d (.ok t)
  | deep (position : Nat) : maxDepth < d → Answered t n d (.error ⟨position, .tooDeep⟩)
  | large (position : Nat) : maxNodes < n → Answered t n d (.error ⟨position, .tooLarge⟩)

theorem answered_of_spells {tokens : List Token} {t : Expr} {n d : Nat}
    (h : Spells .sum tokens t n d) : Answered t n d (parse tokens) := by
  have hr : (Cursor.start tokens).rest = tokens ++ [] := (List.append_nil _).symm
  have hm : Descent.Meets (Descent.sum descentFuel)
      (fun t' c' => t' = t ∧ c'.rest = [] ∧ n ≤ maxNodes ∧ d ≤ maxDepth)
      ((Cursor.start tokens).Overruns n d) (.start tokens) := by
    refine h.completes.closed (Cursor.start_within tokens) (Cursor.start_fuelled tokens) hr
      (fun _ _ => nofun) (fun _ h => h) fun hf => ⟨rfl, Cursor.rest_moved hr n, ?_, ?_⟩
    · exact Nat.zero_add n ▸ hf.nodes
    · exact Nat.zero_add d ▸ hf.depth
  refine parse_of_meets hm ?_ nofun ?_
  · rintro e (⟨position, hd⟩ | ⟨position, hn⟩)
    · exact .deep position (Nat.zero_add d ▸ hd)
    · exact .large position (Nat.zero_add n ▸ hn)
  · rintro t' c ⟨rfl, hend, hn, hd⟩
    rw [hend]
    exact .ok hn hd

/-- A sum within the limits is accepted. -/
theorem parse_of_spells {tokens : List Token} {t : Expr} {n d : Nat}
    (h : Spells .sum tokens t n d) (hn : n ≤ maxNodes) (hd : d ≤ maxDepth) :
    parse tokens = .ok t := by
  have ha := answered_of_spells h
  cases hp : parse tokens with
  | ok t' => rw [hp] at ha; cases ha; rfl
  | error e =>
    rw [hp] at ha
    cases ha <;> omega

/-- **The parser is exact.** It gives a tree if and only if the tokens are a sum with that tree
within both limits; a sum beyond a limit is refused as too deep or too large. -/
theorem parse_eq_ok_iff_spells (tokens : List Token) :
    (∀ t, parse tokens = .ok t ↔ ∃ n d, Spells .sum tokens t n d ∧ n ≤ 1024 ∧ d ≤ 256) ∧
      ∀ t n d, Spells .sum tokens t n d → 1024 < n ∨ 256 < d →
        ∃ position, parse tokens = .error ⟨position, .tooDeep⟩ ∨
          parse tokens = .error ⟨position, .tooLarge⟩ := by
  refine ⟨fun t => ⟨spells_of_parse, ?_⟩, ?_⟩
  · rintro ⟨n, d, h, hn, hd⟩
    exact parse_of_spells h hn hd
  · intro t n d h hover
    have ha := answered_of_spells h
    cases hp : parse tokens with
    | ok t' =>
      rw [hp] at ha
      cases ha with
      | ok hn hd => exact absurd hover (by unfold maxNodes at hn; unfold maxDepth at hd; omega)
    | error e =>
      rw [hp] at ha
      cases ha with
      | deep position _ => exact ⟨position, .inl rfl⟩
      | large position _ => exact ⟨position, .inr rfl⟩

/-- A number behind many signs nests as deep as there are signs. -/
theorem spells_signs (k : Nat) (x : Float) :
    ∃ t, Spells .signed (List.replicate k (.operator .sub) ++ [.number x]) t k k := by
  induction k with
  | zero => exact ⟨_, .signedOfAtom (.number x)⟩
  | succ k ih =>
    obtain ⟨t, h⟩ := ih
    exact ⟨_, h.minus⟩

/-- A number behind 257 signs is one level too deep. -/
theorem parse_257_signs :
    ∃ t, Spells .sum (List.replicate 257 (.operator .sub) ++ [.number 1]) t 257 257 ∧
      (1024 < 257 ∨ 256 < 257) ∧
      ∃ position, parse (List.replicate 257 (.operator .sub) ++ [.number 1]) =
          .error ⟨position, .tooDeep⟩ ∨
        parse (List.replicate 257 (.operator .sub) ++ [.number 1]) = .error ⟨position, .tooLarge⟩ := by
  obtain ⟨t, h⟩ := spells_signs 257 1
  have hs := Spells.sumOfProduct (.productOfPower (.powerOfSigned h))
  exact ⟨t, hs, by decide, (parse_eq_ok_iff_spells _).2 t 257 257 hs (by decide)⟩

end DeskCalc
