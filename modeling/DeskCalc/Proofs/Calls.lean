import DeskCalc.Proofs.Parsing
import DeskCalc.Proofs.Scanning
import DeskCalc.Proofs.Stages
import DeskCalc.Proofs.Substitution
import DeskCalc.Proofs.Timeline

/-!
# Function keys and typed calls

**Theorem (`key_agrees_with_call`).** A function key does to the display what the call of the
function does that is typed around the text shown: both have the same value or the same domain
error, and leave the same display and the same answer. The one exception is a text at a limit of the
grammar, where the call nests too deep or is too large.

The brackets of the call keep the text apart from what is typed around it: no lexeme goes on into a
bracket, so the tokens of the text stay what they are (`scans_typed`), and a phrase in brackets
behind a name is the argument of a call, one operation larger and one level deeper.
-/

namespace DeskCalc

/-- The call of a function, typed around a text. -/
def Function.typed (f : Function) (s : Bracket) (text : String) : String :=
  f.name ++ String.singleton s.opener ++ text ++ String.singleton s.closer

/-- The text spells an expression that holds so many operators, signs and calls and nests so deep. -/
def Spelled (text : String) (n d : Nat) : Prop :=
  ∃ tokens t, tokenize text = .ok tokens ∧ Spells .sum tokens t n d

variable {text : String} {tokens : List Token} {t : Expr} {n d : Nat} {v : Float}
  (f : Function) (s : Bracket)

/-! ## The tokens of a call -/

theorem listed_opener : ([s.opener], Token.opening s) ∈ symbols := by
  cases s <;> decide

theorem listed_closer : ([s.closer], Token.closing s) ∈ symbols := by
  cases s <;> decide

theorem opener_ne_star : s.opener ≠ '*' := by
  cases s <;> decide

theorem closer_ne_star : s.closer ≠ '*' := by
  cases s <;> decide

theorem lexeme_name : Lexeme (.identifier f.name) f.name.toList := by
  have hletters : f.name.toList.all Char.isAlpha = true := by cases f <;> decide
  have hname := Lexeme.name (List.all_eq_true.1 hletters) (by cases f <;> decide)
  rwa [String.ofList_toList] at hname

theorem Lexeme.stops_opener {tok : Token} {w : List Char} (h : Lexeme tok w) (x : List Char) :
    Stops w (s.opener :: x) := by
  obtain ⟨hdigit, hletter, hpoint, -⟩ := symbol_char (listed_opener s) List.mem_cons_self
  exact h.stops hdigit hletter hpoint (opener_ne_star s) x

theorem Lexeme.stops_closer {tok : Token} {w : List Char} (h : Lexeme tok w) (x : List Char) :
    Stops w (s.closer :: x) := by
  obtain ⟨hdigit, hletter, hpoint, -⟩ := symbol_char (listed_closer s) List.mem_cons_self
  exact h.stops hdigit hletter hpoint (closer_ne_star s) x

theorem toList_typed : (f.typed s text).toList =
    f.name.toList ++ (s.opener :: (text.toList ++ [s.closer])) := by
  simp [Function.typed]

/-- The tokens of a text stay the same in a call typed around it. -/
theorem scans_typed (h : Scans text.toList tokens) : Scans (f.typed s text).toList
    (.identifier f.name :: .opening s :: (tokens ++ [.closing s])) := by
  have hcloser : scan [s.closer] = ([.closing s], []) := by
    rw [scan_symbol (listed_closer s) (closer_ne_star s), scan_nil]
  have hinner : scan (text.toList ++ [s.closer]) = (tokens ++ [.closing s], []) := by
    rw [h.append fun _ _ hw _ => hw.stops_closer s [], hcloser]
  have hopener := scan_symbol (listed_opener s) (opener_ne_star s) (text.toList ++ [s.closer])
  refine scans_of_scan ?_
  rw [toList_typed, scan_lexeme (lexeme_name f) ((lexeme_name f).stops_opener s _), hopener, hinner]

theorem tokenize_typed (h : tokenize text = .ok tokens) : tokenize (f.typed s text) =
    .ok (.identifier f.name :: .opening s :: (tokens ++ [.closing s])) :=
  tokenize_eq_ok_iff.2 (scans_typed f s (tokenize_eq_ok_iff.1 h))

/-- No key has a typed call on it. -/
theorem ofText_typed (text : String) : Key.ofText (f.typed s text) = .text (f.typed s text) := by
  have hopener : s.opener ∈ (f.typed s text).toList := by
    rw [toList_typed]
    exact List.mem_append_right _ List.mem_cons_self
  exact Key.ofText_of_opener hopener

/-! ## The value of a call -/

/-- Below both limits of the grammar, the call typed around a text has the value or the error of the
function at the value of the text. -/
theorem calculate_typed (htokens : tokenize text = .ok tokens) (ht : Spells .sum tokens t n d)
    (hn : n < maxNodes) (hd : d < maxDepth) (hv : t.evaluate = .ok v) :
    calculate (f.typed s text) = (f.apply [v]).mapError CalcError.domain := by
  have hparse := parse_of_spells (ht.call f s).toSum hn hd
  have hcall : (Expr.call f [t]).evaluate = f.apply [v] := by
    rw [Expr.evaluate_call_one, hv]
    rfl
  cases happly : f.apply [v] with
  | ok x => exact (Calculated.value (tokenize_typed f s htokens) hparse (hcall.trans happly)).eq
  | error e => exact (Calculated.noValue (tokenize_typed f s htokens) hparse (hcall.trans happly)).eq

/-- At one of the limits, the call typed around a text nests too deep or is too large. -/
theorem calculate_typed_at_limit (htokens : tokenize text = .ok tokens)
    (ht : Spells .sum tokens t n d) (hlimit : n = maxNodes ∨ d = maxDepth) :
    ∃ position, calculate (f.typed s text) = .error (.grammar ⟨position, .tooDeep⟩) ∨
      calculate (f.typed s text) = .error (.grammar ⟨position, .tooLarge⟩) := by
  have hanswer := answered_of_spells (ht.call f s).toSum
  cases hparse : parse (.identifier f.name :: .opening s :: (tokens ++ [.closing s])) with
  | ok t' =>
    rw [hparse] at hanswer
    cases hanswer with
    | ok hn hd => omega
  | error e =>
    have hfails := (Calculated.noExpression (tokenize_typed f s htokens) hparse).eq
    rw [hparse] at hanswer
    cases hanswer with
    | deep position _ => exact ⟨position, .inl hfails⟩
    | large position _ => exact ⟨position, .inr hfails⟩

namespace Session

/-! ## What is shown -/

/-- What a settled calculation shows and answers depends on the marker and the earlier answer only. -/
theorem settle_congr (s s' : Session) (hm : s.settings.errorMarker = s'.settings.errorMarker)
    (ha : s.answer = s'.answer) (result : Except CalcError Float) :
    (s.settle result).display = (s'.settle result).display ∧
      (s.settle result).answer = (s'.settle result).answer := by
  rw [display_settle, display_settle, hm]
  cases result with
  | ok x => exact ⟨rfl, rfl⟩
  | error e => exact ⟨rfl, ha⟩

/-- Typing a text behind `CLR` shows it. -/
theorem run_retype (s : Session) {text : String} (h : Key.ofText text = .text text) :
    s.run ["CLR", text] = (s.edit "").edit text := by
  rw [run_cons, run_cons, run_nil, press_clear, press_text h, append, editable, display_edit]
  exact congrArg (s.edit "").edit (String.empty_append ..)

/-- Typing a text behind `CLR` and pressing `=` settles the calculation of the text. -/
theorem run_retype_equals (s : Session) {text : String} (h : Key.ofText text = .text text) :
    s.run ["CLR", text, "="] = ((s.edit "").edit text).settle (calculate text) := by
  have hshown := (s.edit "").display_edit text
  show (s.run ["CLR", text]).press "=" = _
  rw [run_retype s h, Evaluates.equals.press_settle (by rw [hshown]), hshown]
  rfl

/-- Pressing the key of a function settles the function at the value of the text shown. -/
theorem press_name_eq {s : Session} {v : Float} (hd : s.display.isError = false)
    (hv : calculate s.display.text = .ok v) (f : Function) :
    s.press f.name = s.settle ((f.apply [v]).mapError CalcError.domain) := by
  rw [(Evaluates.function f).press_settle hd, hv]
  rfl

/-- **A function key agrees with the typed call.** Let the text shown be no error and have a value.
It spells an expression within both limits. Below both, the call of a function typed around it, in
brackets of any style, has the value or the error of the function there; and pressing the key of the
function, and clearing the display, typing the call and pressing `=`, lead to the same display and
the same answer. At one of the limits the call nests too deep or is too large. -/
theorem key_agrees_with_call {s : Session} {v : Float} (hd : s.display.isError = false)
    (hv : calculate s.display.text = .ok v) (f : Function) (style : Bracket) :
    let call := f.typed style s.display.text
    (∃ n d, Spelled s.display.text n d) ∧ ∀ n d, Spelled s.display.text n d →
      (n ≤ 1024 ∧ d ≤ 256) ∧
      (n < 1024 → d < 256 →
        calculate call = (f.apply [v]).mapError CalcError.domain ∧
        (s.press f.name).display = (s.run ["CLR", call, "="]).display ∧
        (s.press f.name).answer = (s.run ["CLR", call, "="]).answer) ∧
      (n = 1024 ∨ d = 256 →
        ∃ position, calculate call = .error (.grammar ⟨position, .tooDeep⟩) ∨
          calculate call = .error (.grammar ⟨position, .tooLarge⟩)) := by
  intro call
  obtain ⟨tokens, t, htokens, hparse, hvalue⟩ := stages_of_calculate hv
  obtain ⟨n, d, ht, -, -⟩ := spells_of_parse hparse
  refine ⟨⟨n, d, tokens, t, htokens, ht⟩, ?_⟩
  rintro n d ⟨tokens', t', htokens', ht'⟩
  obtain rfl : tokens = tokens' := Except.ok.inj (htokens.symm.trans htokens')
  have hanswer := answered_of_spells ht'
  rw [hparse] at hanswer
  cases hanswer with
  | ok hn hdeep =>
    refine ⟨⟨hn, hdeep⟩, fun hn hdeep => ?_, calculate_typed_at_limit f style htokens ht'⟩
    have hcall := calculate_typed f style htokens ht' hn hdeep hvalue
    refine ⟨hcall, ?_⟩
    rw [press_name_eq hd hv, ← hcall, run_retype_equals s (ofText_typed f style _)]
    exact settle_congr s ((s.edit "").edit call) rfl rfl _

/-- The key `sqrt` at `8+8`, a sum of one operator and without nesting, agrees with `sqrt{8+8}`. -/
theorem key_agrees_with_call_sqrt :
    let s := (start {}).run ["8", "+", "8"]
    let call := Function.sqrt.typed .curly s.display.text
    (s.display.isError = false ∧ calculate s.display.text = .ok 16) ∧
      (Spelled s.display.text 1 0 ∧ 1 < 1024 ∧ 0 < 256) ∧
      calculate call = (Function.sqrt.apply [16]).mapError CalcError.domain ∧
      (s.press "sqrt").display = (s.run ["CLR", call, "="]).display ∧
      (s.press "sqrt").answer = (s.run ["CLR", call, "="]).answer := by
  intro s call
  have hd : s.display.isError = false := by decide +kernel
  have hv : calculate s.display.text = .ok 16 := by decide +kernel
  have htokens : tokenize s.display.text =
      .ok ([.number 8] ++ .operator .add :: [.number 8]) := by decide +kernel
  have hsum : Spells .sum ([.number 8] ++ .operator .add :: [.number 8])
      (.binary .add (.literal 8) (.literal 8)) 1 0 :=
    .sumSnoc ((Spells.number 8).ofAtom .sum) (by decide) ((Spells.number 8).ofAtom .product)
  have hspelled : Spelled s.display.text 1 0 := ⟨_, _, htokens, hsum⟩
  obtain ⟨-, hall⟩ := key_agrees_with_call hd hv .sqrt .curly
  exact ⟨⟨hd, hv⟩, ⟨hspelled, by decide, by decide⟩, (hall 1 0 hspelled).2.1 (by decide) (by decide)⟩

end Session

end DeskCalc
