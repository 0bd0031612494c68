import DeskCalc.Proofs.Contracts

/-!
# Where syntax errors point

**Theorem (`error_points`).** The index of a syntax error is that of a token or the end of the tokens,
and the tokens there are as the cause of the error says: the token that it names stands there, the
bracket that should be closed is the innermost open one, a limit is exceeded right behind an operator
or an opening bracket, and so on (`SyntaxCause.PointsAt`).

The proof is a contract of the functions of the grammar (`pointing`). A cursor that stands behind some
tokens knows the brackets that these leave open (`Cursor.Tracks`), and every function keeps it so. Only
between an opening bracket and the function for what is inside, the bracket is read and not yet known to
the cursor; these functions rely on the bracket in front of them instead (`Stands`), and it is what their
limit errors and an empty group point at. Two causes remain that no function raises but the parser, when
a sum is read and tokens are left over; there soundness says that the tokens before are a sum.
-/

namespace DeskCalc

/-- The innermost bracket that the tokens leave open has the style. -/
def LeavesOpen (w : List Token) (s : Bracket) : Prop := ∃ outer, nest [] w = some (s :: outer)

/-- What a cause says of the tokens at an index and next to it. -/
def SyntaxCause.PointsAt (ts : List Token) (p : Nat) : SyntaxCause → Prop
  | unexpectedEnd => p = ts.length
  | unexpectedToken t => ts[p]? = some t
  | mismatchedBracket expected found =>
    ts[p]? = some (.closing found) ∧ found ≠ expected ∧ LeavesOpen (ts.take p) expected
  | unclosedBracket s => p = ts.length ∧ LeavesOpen ts s
  | unmatchedBracket s => ts[p]? = some (.closing s) ∧ ∃ t, parse (ts.take p) = .ok t
  | trailingTokens =>
    (∃ tok, ts[p]? = some tok ∧ ∀ s, tok ≠ .closing s) ∧ ∃ t, parse (ts.take p) = .ok t
  | emptyGroup => 1 ≤ p ∧ ∃ s, ts[p - 1]? = some (.opening s) ∧ ts[p]? = some (.closing s)
  | unknownIdentifier name =>
    ts[p]? = some (.identifier name) ∧ (∀ c : Constant, name ≠ c.name) ∧
      ∀ f : Function, name ≠ f.name
  | missingArguments f =>
    1 ≤ p ∧ ts[p - 1]? = some (.identifier f.name) ∧ ∀ s, ts[p]? ≠ some (.opening s)
  | arity f expected found =>
    ts[p]? = some (.identifier f.name) ∧ (∃ s, ts[p + 1]? = some (.opening s)) ∧
      expected = 1 ∧ found ≠ 1
  | tooDeep | tooLarge =>
    1 ≤ p ∧ ((∃ op, ts[p - 1]? = some (.operator op)) ∨ ∃ s, ts[p - 1]? = some (.opening s))

/-! ## Where a cursor stands -/

namespace Cursor

/-- The tokens are those that the cursor has read and those that it has not. -/
structure Behind (c : Cursor) (ts read : List Token) : Prop where
  tokens : ts = read ++ c.rest
  position : c.position = read.length

/-- The open brackets are those that the tokens read leave open. -/
def Tracks (c : Cursor) (ts : List Token) : Prop :=
  ∃ read, c.Behind ts read ∧ nest [] read = some c.opened

namespace Behind

variable {c : Cursor} {ts read after : List Token} {tok : Token}

theorem start (ts : List Token) : (Cursor.start ts).Behind ts [] := ⟨rfl, rfl⟩

theorem moved (h : c.Behind ts read) (hr : c.rest = tok :: after) (n : Nat) :
    (c.moved [tok] n).Behind ts (read ++ [tok]) where
  tokens := by rw [rest_moved_cons hr, h.tokens, hr, List.append_assoc]; rfl
  position := by rw [List.length_append, ← h.position]; rfl

theorem position_le (h : c.Behind ts read) : c.position ≤ ts.length := by
  rw [h.position, h.tokens, List.length_append]
  exact Nat.le_add_right _ _

theorem getElem?_eq (h : c.Behind ts read) : ts[c.position]? = c.rest.head? := by
  rw [h.position, h.tokens, List.getElem?_append_right (Nat.le_refl _), Nat.sub_self,
    List.head?_eq_getElem?]

theorem take_eq (h : c.Behind ts read) : ts.take c.position = read := by
  rw [h.position, h.tokens, List.take_left]

/-- At the end all tokens are read. -/
theorem eq_of_end (h : c.Behind ts read) (hr : c.rest.head? = none) :
    c.position = ts.length ∧ read = ts := by
  have htokens := h.tokens
  rw [List.head?_eq_none_iff.1 hr, List.append_nil] at htokens
  exact ⟨htokens ▸ h.position, htokens.symm⟩

/-- The token read last stands before the cursor. -/
theorem at_last (h : c.Behind ts (read ++ [tok])) :
    read.length + 1 = c.position ∧ ts[read.length]? = some tok := by
  rw [h.position, h.tokens, List.length_append]
  exact ⟨rfl, by simp⟩

theorem last (h : c.Behind ts (read ++ [tok])) :
    1 ≤ c.position ∧ ts[c.position - 1]? = some tok := by
  obtain ⟨hpos, hlast⟩ := h.at_last
  rw [← hpos]
  exact ⟨Nat.le_add_left _ _, hlast⟩

end Behind

/-- How deep a cursor is, and what it has counted, does not matter. -/
theorem Tracks.of_eq {c c' : Cursor} {ts : List Token} (h : c.Tracks ts) (hr : c'.rest = c.rest)
    (hp : c'.position = c.position) (ho : c'.opened = c.opened) : c'.Tracks ts := by
  obtain ⟨read, hread, hopened⟩ := h
  exact ⟨read, ⟨hr ▸ hread.tokens, hp.trans hread.position⟩, ho ▸ hopened⟩

theorem Tracks.moved {c : Cursor} {ts after : List Token} {tok : Token} (h : c.Tracks ts)
    (hr : c.rest = tok :: after) (hn : nest c.opened [tok] = some c.opened) (n : Nat) :
    (c.moved [tok] n).Tracks ts := by
  obtain ⟨read, hread, hopened⟩ := h
  refine ⟨_, hread.moved hr n, ?_⟩
  rw [nest_append, hopened]
  exact hn

end Cursor

namespace Descent

open Cursor

/-- An error points into the tokens, where its cause says. -/
def Points (ts : List Token) (h : Halt) : Prop :=
  ∀ e, h = .fault e → e.position ≤ ts.length ∧ e.cause.PointsAt ts e.position

section Causes

variable {c : Cursor} {ts read : List Token} {tok : Token} {cause : SyntaxCause}

theorem points_fault {p : Nat} (hp : p ≤ ts.length) (h : cause.PointsAt ts p) :
    Points ts (.fault ⟨p, cause⟩) := by
  rintro _ ⟨⟩
  exact ⟨hp, h⟩

theorem points_token {p : Nat} (hat : ts[p]? = some tok) (h : cause.PointsAt ts p) :
    Points ts (.fault ⟨p, cause⟩) :=
  points_fault (Nat.le_of_lt (List.getElem?_eq_some_iff.1 hat).1) h

theorem points_unknown {p : Nat} {name : String} (hat : ts[p]? = some (.identifier name))
    (hconstant : Constant.ofName? name = none) (hfunction : Function.ofName? name = none) :
    Points ts (.fault ⟨p, .unknownIdentifier name⟩) := by
  refine points_token hat ⟨hat, ?_, ?_⟩
  · rintro k rfl
    rw [Constant.ofName?_name] at hconstant
    cases hconstant
  · rintro f rfl
    rw [Function.ofName?_name] at hfunction
    cases hfunction

theorem points_stuck : Points ts .stuck := by
  intro e he
  cases he

theorem points_misplaced (h : c.Behind ts read) :
    Points ts (.fault ⟨c.position, misplaced c.rest.head?⟩) := by
  refine points_fault h.position_le ?_
  cases hr : c.rest.head? with
  | none => exact (h.eq_of_end hr).1
  | some tok => exact h.getElem?_eq.trans hr

theorem points_unclosing {s : Bracket} (h : c.Behind ts read) (hopen : LeavesOpen read s)
    (hr : c.rest.head? ≠ some (.closing s)) :
    Points ts (.fault ⟨c.position, unclosing s c.rest.head?⟩) := by
  refine points_fault h.position_le ?_
  have hat := h.getElem?_eq
  cases hrest : c.rest.head? with
  | none =>
    obtain ⟨hend, rfl⟩ := h.eq_of_end hrest
    exact ⟨hend, hopen⟩
  | some tok =>
    rw [hrest] at hat hr
    cases tok with
    | closing found =>
      refine ⟨hat, fun hfound => hr (by rw [hfound]), ?_⟩
      rwa [h.take_eq]
    | number _ | operator _ | identifier _ | opening _ | comma => exact hat

/-- Behind an operator or an opening bracket, a limit can be exceeded. -/
theorem points_limit (h : c.Behind ts (read ++ [tok]))
    (htok : (∃ op, tok = .operator op) ∨ ∃ s, tok = .opening s)
    (hcause : cause = .tooDeep ∨ cause = .tooLarge) : Points ts (.fault ⟨c.position, cause⟩) := by
  obtain ⟨hpos, hlast⟩ := h.last
  have hbehind : (∃ op, ts[c.position - 1]? = some (.operator op)) ∨
      ∃ s, ts[c.position - 1]? = some (.opening s) := by
    rcases htok with ⟨op, rfl⟩ | ⟨s, rfl⟩
    · exact .inl ⟨op, hlast⟩
    · exact .inr ⟨s, hlast⟩
  refine points_fault h.position_le ?_
  rcases hcause with rfl | rfl <;> exact ⟨hpos, hbehind⟩

end Causes

/-! ## The contract -/

/-- When a function may be called: the open brackets are tracked, and the functions that go on behind a
token stand right behind it. -/
def Stands (ts : List Token) {β : Type} : Call β → Cursor → Prop
  | .named start name, c =>
    ∃ read, c.Behind ts (read ++ [.identifier name]) ∧ start = read.length ∧
      nest [] read = some c.opened
  | .group s, c => ∃ read, c.Behind ts (read ++ [.opening s]) ∧ nest [] read = some c.opened
  | .arguments s, c => ∃ read, c.Behind ts (read ++ [.opening s]) ∧ nest [] read = some c.opened
  | _, c => c.Tracks ts

/-- The functions track the brackets and fail where their errors point. -/
def pointing (ts : List Token) : Contract where
  before := Stands ts
  after _ _ _ c' := c'.Tracks ts
  fails := Points ts

section Bodies

variable {ts : List Token} {c : Cursor}

theorem tracks_ascend (hc : c.Tracks ts) :
    Meets ascend (fun _ c' => c'.Tracks ts) (Points ts) c := by
  unfold ascend
  rw [meets_bind, meets_get]
  split
  · exact points_stuck
  · exact hc.of_eq rfl rfl rfl

theorem tracks_leave (hc : c.Tracks ts) :
    Meets leave (fun _ c' => c'.Tracks ts) (Points ts) c := by
  obtain ⟨read, hread, hopened⟩ := hc
  rw [leave, meets_bind]
  cases ho : c.opened with
  | nil =>
    unfold close
    rw [meets_bind, meets_get, ho]
    exact points_stuck
  | cons s outer =>
    rw [ho] at hopened
    refine meets_closing ho (fun after hr => tracks_ascend ?_) fun hr =>
      points_unclosing hread ⟨outer, hopened⟩ hr
    have hmoved := hread.moved hr 0
    refine ⟨read ++ [Token.closing s], ⟨hmoved.tokens, hmoved.position⟩, ?_⟩
    rw [nest_append, hopened]
    exact if_pos rfl

/-- Counting an operator that has just been read. -/
theorem meets_count_operator {op : Operator} {after : List Token} {good : Unit → Cursor → Prop}
    (hc : c.Tracks ts) (hr : c.rest = .operator op :: after)
    (hg : (c.moved [.operator op] 1).Tracks ts → good () (c.moved [.operator op] 1)) :
    Meets countNode good (Points ts) (c.moved [.operator op] 0) := by
  refine meets_countNode (fun _ => hg (hc.moved hr rfl 1)) fun _ => ?_
  obtain ⟨read, hread, -⟩ := hc
  exact points_limit (hread.moved hr 0) (.inl ⟨op, rfl⟩) (.inr rfl)

/-- The operand behind an operator, one level deeper. -/
theorem keeps_operand {op : Operator} {after : List Token} {q : Call Expr} {make : Expr → Expr}
    (hc : c.Tracks ts) (hr : c.rest = .operator op :: after) (hq : ∀ c, c.Tracks ts → Stands ts q c) :
    Code.Keeps (pointing ts) (Code.move countNode >>= fun _ => Code.move descend >>= fun _ =>
      Code.call q >>= fun operand => Code.move ascend >>= fun _ => pure (make operand))
      (fun _ c' => c'.Tracks ts) (c.moved [.operator op] 0) := by
  rw [keeps_bind, keeps_move]
  refine meets_count_operator hc hr fun htracks => ?_
  rw [keeps_bind, keeps_move]
  refine meets_descend (fun _ => ?_) fun _ => ?_
  · rw [keeps_bind, keeps_call]
    refine ⟨hq _ (htracks.of_eq rfl rfl rfl), fun operand c' hc' => ?_⟩
    rw [keeps_bind, keeps_move]
    exact tracks_ascend hc'
  · obtain ⟨read, hread, -⟩ := hc
    exact points_limit (hread.moved hr 1) (.inl ⟨op, rfl⟩) (.inl rfl)

/-- One round of a loop that reads on as long as operators come. -/
theorem keeps_round {ops : List Operator} (q : Call Expr) (more : Expr → Call Expr) {left : Expr}
    (hq : ∀ c, c.Tracks ts → Stands ts q c) (hmore : ∀ t c, c.Tracks ts → Stands ts (more t) c)
    (hc : c.Tracks ts) :
    Code.Keeps (pointing ts) (Code.move (operator? ops) >>= fun
      | none => pure left
      | some op => Code.move countNode >>= fun _ => Code.call q >>= fun right =>
        Code.call (more (.binary op left right))) (fun _ c' => c'.Tracks ts) c := by
  rw [keeps_bind, keeps_move]
  refine meets_operator? (fun op _ after hr => ?_) fun _ => hc
  dsimp only
  rw [keeps_bind, keeps_move]
  refine meets_count_operator hc hr fun htracks => ?_
  rw [keeps_bind, keeps_call]
  exact ⟨hq _ htracks, fun right c' hc' => ⟨hmore _ _ hc', fun _ _ h => h⟩⟩

/-- Entering a bracket that has just been read. -/
theorem meets_enter_read {s : Bracket} {read : List Token} {good : Unit → Cursor → Prop}
    (hread : c.Behind ts (read ++ [.opening s])) (hopened : nest [] read = some c.opened)
    (hg : (c.inside s).Tracks ts → good () (c.inside s)) :
    Meets (enter s) good (Points ts) c := by
  refine meets_enter (fun _ => hg ⟨_, ⟨hread.tokens, hread.position⟩, ?_⟩) fun _ =>
    points_limit hread (.inr ⟨s, rfl⟩) (.inl rfl)
  rw [nest_append, hopened]
  rfl

theorem keeps_power (hc : c.Tracks ts) :
    Call.power.body.Keeps (pointing ts) (fun _ c' => c'.Tracks ts) c := by
  rw [Call.body, keeps_bind, keeps_call]
  refine ⟨hc, fun base c' hc' => ?_⟩
  rw [keeps_bind, keeps_move]
  refine meets_operator? (fun op _ after hr => ?_) fun _ => hc'
  exact keeps_operand hc' hr fun _ h => h

theorem keeps_signed (hc : c.Tracks ts) :
    Call.signed.body.Keeps (pointing ts) (fun _ c' => c'.Tracks ts) c := by
  rw [Call.body, keeps_bind, keeps_move]
  refine meets_operator? (fun op _ after hr => ?_) fun _ => ?_
  · exact keeps_operand hc hr fun _ h => h
  · exact ⟨hc, fun _ _ h => h⟩

theorem keeps_atom (hc : c.Tracks ts) :
    Call.atom.body.Keeps (pointing ts) (fun _ c' => c'.Tracks ts) c := by
  obtain ⟨read, hread, hopened⟩ := hc
  rw [Call.body, keeps_bind, keeps_move, meets_peek]
  split
  · next x hr =>
    obtain ⟨after, hr⟩ := List.head?_eq_some_iff.1 hr
    rw [keeps_bind, keeps_move, meets_advance hr, keeps_pure]
    exact Tracks.moved ⟨read, hread, hopened⟩ hr rfl 0
  · next name hr =>
    obtain ⟨after, hr⟩ := List.head?_eq_some_iff.1 hr
    rw [keeps_bind, keeps_move, meets_get, keeps_bind, keeps_move, meets_advance hr, keeps_call]
    exact ⟨⟨read, hread.moved hr 0, hread.position, hopened⟩, fun _ _ h => h⟩
  · next s hr =>
    obtain ⟨after, hr⟩ := List.head?_eq_some_iff.1 hr
    rw [keeps_bind, keeps_move, meets_advance hr, keeps_call]
    exact ⟨⟨read, hread.moved hr 0, hopened⟩, fun _ _ h => h⟩
  · rw [keeps_move, meets_failUnexpected]
    exact points_misplaced hread

/-- The argument list of a function whose name has just been read. -/
theorem keeps_supplied {f : Function} {s : Bracket} {read after : List Token}
    (hread : c.Behind ts (read ++ [.identifier f.name])) (hopened : nest [] read = some c.opened)
    (hr : c.rest = .opening s :: after) :
    Code.Keeps (pointing ts) (Code.move advance >>= fun _ => Code.move countNode >>= fun _ =>
      Code.call (.arguments s) >>= fun args =>
        if args.length = f.arity then pure (Expr.call f args)
        else Code.move (failAt read.length (.arity f f.arity args.length)))
      (fun _ c' => c'.Tracks ts) c := by
  obtain ⟨hpos, hname⟩ := hread.at_last
  have hat := hread.getElem?_eq
  rw [hr, ← hpos] at hat
  have hmoved := hread.moved hr 1
  rw [keeps_bind, keeps_move, meets_advance hr, keeps_bind, keeps_move]
  refine meets_countNode (fun _ => ?_) fun _ =>
    points_limit (hread.moved hr 0) (.inr ⟨s, rfl⟩) (.inr rfl)
  rw [keeps_bind, keeps_call]
  refine ⟨⟨read ++ [Token.identifier f.name], ⟨hmoved.tokens, hmoved.position⟩, ?_⟩,
    fun args c' hc' => ?_⟩
  · rw [nest_append, hopened]
    rfl
  split
  · exact hc'
  · next harity => exact points_token hname ⟨hname, ⟨s, hat⟩, rfl, harity⟩

theorem keeps_named {start : Nat} {name : String}
    (h : Stands ts (.named start name) c) :
    (Call.named start name).body.Keeps (pointing ts) (fun _ c' => c'.Tracks ts) c := by
  obtain ⟨read, hread, rfl, hopened⟩ := h
  rw [Call.body]
  split
  · exact ⟨_, hread, by rw [nest_append, hopened]; rfl⟩
  next hconstant =>
  split
  · next hfunction => exact points_unknown hread.at_last.2 hconstant hfunction
  next f hfunction =>
  obtain rfl := Function.name_of_ofName? hfunction
  rw [keeps_bind, keeps_move, meets_peek]
  split
  · next s hr =>
    obtain ⟨after, hr⟩ := List.head?_eq_some_iff.1 hr
    exact keeps_supplied hread hopened hr
  · next hr =>
    obtain ⟨hpos, hlast⟩ := hread.last
    refine points_fault hread.position_le ⟨hpos, hlast, fun s hs => ?_⟩
    rw [hread.getElem?_eq] at hs
    exact hr s hs

theorem keeps_group {s : Bracket} (h : Stands ts (.group s) c) :
    (Call.group s).body.Keeps (pointing ts) (fun _ c' => c'.Tracks ts) c := by
  obtain ⟨read, hread, hopened⟩ := h
  obtain ⟨hpos, hlast⟩ := hread.last
  rw [Call.body, keeps_bind, keeps_move]
  refine meets_enter_read hread hopened fun htracks => ?_
  rw [keeps_bind, keeps_move, meets_peek]
  split
  · rw [keeps_bind, keeps_move, meets_get, keeps_bind, keeps_move]
    refine meets_close (fun after hr => ?_) fun hr => ?_
    · refine points_fault hread.position_le ⟨hpos, s, hlast, ?_⟩
      show ts[c.position]? = _
      rw [hread.getElem?_eq, hr]
      rfl
    · refine points_unclosing hread ⟨c.opened, ?_⟩ hr
      rw [nest_append, hopened]
      rfl
  · rw [keeps_bind, keeps_call]
    refine ⟨htracks, fun inner c' hc' => ?_⟩
    rw [keeps_bind, keeps_move]
    exact tracks_leave hc'

theorem keeps_arguments {s : Bracket} (h : Stands ts (.arguments s) c) :
    (Call.arguments s).body.Keeps (pointing ts) (fun _ c' => c'.Tracks ts) c := by
  obtain ⟨read, hread, hopened⟩ := h
  rw [Call.body, keeps_bind, keeps_move]
  refine meets_enter_read hread hopened fun htracks => ?_
  rw [keeps_bind, keeps_move, meets_peek]
  split
  · rw [keeps_bind, keeps_move]
    exact tracks_leave htracks
  · rw [keeps_bind, keeps_call]
    refine ⟨htracks, fun first c' hc' => ?_⟩
    rw [keeps_bind, keeps_call]
    refine ⟨hc', fun args c'' hc'' => ?_⟩
    rw [keeps_bind, keeps_move]
    exact tracks_leave hc''

theorem keeps_further {found : List Expr} (hc : c.Tracks ts) :
    (Call.further found).body.Keeps (pointing ts) (fun _ c' => c'.Tracks ts) c := by
  rw [Call.body, keeps_bind, keeps_move, meets_peek]
  split
  · next hr =>
    obtain ⟨after, hr⟩ := List.head?_eq_some_iff.1 hr
    rw [keeps_bind, keeps_move, meets_advance hr, keeps_bind, keeps_call]
    exact ⟨hc.moved hr rfl 0, fun next c' hc' => ⟨hc', fun _ _ h => h⟩⟩
  · exact hc

end Bodies

/-- Every function keeps the contract. -/
theorem keeps_pointing (ts : List Token) {β : Type} (q : Call β) (c : Cursor) (h : Stands ts q c) :
    q.body.Keeps (pointing ts) ((pointing ts).after q c) c := by
  cases q with
  | sum | product => exact ⟨h, fun _ _ h' => ⟨h', fun _ _ h'' => h''⟩⟩
  | power => exact keeps_power h
  | signed => exact keeps_signed h
  | atom => exact keeps_atom h
  | named start name => exact keeps_named h
  | group s => exact keeps_group h
  | arguments s => exact keeps_arguments h
  | addends left => exact keeps_round .product .addends (fun _ h => h) (fun _ _ h => h) h
  | factors left => exact keeps_round .power .factors (fun _ h => h) (fun _ _ h => h) h
  | further found => exact keeps_further h

end Descent

/-! ## The parser -/

/-- The tokens in front of those that are left over are accepted by themselves. -/
theorem parse_of_run {tokens : List Token} {t : Expr} {c : Cursor}
    (h : (Descent.sum descentFuel).run (.start tokens) = .ok (t, c)) :
    (∃ read, c.Behind tokens read) ∧ parse (tokens.take c.position) = .ok t := by
  have hs := (Descent.sound descentFuel).sum _ (Cursor.start_within tokens)
    (Cursor.start_fuelled tokens)
  obtain ⟨w, n, d, hw, hr, rfl, hf⟩ := hs.of_run h
  have hread : ((Cursor.start tokens).moved w n).Behind tokens w := ⟨hr, Nat.zero_add _⟩
  refine ⟨⟨w, hread⟩, ?_⟩
  rw [hread.take_eq]
  exact parse_of_spells hw (Nat.zero_add n ▸ hf.nodes) (Nat.zero_add d ▸ hf.depth)

/-- What the reading of a sum finds wrong points where its cause says. -/
theorem points_of_run {tokens : List Token} {e : SyntaxError}
    (h : (Descent.sum descentFuel).run (.start tokens) = .error (.fault e)) :
    e.position ≤ tokens.length ∧ e.cause.PointsAt tokens e.position := by
  obtain ⟨highest, hruns⟩ := Descent.runs_parse tokens
  rw [h] at hruns
  have hstart : (Cursor.start tokens).Tracks tokens := ⟨[], .start tokens, rfl⟩
  have hcall : (Descent.Code.call Descent.Call.sum).Keeps (Descent.pointing tokens)
      (fun _ _ => True) (.start tokens) := ⟨hstart, fun _ _ _ => trivial⟩
  exact hruns.keeps (fun q c => Descent.keeps_pointing tokens q c) hcall e rfl

/-- **Errors point at what they name.** The index of a syntax error is that of a token or the end of
the tokens, and what its cause says of the tokens there is so. -/
theorem error_points {ts : List Token} {p : Nat} {cause : SyntaxCause}
    (h : parse ts = .error ⟨p, cause⟩) : p ≤ ts.length ∧ cause.PointsAt ts p := by
  generalize he : (⟨p, cause⟩ : SyntaxError) = e at h
  cases refused h with
  | fault hrun =>
    subst he
    exact points_of_run hrun
  | @unmatched t c s after hrun hrest =>
    cases he
    obtain ⟨⟨read, hread⟩, hparse⟩ := parse_of_run hrun
    refine ⟨hread.position_le, ?_, t, hparse⟩
    rw [hread.getElem?_eq, hrest]
    rfl
  | @trailing t c tok after hrun hrest htok =>
    cases he
    obtain ⟨⟨read, hread⟩, hparse⟩ := parse_of_run hrun
    refine ⟨hread.position_le, ⟨tok, ?_, htok⟩, t, hparse⟩
    rw [hread.getElem?_eq, hrest]
    rfl

/-- In `sin[(1]` the last bracket does not close the group, which is the innermost that is open. -/
theorem error_points_mismatched :
    let ts := [.identifier "sin", .opening .square, .opening .round, .number 1, .closing .square]
    parse ts = .error ⟨4, .mismatchedBracket .round .square⟩ ∧
      4 ≤ ts.length ∧ ts[4]? = some (.closing .square) ∧ Bracket.square ≠ .round ∧
      LeavesOpen (ts.take 4) .round := by
  intro ts
  have herror : parse ts = .error ⟨4, .mismatchedBracket .round .square⟩ := rfl
  exact ⟨herror, error_points herror⟩

end DeskCalc
