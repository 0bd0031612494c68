import DeskCalc.Proofs.Lexemes

/-!
# Scanning piece by piece

A text is empty, or begins with a blank, a lexeme or a character that starts none (`Front`), and
`scan` follows this view: it drops the blank, keeps the token of the lexeme, or stops. From these
equations `Scans.append` says when a text can be cut in two and scanned piece by piece: if nothing
that ends the first piece is made longer by the second.
-/

namespace DeskCalc

/-! ## The equations of the scan -/

section Equations

variable {found : List Token} {cs after rest : List Char} {c : Char} {t : Token}

theorem scanFrom_blank (front : trimFront cs = []) : scanFrom found cs = (found.reverse, []) := by
  rw [scanFrom]
  split <;> simp_all

theorem scanFrom_read (front : trimFront cs = c :: after)
    (read : lexeme? (c :: after) = some (t, rest)) :
    scanFrom found cs = scanFrom (t :: found) rest := by
  rw [scanFrom]
  split
  · simp_all
  · next front' =>
    rw [front] at front'
    cases front'
    split <;> simp_all

theorem scanFrom_stuck (front : trimFront cs = c :: after) (read : lexeme? (c :: after) = none) :
    scanFrom found cs = (found.reverse, c :: after) := by
  rw [scanFrom]
  split
  · simp_all
  · next front' =>
    rw [front] at front'
    cases front'
    split <;> simp_all

/-- Tokens found earlier only stand in front. -/
theorem scanFrom_append (found more : List Token) (cs : List Char) :
    scanFrom (found ++ more) cs
      = (more.reverse ++ (scanFrom found cs).1, (scanFrom found cs).2) := by
  fun_induction scanFrom found cs with
  | case1 found cs front => rw [scanFrom_blank front, List.reverse_append]
  | case2 found cs c after front t rest read _ ih => rw [scanFrom_read front read, ← ih]; rfl
  | case3 found cs c after front read => rw [scanFrom_stuck front read, List.reverse_append]

theorem scan_blank (front : trimFront cs = []) : scan cs = ([], []) := scanFrom_blank front

theorem scan_read (front : trimFront cs = c :: after)
    (read : lexeme? (c :: after) = some (t, rest)) :
    scan cs = (t :: (scan rest).1, (scan rest).2) := by
  unfold scan
  rw [scanFrom_read front read]
  exact scanFrom_append [] [t] rest

theorem scan_stuck (front : trimFront cs = c :: after) (read : lexeme? (c :: after) = none) :
    scan cs = ([], c :: after) := scanFrom_stuck front read

end Equations

/-! ## The view of a text -/

/-- What stands at the front of a text. -/
inductive Front : List Char → Prop
  | nil : Front []
  | blank {c : Char} {cs : List Char} (hc : isBlank c = true) : Front (c :: cs)
  | lexeme {t : Token} {w x : List Char} (h : Lexeme t w) (hx : Stops w x) : Front (w ++ x)
  | stuck {c : Char} {cs : List Char} (hc : isBlank c = false) (read : lexeme? (c :: cs) = none) :
      Front (c :: cs)

theorem front (cs : List Char) : Front cs := by
  cases cs with
  | nil => exact .nil
  | cons c cs =>
    cases hc : isBlank c with
    | true => exact .blank hc
    | false =>
      cases read : lexeme? (c :: cs) with
      | none => exact .stuck hc read
      | some r =>
        obtain ⟨w, hw, h, hx⟩ := lexeme?_eq_some_iff.1 read
        rw [hw]
        exact .lexeme h hx

/-- Between the space and the next blank lies all of ASCII that is not a control character. -/
theorem isBlank_of_graphic {c : Char} (hlow : 0x20 < c.toNat) (hhigh : c.toNat < 0x85) :
    isBlank c = false := by
  simp only [isBlank, Bool.or_eq_false_iff, Bool.and_eq_false_iff, decide_eq_false_iff_not,
    beq_eq_false_iff_ne]
  omega

theorem isBlank_of_isDigit {c : Char} (h : c.isDigit = true) : isBlank c = false := by
  simp only [Char.isDigit, Bool.and_eq_true, decide_eq_true_eq, UInt32.le_iff_toNat_le, ge_iff_le]
    at h
  have hlow : 48 ≤ c.toNat := h.1
  have hhigh : c.toNat ≤ 57 := h.2
  exact isBlank_of_graphic (by omega) (by omega)

theorem isBlank_of_isAlpha {c : Char} (h : c.isAlpha = true) : isBlank c = false := by
  simp only [Char.isAlpha, Char.isUpper, Char.isLower, Bool.or_eq_true, Bool.and_eq_true,
    decide_eq_true_eq, UInt32.le_iff_toNat_le, ge_iff_le] at h
  have hrange : 65 ≤ c.toNat ∧ c.toNat ≤ 90 ∨ 97 ≤ c.toNat ∧ c.toNat ≤ 122 := h
  exact isBlank_of_graphic (by omega) (by omega)

/-- No lexeme has a blank in it. -/
theorem Lexeme.isBlank {t : Token} {w : List Char} {a : Char} (h : Lexeme t w) (ha : a ∈ w) :
    DeskCalc.isBlank a = false := by
  cases h with
  | number written =>
    rcases written.char ha with hdigit | rfl
    · exact isBlank_of_isDigit hdigit
    · decide
  | name letters _ => exact isBlank_of_isAlpha (letters a ha)
  | symbol listed => exact (symbol_char listed ha).2.2.2

@[simp] theorem scan_nil : scan [] = ([], []) := scan_blank rfl

theorem trimFront_cons {c : Char} {cs : List Char} :
    trimFront (c :: cs) = if isBlank c then trimFront cs else c :: cs := by
  unfold trimFront
  cases hc : isBlank c <;> simp [hc]

theorem scan_cons_blank {c : Char} {cs : List Char} (hc : isBlank c = true) :
    scan (c :: cs) = scan cs := by
  have htrim : trimFront (c :: cs) = trimFront cs := by rw [trimFront_cons, if_pos hc]
  cases hfront : trimFront cs with
  | nil => rw [scan_blank (htrim.trans hfront), scan_blank hfront]
  | cons a after =>
    cases read : lexeme? (a :: after) with
    | none => rw [scan_stuck (htrim.trans hfront) read, scan_stuck hfront read]
    | some r => rw [scan_read (htrim.trans hfront) read, scan_read hfront read]

theorem scan_lexeme {t : Token} {w x : List Char} (h : Lexeme t w) (hx : Stops w x) :
    scan (w ++ x) = (t :: (scan x).1, (scan x).2) := by
  have read := lexeme?_append h hx
  obtain ⟨a, as, rfl⟩ := List.exists_cons_of_ne_nil h.ne_nil
  have hfront : trimFront (a :: as ++ x) = a :: (as ++ x) := by
    rw [List.cons_append, trimFront_cons, if_neg (by simp [h.isBlank List.mem_cons_self])]
  exact scan_read hfront read

/-- Only the star can become a longer symbol. -/
theorem scan_symbol {t : Token} {c : Char} (listed : ([c], t) ∈ symbols) (hc : c ≠ '*')
    (x : List Char) : scan (c :: x) = (t :: (scan x).1, (scan x).2) := by
  have hx : Stops [c] x := (stops_symbol listed).2 fun hw => absurd (List.cons.inj hw).1 hc
  exact scan_lexeme (.symbol listed) hx

theorem scan_cons_stuck {c : Char} {cs : List Char} (hc : isBlank c = false)
    (read : lexeme? (c :: cs) = none) : scan (c :: cs) = ([], c :: cs) :=
  scan_stuck (by rw [trimFront_cons, hc]; rfl) read

/-! ## Texts that are read to their end -/

/-- The tokens of a text of lexemes and blanks, where no lexeme goes on behind itself. -/
inductive Scans : List Char → List Token → Prop
  | nil : Scans [] []
  | blank {c : Char} {cs : List Char} {tokens : List Token} (hc : isBlank c = true)
      (h : Scans cs tokens) : Scans (c :: cs) tokens
  | lexeme {t : Token} {w x : List Char} {tokens : List Token} (hw : Lexeme t w) (hx : Stops w x)
      (h : Scans x tokens) : Scans (w ++ x) (t :: tokens)

theorem Scans.scan_eq {cs : List Char} {tokens : List Token} (h : Scans cs tokens) :
    scan cs = (tokens, []) := by
  induction h with
  | nil => exact scan_nil
  | blank hc _ ih => rw [scan_cons_blank hc, ih]
  | lexeme hw hx _ ih => rw [scan_lexeme hw hx, ih]

theorem scans_of_scan {cs : List Char} {tokens : List Token} (h : scan cs = (tokens, [])) :
    Scans cs tokens := by
  -- By induction on the length: a lexeme can be of more than one character.
  induction hn : cs.length using Nat.strongRecOn generalizing cs tokens with
  | ind n ih =>
    subst hn
    cases front cs with
    | nil =>
      rw [scan_nil] at h
      cases h
      exact .nil
    | blank hc =>
      rw [scan_cons_blank hc] at h
      exact .blank hc (ih _ (by simp) h rfl)
    | @lexeme t w x hw hx =>
      rw [scan_lexeme hw hx] at h
      obtain ⟨rfl, hend⟩ := Prod.mk.inj h
      have hshort : x.length < (w ++ x).length := by
        have := List.length_pos_iff.2 hw.ne_nil
        rw [List.length_append]
        omega
      exact .lexeme hw hx (ih _ hshort (Prod.ext rfl hend) rfl)
    | stuck hc read =>
      rw [scan_cons_stuck hc read] at h
      cases h

/-- Tokenizing succeeds on these texts. -/
theorem tokenize_eq_ok_iff {s : String} {tokens : List Token} :
    tokenize s = .ok tokens ↔ Scans s.toList tokens := by
  refine ⟨fun h => scans_of_scan ?_, fun h => ?_⟩
  · unfold tokenize at h
    split at h
    · next hscan =>
      cases h
      exact hscan
    · cases h
  · unfold tokenize
    rw [h.scan_eq]

/-! ## Scanning in two pieces -/

/-- No lexeme at the end of `p` is made longer by the front of `x`. -/
def Parts (p x : List Char) : Prop := ∀ t w, Lexeme t w → w <:+ p → Stops w x

theorem Parts.of_suffix {p p' x : List Char} (h : Parts p x) (hp : p' <:+ p) : Parts p' x :=
  fun t w hw hsuffix => h t w hw (hsuffix.trans hp)

theorem stops_append {w y x : List Char} (hy : Stops w y) (hx : y = [] → Stops w x) :
    Stops w (y ++ x) := by
  cases y with
  | nil => exact hx rfl
  | cons c y => exact hy

/-- A text that is read to its end keeps its tokens in front of any other text that does not make
its last lexeme longer. -/
theorem Scans.append {p x : List Char} {tokens : List Token} (h : Scans p tokens)
    (hx : Parts p x) : scan (p ++ x) = (tokens ++ (scan x).1, (scan x).2) := by
  induction h with
  | nil => rfl
  | @blank c p tokens hc _ ih =>
    rw [List.cons_append, scan_cons_blank hc]
    exact ih (hx.of_suffix (List.suffix_cons c p))
  | @lexeme t w y tokens hw hy _ ih =>
    have hstops : Stops w (y ++ x) := stops_append hy fun hnil =>
      hx t w hw ⟨[], by rw [hnil, List.append_nil, List.nil_append]⟩
    rw [List.append_assoc, scan_lexeme hw hstops, ih (hx.of_suffix (List.suffix_append w y)),
      List.cons_append]

end DeskCalc
