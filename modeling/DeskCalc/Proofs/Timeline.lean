import DeskCalc.Proofs.Press
import Mathlib.Data.List.Chain

/-!
# The timeline of a session

A history is a walk along a timeline: the past from the oldest display on, the present, and the
future in the order in which redo restores it. Undo and redo move the present and leave the timeline
as it is, so they undo each other, any number of times.

For redo this is so only because the past and the future together never outgrow the limit: then the
present fits into the past again, and nothing is dropped. That bound, and that neighbours on the
timeline differ, is the invariant `History.Sound`; every press keeps it.
-/

namespace DeskCalc

namespace History

variable {α : Type} {limit : Nat} {h : History α}

/-- All values of a history in their order in time. -/
def timeline (h : History α) : List α := h.past.reverse ++ h.present :: h.future

/-- Past and future keep to the limit together, and neighbours in time differ. -/
structure Sound (limit : Nat) (h : History α) : Prop where
  bounded : h.past.length + h.future.length ≤ limit
  distinct : h.timeline.IsChain (· ≠ ·)

theorem sound_start (limit : Nat) (x : α) : Sound limit (start x) :=
  ⟨Nat.zero_le _, .singleton x⟩

/-! ## Steps -/

/-- A redo that can take a value from the future has room for the present in the past. -/
theorem recorded_eq {x : α} {later : List α} (hs : Sound limit h) (hf : h.future = x :: later) :
    h.recorded limit = h.present :: h.past := by
  refine List.take_of_length_le ?_
  have := hs.bounded
  rw [hf, List.length_cons] at this
  rw [List.length_cons]
  omega

theorem present_change [DecidableEq α] (limit : Nat) (h : History α) (x : α) :
    (h.change limit x).present = x := by
  unfold change
  split
  · next heq => exact heq.symm
  · rfl

/-- There is always room for the present, so undo takes a change back. -/
theorem present_undo_change [DecidableEq α] (hl : 1 ≤ limit) {x : α} (hne : x ≠ h.present) :
    (h.change limit x).undo.present = h.present := by
  obtain ⟨k, rfl⟩ : ∃ k, limit = k + 1 := ⟨limit - 1, by omega⟩
  rw [change, if_neg hne]
  rfl

/-- A change leaves a last part of the timeline up to the present, and at least the present, with
the new value behind it unless that is the present. -/
theorem timeline_change [DecidableEq α] (hl : 1 ≤ limit) (h : History α) (x : α) :
    ∃ before, before <:+ h.past.reverse ∧
      (h.change limit x).timeline = before ++ (if x = h.present then [x] else [h.present, x]) := by
  unfold change
  split
  · next heq => exact ⟨h.past.reverse, List.suffix_refl _, by rw [timeline, heq]⟩
  · obtain ⟨k, rfl⟩ : ∃ k, limit = k + 1 := ⟨limit - 1, by omega⟩
    refine ⟨(h.past.take k).reverse, List.reverse_suffix.2 (List.take_prefix k _), ?_⟩
    simp [timeline, recorded]

/-- What holds of all neighbours in time goes on to hold if it holds of the present and the new
value. -/
theorem isChain_change [DecidableEq α] {R : α → α → Prop} (hl : 1 ≤ limit)
    (hc : h.timeline.IsChain R) {x : α} (hx : x ≠ h.present → R h.present x) :
    (h.change limit x).timeline.IsChain R := by
  obtain ⟨before, ⟨dropped, hpast⟩, heq⟩ := timeline_change hl h x
  have hbefore : (before ++ [h.present]).IsChain R := by
    have hall : h.timeline = dropped ++ ((before ++ [h.present]) ++ h.future) := by
      simp [timeline, ← hpast]
    rw [hall] at hc
    exact hc.right_of_append.left_of_append
  rw [heq]
  split
  · next hsame => rwa [hsame]
  · next hne => exact List.isChain_split.2 ⟨hbefore, List.isChain_pair.2 (hx hne)⟩

/-- Nothing but the new value joins the timeline. -/
theorem mem_timeline_change [DecidableEq α] (hl : 1 ≤ limit) {x y : α}
    (hy : y ∈ (h.change limit x).timeline) : y ∈ h.timeline ∨ y = x := by
  obtain ⟨before, hsuffix, heq⟩ := timeline_change hl h x
  have hpresent : h.present ∈ h.timeline := by simp [timeline]
  rw [heq, List.mem_append] at hy
  rcases hy with hy | hy
  · exact .inl (List.mem_append_left _ (hsuffix.mem hy))
  · split at hy
    · exact .inr (List.mem_singleton.1 hy)
    · rcases List.mem_pair.1 hy with rfl | rfl
      · exact .inl hpresent
      · exact .inr rfl

theorem sound_change [DecidableEq α] (hl : 1 ≤ limit) (hs : Sound limit h) (x : α) :
    Sound limit (h.change limit x) := by
  refine ⟨?_, isChain_change hl hs.distinct fun hne => Ne.symm hne⟩
  unfold change
  split
  · exact Nat.le_trans (Nat.le_add_right _ _) hs.bounded
  · exact List.length_take_le limit (h.present :: h.past)

theorem timeline_undo (h : History α) : h.undo.timeline = h.timeline := by
  unfold undo
  split
  · rfl
  · next x earlier hp => simp [timeline, hp]

theorem sound_undo (hs : Sound limit h) : Sound limit h.undo := by
  refine ⟨?_, (timeline_undo h).symm ▸ hs.distinct⟩
  have := hs.bounded
  unfold undo
  split
  · exact this
  · next hp =>
    rw [hp, List.length_cons] at this
    simp only [List.length_cons]
    omega

theorem timeline_redo (hs : Sound limit h) : (h.redo limit).timeline = h.timeline := by
  unfold redo
  split
  · rfl
  · next x later hf => simp [timeline, recorded_eq hs hf, hf]

theorem sound_redo (hs : Sound limit h) : Sound limit (h.redo limit) := by
  refine ⟨?_, (timeline_redo hs).symm ▸ hs.distinct⟩
  have := hs.bounded
  unfold redo
  split
  · exact this
  · next hf =>
    rw [hf, List.length_cons] at this
    simp only [recorded_eq hs hf, List.length_cons]
    omega

theorem past_undo (h : History α) : h.undo.past = h.past.tail := by
  unfold undo
  split
  · next hp => rw [hp]; rfl
  · next hp => rw [hp]; rfl

theorem future_redo (limit : Nat) (h : History α) : (h.redo limit).future = h.future.tail := by
  unfold redo
  split
  · next hf => rw [hf]; rfl
  · next hf => rw [hf]; rfl

/-! ## Undo and redo are inverse -/

theorem redo_undo (hs : Sound limit h) (hp : h.past ≠ []) : h.undo.redo limit = h := by
  obtain ⟨past, present, future⟩ := h
  cases past with
  | nil => exact absurd rfl hp
  | cons x earlier => exact congrArg (History.mk · present future) (recorded_eq (sound_undo hs) rfl)

theorem undo_redo (hs : Sound limit h) (hf : h.future ≠ []) : (h.redo limit).undo = h := by
  obtain ⟨past, present, future⟩ := h
  cases future with
  | nil => exact absurd rfl hf
  | cons x later => simp only [redo, recorded_eq hs rfl, undo]

/-- An undo that changes anything changes the present. -/
theorem present_undo (hs : Sound limit h) (hne : h.undo ≠ h) : h.undo.present ≠ h.present := by
  obtain ⟨past, present, future⟩ := h
  cases past with
  | nil => exact absurd rfl hne
  | cons x earlier =>
    have := hs.distinct
    rw [timeline, List.reverse_cons, List.append_assoc] at this
    exact (List.isChain_cons_cons.1 this.right_of_append).1

/-- A redo that changes anything changes the present. -/
theorem present_redo (hs : Sound limit h) (hne : h.redo limit ≠ h) :
    (h.redo limit).present ≠ h.present := by
  obtain ⟨past, present, future⟩ := h
  cases future with
  | nil => exact absurd rfl hne
  | cons x later => exact (List.isChain_cons_cons.1 hs.distinct.right_of_append).1.symm

end History

namespace Session

/-! ## What is shown -/

theorem display_replace (s : Session) (d : Display) : (s.replace d).display = d :=
  History.present_change _ _ _

theorem display_edit (s : Session) (text : String) : (s.edit text).display = ⟨text, false⟩ :=
  s.display_replace _

/-- A calculation shows its result, or the error marker. -/
theorem display_settle (s : Session) (result : Except CalcError Float) :
    (s.settle result).display =
      match result with
      | .ok x => ⟨formatNumber x, false⟩
      | .error _ => ⟨s.settings.errorMarker, true⟩ := by
  cases result with
  | ok x => exact display_edit _ _
  | error e => exact s.display_replace _

/-! ## Runs -/

/-- The history of a session is sound for the session's limit. -/
def Sound (s : Session) : Prop := s.history.Sound s.limit

theorem one_le_limit (s : Session) : 1 ≤ s.limit := Nat.le_max_right _ _

theorem sound_replace {s : Session} (hs : s.Sound) (d : Display) : (s.replace d).Sound :=
  History.sound_change s.one_le_limit hs d

theorem sound_press {s : Session} (hs : s.Sound) (text : String) : (s.press text).Sound := by
  have h := pressed s text
  generalize s.press text = s' at h
  cases h with
  | kept => exact hs
  | edited text => exact sound_replace hs _
  | stored x m _ _ _ => exact hs
  | settled f _ =>
    unfold settle
    split
    · exact sound_replace hs _
    · exact sound_replace hs _
  | undone => exact History.sound_undo hs
  | redone => exact History.sound_redo hs

theorem sound_run (settings : SessionSettings) (texts : List String) :
    ((start settings).run texts).Sound := by
  have h : (start settings).Sound := History.sound_start _ _
  exact run_keeps (P := Sound) (fun _ text hs => sound_press hs text) h texts

theorem press_undo_redo {s : Session} (hs : s.Sound) (hp : s.history.past ≠ []) :
    (s.press "Undo").press "Redo" = s := by
  rw [press_undo, press_redo]
  exact congrArg (fun h => { s with history := h }) (History.redo_undo hs hp)

theorem press_redo_undo {s : Session} (hs : s.Sound) (hf : s.history.future ≠ []) :
    (s.press "Redo").press "Undo" = s := by
  rw [press_redo, press_undo]
  exact congrArg (fun h => { s with history := h }) (History.undo_redo hs hf)

/-- As many presses of one key as there are values left for it, and as many of the key that takes
one press back, lead back. -/
theorem run_back (left : Session → Nat) {a b : String}
    (hleft : ∀ s : Session, left (s.press a) = left s - 1)
    (hback : ∀ {s : Session}, s.Sound → 0 < left s → (s.press a).press b = s) {s : Session}
    (hs : s.Sound) {k : Nat} (hk : k ≤ left s) :
    s.run (List.replicate k a ++ List.replicate k b) = s := by
  induction k generalizing s with
  | zero => rfl
  | succ k ih =>
    have hk' : k ≤ left (s.press a) := by
      rw [hleft]
      omega
    -- The first `a` and the last `b` stand around a run of the same form.
    rw [List.replicate_succ, List.replicate_succ', ← List.append_assoc, run_append]
    show ((s.press a).run (List.replicate k a ++ List.replicate k b)).press b = s
    rw [ih (sound_press hs a) hk', hback hs (by omega)]

theorem run_undo_redo {s : Session} (hs : s.Sound) {k : Nat} (hk : k ≤ s.history.past.length) :
    s.run (List.replicate k "Undo" ++ List.replicate k "Redo") = s := by
  refine run_back (fun s => s.history.past.length) (fun s => ?_) (fun hs h => ?_) hs hk
  · rw [press_undo]
    show s.history.undo.past.length = _
    rw [History.past_undo, List.length_tail]
  · exact press_undo_redo hs (List.ne_nil_of_length_pos h)

theorem run_redo_undo {s : Session} (hs : s.Sound) {k : Nat} (hk : k ≤ s.history.future.length) :
    s.run (List.replicate k "Redo" ++ List.replicate k "Undo") = s := by
  refine run_back (fun s => s.history.future.length) (fun s => ?_) (fun hs h => ?_) hs hk
  · rw [press_redo]
    show (s.history.redo s.limit).future.length = _
    rw [History.future_redo, List.length_tail]
  · exact press_redo_undo hs (List.ne_nil_of_length_pos h)

/-- Undos and redos, in any order, leave the timeline as it is. -/
theorem timeline_run {s : Session} (hs : s.Sound) {texts : List String}
    (ht : ∀ text ∈ texts, text = "Undo" ∨ text = "Redo") :
    (s.run texts).history.timeline = s.history.timeline := by
  induction texts generalizing s with
  | nil => rfl
  | cons text rest ih =>
    refine (ih (sound_press hs text) fun t h => ht t (List.mem_cons_of_mem _ h)).trans ?_
    rcases ht text List.mem_cons_self with rfl | rfl
    · rw [press_undo]
      exact History.timeline_undo _
    · rw [press_redo]
      exact History.timeline_redo hs

/-- **The timeline of a run.** After any presses, past and future keep to the limit together and
neighbours in time differ. So an undo or redo that does anything shows something else, as many
redos as undos lead back to the same session, as many undos as redos do too, and no undo or redo
drops a display. -/
theorem timeline_of_run (settings : SessionSettings) (texts : List String) :
    let s := (start settings).run texts
    s.history.past.length + s.history.future.length ≤ max settings.historyLimit 1 ∧
      (s.history.timeline.IsChain (· ≠ ·) ∧
        ∀ text, text = "Undo" ∨ text = "Redo" → s.press text ≠ s →
          (s.press text).display ≠ s.display) ∧
      (∀ k, k ≤ s.history.past.length →
        s.run (List.replicate k "Undo" ++ List.replicate k "Redo") = s) ∧
      (∀ k, k ≤ s.history.future.length →
        s.run (List.replicate k "Redo" ++ List.replicate k "Undo") = s) ∧
      ∀ moves : List String, (∀ text ∈ moves, text = "Undo" ∨ text = "Redo") →
        (s.run moves).history.timeline = s.history.timeline := by
  intro s
  have hs : s.Sound := sound_run settings texts
  refine ⟨?_, ⟨hs.distinct, ?_⟩, fun k => run_undo_redo hs, fun k => run_redo_undo hs,
    fun _ => timeline_run hs⟩
  · have := hs.bounded
    rwa [limit, settings_run] at this
  · rintro text (rfl | rfl) hne
    · rw [press_undo] at hne ⊢
      exact History.present_undo hs fun h => hne (congrArg (fun h => { s with history := h }) h)
    · rw [press_redo] at hne ⊢
      exact History.present_redo hs fun h => hne (congrArg (fun h => { s with history := h }) h)

/-- With room for two displays, four digits and an undo leave one to undo and one to redo. -/
theorem timeline_of_four_digits :
    let s := (start ⟨"Error", 2⟩).run ["1", "2", "3", "4", "Undo"]
    (1 ≤ s.history.past.length ∧ 1 ≤ s.history.future.length ∧ s.press "Redo" ≠ s) ∧
      s.run ["Undo", "Redo"] = s ∧ s.run ["Redo", "Undo"] = s ∧
      (s.press "Redo").display ≠ s.display ∧
      (s.run ["Redo", "Undo", "Undo"]).history.timeline = s.history.timeline := by
  intro s
  have hp : 1 ≤ s.history.past.length := by decide +kernel
  have hf : 1 ≤ s.history.future.length := by decide +kernel
  have hd : (s.press "Redo").display ≠ s.display := by decide +kernel
  have hne : s.press "Redo" ≠ s := fun h => hd (congrArg display h)
  obtain ⟨-, ⟨-, hshow⟩, hundo, hredo, hmoves⟩ :=
    timeline_of_run ⟨"Error", 2⟩ ["1", "2", "3", "4", "Undo"]
  exact ⟨⟨hp, hf, hne⟩, hundo 1 hp, hredo 1 hf, hshow "Redo" (.inr rfl) hne,
    hmoves ["Redo", "Undo", "Undo"] (by decide)⟩

end Session

end DeskCalc
