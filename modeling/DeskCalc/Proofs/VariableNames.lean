import DeskCalc.Settings.Environment
import Mathlib.Data.List.Basic
import Mathlib.Data.List.DropRight

/-!
# The names of variables

`Names name path` says which names set something, and where: such a name is `APP_` in any case, and
behind it are the parts of the path, with points between them. The first underscore stands for a
point, so it parts the group from the setting in it. No part is empty.

**Theorem (`settingPath?_eq_some_iff`).** `settingPath?` finds the path of a name by this rule and no
other. It trims behind the change of the underscore and cuts at the points one character at a time;
the rule does neither.
-/

namespace DeskCalc

/-! ## The rule -/

/-- The parts of a name behind its start: points are between them, and so is the first underscore. -/
inductive NameParts : List Char → List (List Char) → Prop
  | pointed {cs : List Char} : '_' ∉ cs → NameParts cs (cs.splitOn '.')
  | grouped {group setting : List Char} : '_' ∉ group →
      NameParts (group ++ '_' :: setting) (group.splitOn '.' ++ setting.splitOn '.')

/-- A variable of this name sets something at the path. -/
def Names (name : String) (path : List String) : Prop :=
  ∃ cs parts, (trim name.toList).map Char.toLower = "app_".toList ++ cs ∧
    NameParts (trim cs) parts ∧ [] ∉ parts ∧ path = parts.map String.ofList

/-! ## Points -/

theorem pointForUnderscore_of_notMem {cs : List Char} (h : '_' ∉ cs) :
    pointForUnderscore cs = cs := by
  induction cs with
  | nil => rfl
  | cons c cs ih =>
    obtain ⟨hc, hcs⟩ := not_or.1 (mt List.mem_cons.2 h)
    rw [pointForUnderscore, if_neg (Ne.symm hc), ih hcs]

theorem pointForUnderscore_append {group : List Char} (h : '_' ∉ group) (setting : List Char) :
    pointForUnderscore (group ++ '_' :: setting) = group ++ '.' :: setting := by
  induction group with
  | nil => rfl
  | cons c group ih =>
    obtain ⟨hc, hgroup⟩ := not_or.1 (mt List.mem_cons.2 h)
    rw [List.cons_append, pointForUnderscore, if_neg (Ne.symm hc), ih hgroup, List.cons_append]

/-- The parts of a name stand between the points that it then has. -/
theorem nameParts_iff {cs : List Char} {parts : List (List Char)} :
    NameParts cs parts ↔ parts = (pointForUnderscore cs).splitOn '.' := by
  constructor
  · rintro (h | h)
    · rw [pointForUnderscore_of_notMem h]
    · rw [pointForUnderscore_append h, List.splitOn_append_cons_self]
  · rintro rfl
    by_cases h : '_' ∈ cs
    · obtain ⟨group, setting, rfl, hgroup⟩ := List.eq_append_cons_of_mem h
      rw [pointForUnderscore_append hgroup, List.splitOn_append_cons_self]
      exact .grouped hgroup
    · rw [pointForUnderscore_of_notMem h]
      exact .pointed h

theorem partsFrom_eq (current cs : List Char) :
    partsFrom current cs = (cs.splitOn '.').modifyHead (current.reverse ++ ·) := by
  induction cs generalizing current with
  | nil => rw [partsFrom, List.splitOn_nil, List.modifyHead_cons, List.append_nil]
  | cons c cs ih =>
    rw [partsFrom, List.splitOn_cons_eq_if_modifyHead]
    by_cases hc : c = '.'
    · rw [if_pos hc, if_pos (beq_iff_eq.2 hc), ih, List.modifyHead_cons, List.append_nil]
      exact congrArg (current.reverse :: ·) (by cases cs.splitOn '.' <;> rfl)
    · rw [if_neg hc, if_neg (mt beq_iff_eq.1 hc), ih, List.modifyHead_modifyHead]
      exact congrArg (List.modifyHead · _) (funext fun part => by simp)

theorem partsFrom_nil (cs : List Char) : partsFrom [] cs = cs.splitOn '.' := by
  rw [partsFrom_eq]
  cases cs.splitOn '.' <;> rfl

/-! ## Blanks at the ends -/

theorem isBlank_underscore : isBlank '_' = false := by decide

theorem isBlank_point : isBlank '.' = false := by decide

theorem trimFront_pointForUnderscore (cs : List Char) :
    trimFront (pointForUnderscore cs) = pointForUnderscore (trimFront cs) := by
  induction cs with
  | nil => rfl
  | cons c cs ih =>
    by_cases hc : c = '_'
    · subst hc
      rfl
    · have hcons : pointForUnderscore (c :: cs) = c :: pointForUnderscore cs := by
        rw [pointForUnderscore, if_neg hc]
      unfold trimFront at ih ⊢
      rw [hcons, List.dropWhile_cons, List.dropWhile_cons]
      split
      · exact ih
      · exact hcons.symm

/-- The last character is the same, unless it is the first underscore. -/
theorem pointForUnderscore_snoc (cs : List Char) (c : Char) :
    pointForUnderscore (cs ++ [c])
      = pointForUnderscore cs ++ [if c = '_' ∧ '_' ∉ cs then '.' else c] := by
  induction cs with
  | nil => by_cases hc : c = '_' <;> simp [pointForUnderscore, hc]
  | cons a cs ih =>
    by_cases ha : a = '_'
    · simp [pointForUnderscore, ha]
    · simp [pointForUnderscore, ha, Ne.symm ha, ih]

theorem trimBack_pointForUnderscore (cs : List Char) :
    trimBack (pointForUnderscore cs) = pointForUnderscore (trimBack cs) := by
  have htrim : ∀ ds, trimBack ds = ds.rdropWhile isBlank := fun _ => rfl
  simp only [htrim]
  induction cs using List.reverseRecOn with
  | nil => rfl
  | append_singleton cs c ih =>
    rw [pointForUnderscore_snoc, List.rdropWhile_concat, List.rdropWhile_concat]
    by_cases hc : c = '_' ∧ '_' ∉ cs
    · obtain ⟨rfl, hcs⟩ := hc
      have hlast : (if '_' = '_' ∧ '_' ∉ cs then '.' else '_') = '.' := if_pos ⟨rfl, hcs⟩
      rw [hlast, if_neg (Bool.eq_false_iff.1 isBlank_point),
        if_neg (Bool.eq_false_iff.1 isBlank_underscore), pointForUnderscore_snoc, hlast]
    · rw [if_neg hc]
      split
      · exact ih
      · rw [pointForUnderscore_snoc, if_neg hc]

theorem trim_pointForUnderscore (cs : List Char) :
    trim (pointForUnderscore cs) = pointForUnderscore (trim cs) := by
  rw [trim, trim, trimFront_pointForUnderscore, trimBack_pointForUnderscore]

/-! ## Paths -/

/-- **The path of a name is found by the rule.** -/
theorem settingPath?_eq_some_iff {name : String} {path : List String} :
    settingPath? name = some path ↔ Names name path := by
  have hstart : "app_".toList = variableStart := rfl
  unfold settingPath? Names
  rw [hstart]
  generalize (trim name.toList).map Char.toLower = lower
  dsimp only
  constructor
  · intro h
    split at h
    · next hprefix =>
      obtain ⟨cs, rfl⟩ := List.isPrefixOf_iff_prefix.1 hprefix
      rw [List.drop_left, partsFrom_nil, trim_pointForUnderscore] at h
      split at h
      · cases h
      · next hany =>
        refine ⟨cs, _, rfl, nameParts_iff.2 rfl, fun hmem => hany ?_, (Option.some.inj h).symm⟩
        exact List.any_eq_true.2 ⟨[], hmem, rfl⟩
    · cases h
  · rintro ⟨cs, parts, rfl, hparts, hempty, rfl⟩
    obtain rfl := nameParts_iff.1 hparts
    have hany : ¬ ((pointForUnderscore (trim cs)).splitOn '.').any List.isEmpty = true := by
      rw [List.any_eq_true]
      rintro ⟨part, hpart, hnil⟩
      exact hempty (List.isEmpty_iff.1 hnil ▸ hpart)
    rw [if_pos (List.isPrefixOf_iff_prefix.2 ⟨cs, rfl⟩), List.drop_left, partsFrom_nil,
      trim_pointForUnderscore, if_neg hany]

/-- A path begins with the name of a group. -/
theorem Names.exists_cons {name : String} {path : List String} (h : Names name path) :
    ∃ group rest, path = group :: rest := by
  obtain ⟨cs, parts, -, hparts, -, rfl⟩ := h
  refine List.exists_cons_of_ne_nil (mt List.map_eq_nil_iff.1 ?_)
  rw [nameParts_iff.1 hparts]
  exact List.splitOn_ne_nil _ _

example : settingPath? "app_Engine_HISTORY_LIMIT" = some ["engine", "history_limit"] := by
  decide +kernel

end DeskCalc
