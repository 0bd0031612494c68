import DeskCalc.Proofs.VariableNames

/-!
# Two ways to read the settings of a session

The settings of a session can be read alone or as a part of those of the console.

**Theorem (`settings_agree`).** Whenever both ways succeed they give the same settings. If only the
way alone succeeds, a variable sets the output to something that is no name of a format. If only the
way through the console succeeds, no variable sets anything in the group of the session, and the
settings are the defaults.

This holds for every loader. Both ways read the same table, so they part only where a group is missing
or another setting cannot be read. What that says about the variables follows from `lookup_fields` and
`lookup_fields_ne_none`: the value of a group in the table is the join of what the variables set
there, and there is one as soon as one variable sets something. Which variables these are is said by
`Names`, not by the function that reads their names.
-/

namespace DeskCalc

/-- The value is the text `plain` or the text `json`. -/
def Entry.NamesFormat (value : Entry) : Prop := value = .text "plain" ∨ value = .text "json"

namespace Loader

variable (load : Loader)

/-- The name of a format takes the place of what is there. -/
theorem merge_namesFormat {value : Entry} (h : value.NamesFormat) (earlier : Option Entry) :
    load.merge earlier value = value := by
  refine load.merge_of_not_table earlier value fun fields hfields => ?_
  rcases h with rfl | rfl <;> cases hfields

/-- The name of a format is read. -/
theorem output_namesFormat {value : Entry} (h : value.NamesFormat) :
    ∃ format, load.output value = .ok format := by
  rcases h with rfl | rfl
  · exact ⟨_, load.output_name .plain⟩
  · exact ⟨_, load.output_name .json⟩

end Loader

namespace Environment

variable {load : Loader} {env : Environment}

/-- A variable sets a value at a path. -/
def Sets (load : Loader) (env : Environment) (path : List String) (value : Entry) : Prop :=
  ∃ p ∈ env.assigned, Names p.1 path ∧ load.value p.2 = value

/-! ## The table -/

/-- The fields of the table with what one more variable sets: its value joins the one of its group. -/
def assignField (load : Loader) (fields : List (String × Entry)) (p : String × String) :
    List (String × Entry) :=
  match settingPath? p.1 with
  | some (group :: rest) =>
    put group (load.merge (fields.lookup group) ((load.value p.2).nest rest)) fields
  | _ => fields

theorem assignField_eq {p : String × String} {group : String} {rest : List String}
    (h : Names p.1 (group :: rest)) (fields : List (String × Entry)) :
    assignField load fields p =
      put group (load.merge (fields.lookup group) ((load.value p.2).nest rest)) fields := by
  simp only [assignField, settingPath?_eq_some_iff.2 h]

theorem assignField_eq_self {p : String × String} (h : settingPath? p.1 = none)
    (fields : List (String × Entry)) : assignField load fields p = fields := by
  simp only [assignField, h]

/-- The fields of the table that the variables of an environment set together. -/
def fields (load : Loader) (env : Environment) : List (String × Entry) :=
  env.assigned.foldl (assignField load) []

theorem assign_table (fields : List (String × Entry)) (p : String × String) :
    assign load (.table fields) p = .table (assignField load fields p) := by
  unfold assign
  cases hpath : settingPath? p.1 with
  | none => rw [assignField_eq_self hpath]
  | some path =>
    have hnames := settingPath?_eq_some_iff.1 hpath
    obtain ⟨group, rest, rfl⟩ := hnames.exists_cons
    rw [assignField_eq hnames]
    exact load.merge_field fields group _

theorem settings_eq (load : Loader) (env : Environment) :
    env.settings load = .table (env.fields load) :=
  List.foldl_hom Entry.table assign_table

/-- What one variable does to a group: it joins its value if its path begins there. -/
theorem lookup_assignField (fields : List (String × Entry)) (p : String × String) (group : String) :
    (assignField load fields p).lookup group = fields.lookup group ∨
      ∃ rest, Names p.1 (group :: rest) ∧ (assignField load fields p).lookup group =
        some (load.merge (fields.lookup group) ((load.value p.2).nest rest)) := by
  cases hpath : settingPath? p.1 with
  | none => exact .inl (congrArg _ (assignField_eq_self hpath fields))
  | some path =>
    have hnames := settingPath?_eq_some_iff.1 hpath
    obtain ⟨first, rest, rfl⟩ := hnames.exists_cons
    rw [assignField_eq hnames]
    by_cases hfirst : first = group
    · subst hfirst
      exact .inr ⟨rest, hnames, lookup_put_self _ _ _⟩
    · exact .inl (lookup_put_of_ne _ _ (Ne.symm hfirst))

/-- What holds of no value, and goes on to hold when a variable joins its value, holds of the value of
a group. -/
theorem lookup_fields {P : Option Entry → Prop} {group : String} (hnone : P none)
    (hset : ∀ rest value earlier, env.Sets load (group :: rest) value → P earlier →
      P (some (load.merge earlier (value.nest rest)))) : P ((env.fields load).lookup group) := by
  have hstart : P (([] : List (String × Entry)).lookup group) := hnone
  refine List.foldlRecOn (motive := fun fields => P (fields.lookup group)) env.assigned
    (assignField load) hstart fun fields hfields p hp => ?_
  rcases lookup_assignField fields p group with hkept | ⟨rest, hnames, hjoined⟩
  · rwa [hkept]
  · rw [hjoined]
    exact hset rest _ _ ⟨p, hp, hnames, rfl⟩ hfields

/-- A group where a variable sets something has a value. -/
theorem lookup_fields_ne_none {group : String} {rest : List String} {value : Entry}
    (h : env.Sets load (group :: rest) value) : (env.fields load).lookup group ≠ none := by
  obtain ⟨p, hp, hnames, -⟩ := h
  obtain ⟨before, after, hassigned⟩ := List.append_of_mem hp
  rw [fields, hassigned, List.foldl_append, List.foldl_cons]
  refine List.foldlRecOn (motive := fun fields => fields.lookup group ≠ none) after
    (assignField load) ?_ fun fields hfields q _ => ?_
  · rw [assignField_eq hnames, lookup_put_self]
    simp
  · rcases lookup_assignField fields q group with hkept | ⟨_, _, hjoined⟩
    · rwa [hkept]
    · rw [hjoined]
      simp

/-! ## The settings of the console -/

/-- The output format of the console. -/
def outputFormat (load : Loader) (env : Environment) : Except SettingsError OutputFormat :=
  readField load.output .plain ((env.fields load).lookup "output")

/-- The settings of a session as a part of those of the console. -/
def sessionPart (load : Loader) (env : Environment) : Except SettingsError SessionSettings :=
  readField load.session {} ((env.fields load).lookup sessionGroup)

/-- The console is set up if and only if both its parts can be read. -/
theorem consoleSettings_eq_ok_iff {settings : ConsoleSettings} :
    env.consoleSettings load = .ok settings ↔
      env.outputFormat load = .ok settings.output ∧
        env.sessionPart load = .ok settings.session := by
  unfold consoleSettings
  rw [settings_eq]
  exact load.console_table _ settings

/-- An output that cannot be read is set by a variable, and not to the name of a format. -/
theorem sets_of_outputFormat {e : SettingsError} (h : env.outputFormat load = .error e) :
    ∃ rest value, env.Sets load ("output" :: rest) value ∧ ¬ (rest = [] ∧ value.NamesFormat) := by
  -- Either some variable sets something else, or the value so far is the name of a format.
  have hvalue : (∃ rest value, env.Sets load ("output" :: rest) value ∧
        ¬ (rest = [] ∧ value.NamesFormat)) ∨
      ∀ value, (env.fields load).lookup "output" = some value → value.NamesFormat := by
    refine lookup_fields (P := fun joined => _ ∨ ∀ value, joined = some value → value.NamesFormat)
      (.inr fun _ hnone => absurd hnone (Option.some_ne_none _).symm) ?_
    intro rest value earlier hset _
    by_cases hnames : rest = [] ∧ value.NamesFormat
    · obtain ⟨rfl, hformat⟩ := hnames
      refine .inr fun joined hjoined => ?_
      rw [← Option.some.inj hjoined, Entry.nest, load.merge_namesFormat hformat]
      exact hformat
    · exact .inl ⟨rest, value, hset, hnames⟩
  refine hvalue.resolve_right fun hnames => ?_
  unfold outputFormat at h
  cases hlookup : (env.fields load).lookup "output" with
  | none =>
    rw [hlookup] at h
    cases h
  | some value =>
    obtain ⟨format, hformat⟩ := load.output_namesFormat (hnames value hlookup)
    rw [hlookup, readField, hformat] at h
    cases h

/-- Within the settings of the console a group that is missing has its defaults; else both ways read
the same. -/
theorem sessionPart_cases (load : Loader) (env : Environment) :
    env.sessionPart load = env.sessionSettings load ∨
      (∀ rest value, ¬ env.Sets load (sessionGroup :: rest) value) ∧
        (∃ e, env.sessionSettings load = .error e) ∧ env.sessionPart load = .ok {} := by
  unfold sessionPart sessionSettings
  rw [settings_eq]
  cases hlookup : (env.fields load).lookup sessionGroup with
  | none =>
    exact .inr ⟨fun _ _ hset => lookup_fields_ne_none hset hlookup,
      load.sessionAt_of_none _ _ hlookup, rfl⟩
  | some value => exact .inl (load.sessionAt_of_some _ _ value hlookup).symm

/-- **The two ways to read the settings of a session agree.** What is read alone is also read as a part
of the settings of the console, unless these cannot be read, and then a variable sets the output to
something that is no name of a format. What is read as a part is also read alone, unless no variable
sets anything in the group, and then reading it alone fails and the part has the defaults. -/
theorem settings_agree (load : Loader) (env : Environment) :
    (∀ settings, env.sessionSettings load = .ok settings →
      (∃ output, env.consoleSettings load = .ok ⟨output, settings⟩) ∨
        (∃ e, env.consoleSettings load = .error e) ∧
          ∃ rest value, env.Sets load ("output" :: rest) value ∧
            ¬ (rest = [] ∧ value.NamesFormat)) ∧
      ∀ output settings, env.consoleSettings load = .ok ⟨output, settings⟩ →
        env.sessionSettings load = .ok settings ∨
          (∀ rest value, ¬ env.Sets load ("engine" :: rest) value) ∧
            (∃ e, env.sessionSettings load = .error e) ∧ settings = {} := by
  constructor
  · intro settings halone
    have hpart : env.sessionPart load = .ok settings := by
      rcases sessionPart_cases load env with hsame | ⟨-, ⟨e, hfails⟩, -⟩
      · rw [hsame, halone]
      · rw [halone] at hfails
        cases hfails
    cases houtput : env.outputFormat load with
    | ok output => exact .inl ⟨output, consoleSettings_eq_ok_iff.2 ⟨houtput, hpart⟩⟩
    | error e =>
      refine .inr ⟨?_, sets_of_outputFormat houtput⟩
      cases hconsole : env.consoleSettings load with
      | error e => exact ⟨e, rfl⟩
      | ok console =>
        have hread := (consoleSettings_eq_ok_iff.1 hconsole).1
        rw [houtput] at hread
        cases hread
  · intro output settings hconsole
    have hpart : env.sessionPart load = .ok settings := (consoleSettings_eq_ok_iff.1 hconsole).2
    rcases sessionPart_cases load env with hsame | ⟨hunset, hfails, hdefault⟩
    · exact .inl (hsame ▸ hpart)
    · exact .inr ⟨hunset, hfails, Except.ok.inj (hpart.symm.trans hdefault)⟩

/-- Settings in the group are read alike both ways. A list in place of the group is read alone, and not
beside an output `xml`, which is set for that reason. Beside an output and a setting that is unknown
the group has its defaults, and it cannot be read alone. -/
theorem settings_agree_list_and_defaults :
    let grouped := ofAssignments
      [("APP_ENGINE_ERROR_MARKER", "Oops"), ("app_engine_History_Limit", "3"), ("APP_OUTPUT", "json")]
    let listed := ofAssignments [("APP_ENGINE", "[Oops, 3]"), ("app_output", "xml")]
    let unset := ofAssignments [("APP_OUTPUT", "\"json\""), ("APP_EXTRA", "1")]
    (grouped.Sets .standard ["engine", "history_limit"] (.whole 3) ∧
        grouped.sessionSettings .standard = .ok ⟨"Oops", 3⟩ ∧
        ∃ output, grouped.consoleSettings .standard = .ok ⟨output, "Oops", 3⟩) ∧
      (listed.sessionSettings .standard = .ok ⟨"Oops", 3⟩ ∧
        ∃ rest value, listed.Sets .standard ("output" :: rest) value ∧
          ¬ (rest = [] ∧ value.NamesFormat)) ∧
      unset.consoleSettings .standard = .ok ⟨.json, {}⟩ ∧
        (∀ rest value, ¬ unset.Sets .standard ("engine" :: rest) value) ∧
        ∃ e, unset.sessionSettings .standard = .error e := by
  intro grouped listed unset
  have hlimit : grouped.Sets .standard ["engine", "history_limit"] (.whole 3) := by
    refine ⟨("app_engine_History_Limit", "3"), .tail _ (.head _), ?_, rfl⟩
    exact settingPath?_eq_some_iff.1 (by decide +kernel)
  have hgroup : grouped.sessionSettings .standard = .ok ⟨"Oops", 3⟩ := by decide +kernel
  have hwritten : grouped.consoleSettings .standard = .ok ⟨.json, "Oops", 3⟩ := by decide +kernel
  have hlist : listed.sessionSettings .standard = .ok ⟨"Oops", 3⟩ := by decide +kernel
  have hrefused : listed.consoleSettings .standard = .error (.badValue "output") := by decide +kernel
  have hconsole : unset.consoleSettings .standard = .ok ⟨.json, {}⟩ := by decide +kernel
  have hmissing : unset.sessionSettings .standard = .error (.nothingSet "engine") := by
    decide +kernel
  have hgrouped := ((settings_agree .standard grouped).1 _ hgroup).resolve_right
    fun ⟨⟨_, herror⟩, _⟩ => by cases hwritten.symm.trans herror
  have hlisted := ((settings_agree .standard listed).1 _ hlist).resolve_left fun ⟨_, hok⟩ => by
    cases hrefused.symm.trans hok
  have hunset := ((settings_agree .standard unset).2 _ _ hconsole).resolve_left fun hok => by
    cases hmissing.symm.trans hok
  exact ⟨⟨hlimit, hgroup, hgrouped⟩, ⟨hlist, hlisted.2⟩, hconsole, hunset.1, hunset.2.1⟩

end Environment

end DeskCalc
