import EntityTable.Proofs.Entries
import EntityTable.Proofs.Outcome
import EntityTable.Settings

/-!
Settings from variables. A variable has the value that the environment holds, be it empty, and else
the value that the file gives it; every setting comes from the variable of its own.
-/

namespace EntityTable

namespace Settings

/-! ### Adding the variables of a file -/

/-- The package adds the variables of a file that the environment does not hold, and changes none
that it holds. -/
def Adds (readVariables : VariableReader) (environment file : Environment) : Prop :=
  ∃ completed, (readVariables environment).outcome = .ok completed ∧
    ∀ name, completed.get? name = (environment.get? name).or (file.get? name)

/-- The value of a variable. -/
def valueInForce (environment file : Environment) (name : Text) : Option Text :=
  (environment.get? name).or (file.get? name)

/-- A package that finds the variables of a file. -/
def readerOf (file : Environment) : VariableReader := fun environment =>
  pure (environment ++ file.without environment.keys)

theorem adds_readerOf (environment file : Environment) :
    Adds (readerOf file) environment file := by
  refine ⟨_, rfl, fun name => ?_⟩
  rw [Entries.get?_append, Entries.get?_without]
  by_cases hname : name ∈ environment.keys
  · obtain ⟨value, hvalue⟩ := Entries.exists_get?_of_mem_keys hname
    rw [hvalue, Option.some_or, Option.some_or]
  · rw [if_neg hname]

variable {readVariables : VariableReader} {environment file : Environment}

/-! ### What the variables say -/

/-- A path, which is the fallback for a variable that is absent or empty. -/
def pathOf (fallback : Path) : Option Text → Path
  | none | some [] => fallback
  | some value => Path.ofText value

/-- An indentation, none for a variable that is absent or empty. -/
def SaysIndent (indent : Option Int) : Option Text → Prop
  | none | some [] => indent = none
  | some value => ∃ width, value.readInteger = .ok width ∧ indent = some width

/-- A variable that is set to what is no integer. -/
def NoIndent (found : Option Text) (value : Text) : Prop :=
  found = some value ∧ value ≠ [] ∧ ∀ width, value.readInteger ≠ .ok width

/-- Settings as the variables say, each from its own. -/
structure SaidBy (valueOf : Text → Option Text) (s : Settings) : Prop where
  input : s.input = pathOf default.input (valueOf inputVariable)
  output : s.output = pathOf default.output (valueOf outputVariable)
  indent : SaysIndent s.indent (valueOf indentVariable)
  sortKeys : s.sortKeys = true ↔
    ∃ value, valueOf sortKeysVariable = some value ∧ value.toAsciiLower ∈ affirmatives

variable {s : Settings} {fault : SettingsFault}

/-- A variable counts if it is there and not empty. -/
theorem valueOf?_cases (completed : Environment) (name : Text) :
    valueOf? completed name = none ∧
        (completed.get? name = none ∨ completed.get? name = some []) ∨
      ∃ c rest, valueOf? completed name = some (c :: rest) ∧
        completed.get? name = some (c :: rest) := by
  unfold valueOf?
  cases completed.get? name with
  | none => exact .inl ⟨rfl, .inl rfl⟩
  | some value =>
    cases value with
    | nil => exact .inl ⟨rfl, .inr rfl⟩
    | cons c rest => exact .inr ⟨c, rest, rfl, rfl⟩

theorem indentOf_eq_ok_iff {value : Text} {width : Int} :
    indentOf value = .ok width ↔ value.readInteger = .ok width := mapError_eq_ok_iff

theorem indentOf_eq_error_iff {value : Text} : indentOf value = .error fault ↔
    (∀ width, value.readInteger ≠ .ok width) ∧ fault = .indentVariable value := by
  unfold indentOf
  cases value.readInteger <;> simp [Except.mapError, eq_comm]

section Completed

variable {completed : Environment}

theorem getD_map_valueOf? (completed : Environment) (name : Text) (fallback : Path) :
    ((valueOf? completed name).map Path.ofText).getD fallback =
      pathOf fallback (completed.get? name) := by
  rcases valueOf?_cases completed name with ⟨hvalue, hnone | hempty⟩ | ⟨c, rest, hvalue, hset⟩
  · rw [hvalue, hnone]
    rfl
  · rw [hvalue, hempty]
    rfl
  · rw [hvalue, hset]
    rfl

theorem indent_eq_ok_iff {indent : Option Int} :
    (valueOf? completed indentVariable).mapM indentOf = .ok indent ↔
      SaysIndent indent (completed.get? indentVariable) := by
  have hnone : (Except.ok none : Except SettingsFault (Option Int)) = .ok indent ↔ indent = none :=
    ⟨fun h => (Except.ok.inj h).symm, fun h => congrArg _ h.symm⟩
  rcases valueOf?_cases completed indentVariable with
    ⟨hvalue, habsent | hempty⟩ | ⟨c, rest, hvalue, hset⟩
  · rw [hvalue, habsent]
    exact hnone
  · rw [hvalue, hempty]
    exact hnone
  · rw [hvalue, hset]
    show (indentOf (c :: rest)).map some = .ok indent ↔
      ∃ width, Text.readInteger (c :: rest) = .ok width ∧ indent = some width
    simp only [map_eq_ok_iff, indentOf_eq_ok_iff, eq_comm (a := indent)]

theorem indent_eq_error_iff :
    (valueOf? completed indentVariable).mapM indentOf = .error fault ↔
      ∃ value, NoIndent (completed.get? indentVariable) value ∧ fault = .indentVariable value := by
  rcases valueOf?_cases completed indentVariable with
    ⟨hvalue, hunset⟩ | ⟨c, rest, hvalue, hset⟩
  · rw [hvalue]
    constructor
    · intro h
      cases h
    · rintro ⟨value, ⟨hfound, hne, -⟩, -⟩
      rcases hunset with habsent | hempty
      · exact absurd (habsent.symm.trans hfound) nofun
      · exact absurd (Option.some.inj (hempty.symm.trans hfound)).symm hne
  · rw [hvalue, hset]
    show (indentOf (c :: rest)).map some = .error fault ↔ _
    simp [NoIndent, map_eq_error_iff, indentOf_eq_error_iff]

theorem sortKeys_iff : (match valueOf? completed sortKeysVariable with
      | none => default.sortKeys
      | some value => affirmatives.contains value.toAsciiLower) = true ↔
    ∃ value, completed.get? sortKeysVariable = some value ∧
      value.toAsciiLower ∈ affirmatives := by
  rcases valueOf?_cases completed sortKeysVariable with
    ⟨hvalue, habsent | hempty⟩ | ⟨c, rest, hvalue, hset⟩
  · simp [hvalue, habsent, default]
  · simp +decide [hvalue, hempty, default, affirmatives, Text.toAsciiLower]
  · simp [hvalue, hset]

theorem ofEnvironment_eq_ok_iff :
    ofEnvironment completed = .ok s ↔ SaidBy completed.get? s := by
  unfold ofEnvironment
  constructor
  · intro h
    obtain ⟨indent, hindent, h⟩ := bind_eq_ok_iff.mp h
    obtain rfl := Except.ok.inj h
    exact ⟨getD_map_valueOf? .., getD_map_valueOf? .., indent_eq_ok_iff.mp hindent, sortKeys_iff⟩
  · intro h
    refine bind_eq_ok_iff.mpr ⟨s.indent, indent_eq_ok_iff.mpr h.indent, congrArg Except.ok ?_⟩
    rw [getD_map_valueOf?, getD_map_valueOf?, ← h.input, ← h.output]
    exact congrArg (Settings.mk s.input s.output s.indent)
      (Bool.eq_iff_iff.mpr (sortKeys_iff.trans h.sortKeys.symm))

theorem ofEnvironment_eq_error_iff : ofEnvironment completed = .error fault ↔
    ∃ value, NoIndent (completed.get? indentVariable) value ∧ fault = .indentVariable value := by
  rw [← indent_eq_error_iff, ofEnvironment, bind_eq_error_iff]
  simp [pure, Except.pure]

end Completed

/-- Settings are refused only for their indentation. -/
theorem load_eq_error_iff (h : Adds readVariables environment file) :
    (load readVariables environment).outcome = .error fault ↔
      ∃ value, NoIndent (valueInForce environment file indentVariable) value ∧
        fault = .indentVariable value := by
  obtain ⟨completed, hcompleted, hvalue⟩ := h
  rw [valueInForce, ← hvalue, load, Logged.outcome_bind, Logged.mapError, hcompleted]
  exact ofEnvironment_eq_error_iff

theorem load_eq_ok_iff (h : Adds readVariables environment file) :
    (load readVariables environment).outcome = .ok s ↔
      SaidBy (valueInForce environment file) s := by
  obtain ⟨completed, hcompleted, hvalue⟩ := h
  have hinForce : valueInForce environment file = completed.get? :=
    funext fun name => (hvalue name).symm
  rw [hinForce, load, Logged.outcome_bind, Logged.mapError, hcompleted]
  exact ofEnvironment_eq_ok_iff

end Settings
end EntityTable
