import EntityTable.Proofs.CommandLine.Status
import EntityTable.Proofs.CommandLine.Uses

/-!
Where the settings of a compilation come from, and what a run makes of them. The command line comes
before the environment, the environment before the file, and the file before what is fixed, for each
setting on its own.
-/

namespace EntityTable.CommandLine.Compile

open Settings (Adds NoIndent SaidBy SaysIndent valueInForce)

/-! ### What the options set -/

variable {argv : List Text} {args : Arguments}

theorem setIndent_eq_ok_iff {value : Option Text} {next : Arguments} :
    ((fun indent => { args with indent }) <$> Argument.ofInteger value : Except Text Arguments) =
        .ok next ↔
      ∃ indent, Argument.ofInteger value = .ok indent ∧ { args with indent } = next :=
  map_eq_ok_iff

/-- The arguments that are read from a command line, each set by its own option. -/
structure Arguments.SetBy (given : Text → Option (Option Text)) (args : Arguments) : Prop where
  input : Ends (fun value input => input = Argument.ofPath value) .absent (given "--input")
    args.input
  output : Ends (fun value output => output = Argument.ofPath value) .absent (given "--output")
    args.output
  indent : Ends (fun value indent => Argument.ofInteger value = .ok indent) .absent
    (given "--indent") args.indent
  sortKeys : Ends (fun _ sortKeys => sortKeys = true) false (given "--sort-keys") args.sortKeys
  verbose : Ends (fun _ verbose => verbose = true) false (given "--verbose") args.verbose

theorem setBy_of_parse (h : parse options initial argv = .ok args) :
    args.SetBy (given options argv) := by
  have hends {β : Type} (name : Text) (field : Arguments → β) {Made : Option Text → β → Prop}
      (hf : ∀ spec ∈ options, spec.SetsOnly name field Made) :
      Ends Made (field initial) (given options argv name) (field args) := ends_parse hf h
  refine ⟨hends "--input" Arguments.input ?_, hends "--output" Arguments.output ?_,
    hends "--indent" Arguments.indent ?_, hends "--sort-keys" Arguments.sortKeys ?_,
    hends "--verbose" Arguments.verbose ?_⟩
  all_goals
    unfold options
    simp +decide [OptionSpec.SetsOnly, OptionSpec.Makes, OptionSpec.Keeps, setIndent_eq_ok_iff]

/-! ### From all sources to the job -/

/-- A path is the one given, or else that of the setting. -/
def PathFrom (last : Option (Option Text)) (setting path : Path) : Prop :=
  match last with
  | none => path = setting
  | some value => value.map Path.ofText = some path

/-- An indentation is the one given, or else what the variable says. -/
def IndentFrom (last : Option (Option Text)) (found : Option Text)
    (indent : Option Storage.Indent) : Prop :=
  match last with
  | none => ∃ width, SaysIndent width found ∧ indent = width.map .columns
  | some none => indent = some .blank
  | some (some text) => ∃ width, text.readInteger = .ok width ∧ indent = some (.columns width)

def levelFrom (given : Text → Option (Option Text)) : LogLevel :=
  if given "--verbose" = none then .info else .debug

section Sources

variable (given : Text → Option (Option Text)) (valueOf : Text → Option Text)

def InputFrom (input : Path) : Prop :=
  PathFrom (given "--input")
    (Settings.pathOf Settings.default.input (valueOf Settings.inputVariable)) input

def OutputFrom (output : Path) : Prop :=
  PathFrom (given "--output")
    (Settings.pathOf Settings.default.output (valueOf Settings.outputVariable)) output

/-- A job with every setting from the option and the variable of its own. -/
structure Job.SetBy (job : Job) : Prop where
  input : InputFrom given valueOf job.input
  isPath : job.input.externalFault? = none
  output : OutputFrom given valueOf job.output
  indent : IndentFrom (given "--indent") (valueOf Settings.indentVariable) job.format.indent
  sortKeys : job.format.sortKeys = true ↔ given "--sort-keys" ≠ none ∨
    ∃ value, valueOf Settings.sortKeysVariable = some value ∧
      value.toAsciiLower ∈ Settings.affirmatives
  level : job.level = levelFrom given

/-- There is no job where a path is given without a value, or the input is no path, and the ending
tells, unless the first line cannot be printed. -/
inductive NoJob (charset : Charset) : Ending → Prop
  | blank (h : given "--input" = some none ∨ given "--output" = some none) :
      NoJob charset (.blank .path)
  | notPath {input : Path} {fault : ExternalFault} (h : InputFrom given valueOf input)
      (hf : input.externalFault? = some fault) :
      NoJob charset (.escaped (.refused (.notPath fault)))
  | unannounced {ending : Ending} {line : Text} (h : NoJob charset ending)
      (unprintable : line.all charset = false) : NoJob charset (.unprintable line)

end Sources

section Settled

variable {given : Text → Option (Option Text)} {valueOf : Text → Option Text} {s : Settings}
  (ha : args.SetBy given) (hs : SaidBy valueOf s)

theorem pathFrom_of_valueFor {last : Option (Option Text)} {argument : Argument Path}
    {setting path : Path}
    (h : Ends (fun value argument => argument = Argument.ofPath value) .absent last argument)
    (hv : argument.valueFor .path setting = .ok path) : PathFrom last setting path := by
  cases last with
  | none =>
    obtain rfl : argument = .absent := h
    exact (Except.ok.inj hv).symm
  | some value =>
    obtain rfl : argument = .ofPath value := h
    cases value with
    | none => cases hv
    | some text => exact congrArg some (Except.ok.inj hv)

theorem ofInteger_eq_ok {text : Text} {argument : Argument Int}
    (h : Argument.ofInteger (some text) = .ok argument) :
    ∃ width, text.readInteger = .ok width ∧ argument = .given width := by
  simp only [Argument.ofInteger] at h
  cases hwidth : text.readInteger with
  | error fault =>
    rw [hwidth] at h
    cases h
  | ok width =>
    rw [hwidth] at h
    exact ⟨width, rfl, (Except.ok.inj h).symm⟩

theorem eq_of_blank {last : Option (Option Text)}
    (h : Ends (fun value argument => argument = Argument.ofPath value) .absent last .blank) :
    last = some none := by
  cases last with
  | none => exact absurd h nofun
  | some value =>
    cases value with
    | none => rfl
    | some text => exact absurd h nofun

include ha

theorem level_eq : args.level = levelFrom given := by
  have hverbose := ha.verbose
  unfold Arguments.level levelFrom
  cases hg : given "--verbose" with
  | none =>
    rw [hg] at hverbose
    simp [show args.verbose = false from hverbose]
  | some value =>
    rw [hg] at hverbose
    simp [show args.verbose = true from hverbose]

include hs

theorem indentFrom_indentFor :
    IndentFrom (given "--indent") (valueOf Settings.indentVariable)
      (args.indentFor s.indent) := by
  have hindent := ha.indent
  unfold Arguments.indentFor
  cases hg : given "--indent" with
  | none =>
    rw [hg] at hindent
    rw [show args.indent = .absent from hindent]
    exact ⟨s.indent, hs.indent, rfl⟩
  | some value =>
    rw [hg] at hindent
    cases value with
    | none =>
      rw [← show Argument.blank = args.indent from Except.ok.inj hindent]
      rfl
    | some text =>
      obtain ⟨width, hwidth, hgiven⟩ := ofInteger_eq_ok hindent
      rw [hgiven]
      exact ⟨width, hwidth, rfl⟩

theorem sortKeys_iff : (s.sortKeys || args.sortKeys) = true ↔ given "--sort-keys" ≠ none ∨
    ∃ value, valueOf Settings.sortKeysVariable = some value ∧
      value.toAsciiLower ∈ Settings.affirmatives := by
  have hgiven : args.sortKeys = true ↔ given "--sort-keys" ≠ none := by
    have hsort := ha.sortKeys
    cases hg : given "--sort-keys" with
    | none =>
      rw [hg] at hsort
      simp [show args.sortKeys = false from hsort]
    | some value =>
      rw [hg] at hsort
      simp [show args.sortKeys = true from hsort]
  rw [Bool.or_eq_true, hs.sortKeys, hgiven, or_comm]

theorem setBy_of_job {job : Job} (h : args.job s = .ok job) : job.SetBy given valueOf := by
  obtain ⟨hinput, houtput⟩ := job_eq_ok h
  have hinput := pathFrom_of_valueFor ha.input hinput
  have houtput := pathFrom_of_valueFor ha.output houtput
  rw [hs.input] at hinput
  rw [hs.output] at houtput
  have hrest : job.input.externalFault? = none ∧ job.level = args.level ∧
      job.format = ⟨args.indentFor s.indent, s.sortKeys || args.sortKeys⟩ := by
    obtain ⟨input, -, h⟩ := bind_eq_ok_iff.mp h
    dsimp only at h
    split at h
    · cases h
    · next hnone =>
      obtain ⟨output, -, h⟩ := bind_eq_ok_iff.mp h
      cases h
      exact ⟨Option.eq_none_iff_forall_ne_some.mpr hnone, rfl, rfl⟩
  obtain ⟨hpath, hlevel, hformat⟩ := hrest
  refine ⟨hinput, hpath, houtput, ?_, ?_, hlevel.trans (level_eq ha)⟩
  · rw [hformat]
    exact indentFrom_indentFor ha hs
  · rw [hformat]
    exact sortKeys_iff ha hs

theorem noJob_of_job {ending : Ending} (h : args.job s = .error ending) (charset : Charset) :
    NoJob given valueOf charset ending := by
  rcases job_eq_error h with ⟨hblank, rfl⟩ | ⟨input, fault, hinput, hfault, rfl⟩
  · refine .blank (hblank.imp (fun hb => ?_) fun hb => ?_)
    · exact eq_of_blank (hb ▸ ha.input)
    · exact eq_of_blank (hb ▸ ha.output)
  · have hfrom := pathFrom_of_valueFor ha.input hinput
    rw [hs.input] at hfrom
    exact .notPath hfrom hfault

end Settled

/-! ### Runs -/

/-- How a run begins. -/
def greetingLine (input : Path) : Text :=
  Text.concat ["Compiling entity templates from ", input.toText, "..."]

/-- What a run shows of a compilation: the tree is the one that it leaves, and what is printed and
returned follow from how it ended. The log of the settings comes before its own. -/
inductive Shows (charset : Charset) (job : Job) (noted : List LogEvent)
    (compiled : Storage.Outcome Table) : Run → Prop
  | saved {table : Table} (h : compiled.result.outcome = .ok table)
      (printable : ∀ line ∈ savedLines table job.output, line.all charset = true) :
      Shows charset job noted compiled
        ⟨compiled.tree, greetingLine job.input :: savedLines table job.output,
          LogEvent.lines job.level (noted ++ compiled.result.log), .exit 0⟩
  | unsaid {table : Table} {said rest : List Text} {line : Text}
      (h : compiled.result.outcome = .ok table)
      (split : savedLines table job.output = said ++ line :: rest)
      (printable : ∀ line ∈ said, line.all charset = true)
      (unprintable : line.all charset = false) :
      Shows charset job noted compiled
        ⟨compiled.tree, greetingLine job.input :: said,
          LogEvent.lines job.level (noted ++ compiled.result.log), .unprintable line⟩
  | missing {path : Text}
      (h : compiled.result.outcome = .error (.refused (.answered .noEntry path))) :
      Shows charset job noted compiled
        ⟨compiled.tree, [greetingLine job.input],
          LogEvent.lines job.level (noted ++ compiled.result.log) ++
            [Text.concat ["Error: input not found: ", path]], .exit 1⟩
  | complained {failure : Storage.Failure} {diagnostic : Diagnostic}
      (h : compiled.result.outcome = .error failure)
      (reported : failure.diagnostic? = some diagnostic) :
      Shows charset job noted compiled
        ⟨compiled.tree, [greetingLine job.input],
          LogEvent.lines job.level (noted ++ compiled.result.log) ++
            [Text.concat ["Error: ", diagnostic.text]], .exit 1⟩
  | escaped {failure : Storage.Failure} (h : compiled.result.outcome = .error failure)
      (there : ∀ path, failure ≠ .refused (.answered .noEntry path))
      (unreported : failure.diagnostic? = none) :
      Shows charset job noted compiled
        ⟨compiled.tree, [greetingLine job.input],
          LogEvent.lines job.level (noted ++ compiled.result.log), .escaped failure⟩

theorem lines_append (level : LogLevel) (log further : List LogEvent) :
    LogEvent.lines level (log ++ further) =
      LogEvent.lines level log ++ LogEvent.lines level further := by
  simp [LogEvent.lines]

/-- A missing input has a complaint of its own, and every other one is made of a diagnostic. -/
theorem complaint?_cases (failure : Storage.Failure) :
    (∃ path, failure = .refused (.answered .noEntry path)) ∨
      (∀ path, failure ≠ .refused (.answered .noEntry path)) ∧
        complaint? failure =
          failure.diagnostic?.map fun diagnostic => Text.concat ["Error: ", diagnostic.text] := by
  unfold complaint?
  split
  · next path => exact .inl ⟨path, rfl⟩
  · next hother => exact .inr ⟨hother, rfl⟩

/-- A job is compiled, and its run shows what came of it. -/
theorem shows_job (host : Host) (tree : FileTree) (job : Job) (noted : List LogEvent) :
    Shows host.charset job noted
      (Storage.compileFile host.memory tree job.input.toText job.output.toText job.format true)
      (.after (LogEvent.lines job.level noted)
        { job.run host tree with out := greetingLine job.input :: (job.run host tree).out }) := by
  unfold Job.run
  generalize Storage.compileFile host.memory tree job.input.toText job.output.toText job.format
    true = compiled
  dsimp only [Run.after]
  cases houtcome : compiled.result.outcome with
  | ok table =>
    dsimp only
    rw [summary_eq]
    have hprinted := Run.printed_printing host.charset compiled.tree (savedLines table job.output)
      ⟨compiled.tree, [], [], .exit 0⟩
    generalize Run.printing host.charset compiled.tree (savedLines table job.output) _ = printed
      at hprinted
    cases hprinted with
    | whole printable =>
      simp only [List.append_nil, ← lines_append]
      exact .saved houtcome printable
    | upTo split printable unprintable =>
      simp only [List.append_nil, ← lines_append]
      exact .unsaid houtcome split printable unprintable
  | error failure =>
    dsimp only
    rcases complaint?_cases failure with ⟨path, rfl⟩ | ⟨hother, hcomplaint⟩
    · simp only [complaint?, ← List.append_assoc, ← lines_append]
      exact .missing houtcome
    · rw [hcomplaint]
      cases hdiagnostic : failure.diagnostic? with
      | none =>
        simp only [Option.map_none, List.append_nil, ← lines_append]
        exact .escaped houtcome hother hdiagnostic
      | some diagnostic =>
        simp only [Option.map_some, ← List.append_assoc, ← lines_append]
        exact .complained houtcome hdiagnostic

/-- The complaint about a variable that is no indentation. -/
theorem indentVariable_complaint (value : Text) :
    Text.concat ["Error: ", (SettingsFault.indentVariable value).message] =
      Text.concat ["Error: ENTITY_COMPILER_INDENT must be an integer, got ", value.quoted] := by
  have hwords : Text.ofString "Error: " ++ "ENTITY_COMPILER_INDENT must be an integer, got " =
      "Error: ENTITY_COMPILER_INDENT must be an integer, got " := by decide +kernel
  simp only [SettingsFault.message, Text.concat, List.flatten_cons, List.flatten_nil,
    List.append_nil]
  rw [← List.append_assoc, hwords]

section Run

variable {host : Host} {file : Environment} (hadds : Adds host.readVariables host.environment file)
  (hargs : parse options initial argv = .ok args) (tree : FileTree)

include hadds hargs

theorem run_of_noIndent {value : Text}
    (hno : NoIndent (valueInForce host.environment file Settings.indentVariable) value) :
    run host tree argv =
      ⟨tree, [], LogEvent.lines (levelFrom (given options argv))
          (Settings.load host.readVariables host.environment).log ++
        [Text.concat ["Error: ENTITY_COMPILER_INDENT must be an integer, got ",
          value.quoted]], .exit 1⟩ := by
  have hload := (Settings.load_eq_error_iff hadds).mpr ⟨value, hno, rfl⟩
  unfold run
  rw [hargs]
  dsimp only
  rw [hload, level_eq (setBy_of_parse hargs), ← indentVariable_complaint]
  rfl

/-- With settings there is a job that is compiled once it is announced, or none. -/
theorem run_of_load {s : Settings}
    (hload : (Settings.load host.readVariables host.environment).outcome = .ok s) :
    (∃ job : Job, job.SetBy (given options argv) (valueInForce host.environment file) ∧
      if (greetingLine job.input).all host.charset then
        Shows host.charset job (Settings.load host.readVariables host.environment).log
          (Storage.compileFile host.memory tree job.input.toText job.output.toText job.format true)
          (run host tree argv)
      else run host tree argv = ⟨tree, [], LogEvent.lines job.level
        (Settings.load host.readVariables host.environment).log,
          .unprintable (greetingLine job.input)⟩) ∨
    NoJob (given options argv) (valueInForce host.environment file) host.charset
        (run host tree argv).ending ∧
      (run host tree argv).tree = tree := by
  have ha := setBy_of_parse hargs
  have hs := (Settings.load_eq_ok_iff hadds).mp hload
  unfold run
  rw [hargs]
  dsimp only
  rw [hload]
  dsimp only
  rw [Run.printing_singleton]
  cases hjob : args.job s with
  | ok job =>
    have hset := setBy_of_job ha hs hjob
    have hgreeting : args.greeting s = greetingLine job.input := by
      rw [Arguments.greeting, (job_eq_ok hjob).1]
      rfl
    refine .inl ⟨job, hset, ?_⟩
    rw [hgreeting, level_eq ha, ← hset.level]
    split
    · exact shows_job host tree job _
    · simp only [Run.after, List.append_nil]
  | error ending =>
    have hnoJob := noJob_of_job ha hs hjob host.charset
    split
    · exact .inr ⟨hnoJob, rfl⟩
    · next hgreeting => exact .inr ⟨.unannounced hnoJob (eq_false_of_ne_true hgreeting), rfl⟩

end Run

/-- An input that is empty, and a sorting that is refused. -/
def slipwayVariables : Environment :=
  [("ENTITY_COMPILER_INPUT", ""), ("ENTITY_COMPILER_SORT_KEYS", "no")]

def slipwayFile : Environment :=
  [("ENTITY_COMPILER_INPUT", "file.json"), ("ENTITY_COMPILER_OUTPUT", "out.json"),
    ("ENTITY_COMPILER_INDENT", "4")]

def slipwayHost : Host :=
  ⟨slipwayVariables, Settings.readerOf slipwayFile, Storage.mebibyte,
    fun c => decide (c.val < 0x80)⟩

/-- The input is where it is by default. -/
def slipway : FileTree :=
  ⟨[(["data"], .directory),
    (["data", "entities-raw.json"], .file (Text.toUtf8 "\x7b \x7d"))], []⟩

def slipwayWords : List Text := ["--indent", "0", "--sort"]

theorem slipway_saysIndent (value : Text) :
    ¬NoIndent (valueInForce slipwayVariables slipwayFile Settings.indentVariable) value := by
  have hindent : valueInForce slipwayVariables slipwayFile Settings.indentVariable =
      some ("4" : Text) := by decide +kernel
  rintro ⟨hvalue, -, hno⟩
  obtain rfl : ("4" : Text) = value := Option.some.inj (hindent.symm.trans hvalue)
  exact hno 4 rfl

theorem slipway_job {job : Job}
    (h : job.SetBy (given options slipwayWords) (valueInForce slipwayVariables slipwayFile)) :
    job.input = "data/entities-raw.json" ∧ job.output = "out.json" ∧
      job.format = ⟨some (.columns 0), true⟩ := by
  have hgiven : given options slipwayWords "--input" = none ∧
      given options slipwayWords "--output" = none ∧
      given options slipwayWords "--indent" = some (some ("0" : Text)) ∧
      given options slipwayWords "--sort-keys" ≠ none := by decide +kernel
  have hpaths : Settings.pathOf Settings.default.input
        (valueInForce slipwayVariables slipwayFile Settings.inputVariable) =
      "data/entities-raw.json" ∧ Settings.pathOf Settings.default.output
        (valueInForce slipwayVariables slipwayFile Settings.outputVariable) =
      "out.json" := by decide +kernel
  have hinput := h.input
  have houtput := h.output
  have hindent := h.indent
  rw [InputFrom, hgiven.1] at hinput
  rw [OutputFrom, hgiven.2.1] at houtput
  rw [hgiven.2.2.1] at hindent
  obtain ⟨width, hread, hcolumns⟩ := hindent
  obtain rfl : 0 = width := Except.ok.inj hread
  refine ⟨hinput.trans hpaths.1, houtput.trans hpaths.2, ?_⟩
  rw [← hcolumns, ← h.sortKeys.mpr (.inl hgiven.2.2.2)]

end EntityTable.CommandLine.Compile
