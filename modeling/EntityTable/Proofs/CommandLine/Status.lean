import EntityTable.CommandLine.Compile
import EntityTable.Proofs.CommandLine.Options
import EntityTable.Proofs.Settings
import EntityTable.Proofs.Storage.Compiling

/-!
How the command that compiles ends. It saves the artifact and returns 0, or it complains in one line
and returns 1, and where it does neither an argument is blank, a path is none, the input is there
but cannot be read, an integer in it does not fit, the indentation does not, a line cannot be
printed, or the package that reads variables fails for a reason of its own.
-/

namespace EntityTable

/-- How every report of an error begins. -/
def reportMark : Text := "Error: "

/-- The lines of a run that report errors. -/
def CommandLine.Run.reports (r : CommandLine.Run) : List Text :=
  r.err.filter fun line => reportMark.isPrefixOf line

/-- The status that a run returns, if it returns. -/
def CommandLine.Ending.status? : CommandLine.Ending → Option Nat
  | .exit code => some code
  | .usage _ | .help | .escaped _ | .blank _ | .unsettled _ | .unprintable _ => none

theorem LogEvent.not_report (event : LogEvent) : reportMark.isPrefixOf event.line = false := by
  unfold LogEvent.line
  cases event.level <;> rfl

/-- The log reports no errors, so what is reported is what comes behind it. -/
theorem LogEvent.filter_lines_append (level : LogLevel) (log : List LogEvent)
    (further : List Text) :
    (LogEvent.lines level log ++ further).filter (fun line => reportMark.isPrefixOf line) =
      further.filter fun line => reportMark.isPrefixOf line := by
  have hlines :
      (LogEvent.lines level log).filter (fun line => reportMark.isPrefixOf line) = [] := by
    apply List.filter_eq_nil_iff.mpr
    intro line hline
    obtain ⟨event, -, rfl⟩ := List.mem_map.mp hline
    simp [event.not_report]
  rw [List.filter_append, hlines, List.nil_append]

theorem reportMark_append (t : Text) :
    reportMark.isPrefixOf (Text.concat ["Error: ", t]) = true := by
  simp [Text.concat, reportMark]

namespace CommandLine

namespace Run

/-- The log before a run adds no report. -/
theorem reports_after (level : LogLevel) (log : List LogEvent) (r : Run) :
    (after (LogEvent.lines level log) r).reports = r.reports := LogEvent.filter_lines_append ..

theorem reports_complaint {line : Text} (h : reportMark.isPrefixOf line = true) (tree : FileTree)
    (out : List Text) (ending : Ending) : (Run.mk tree out [line] ending).reports = [line] :=
  List.filter_cons_of_pos h

/-- What a run is after it has printed some lines, or not all of them. -/
inductive Printed (charset : Charset) (tree : FileTree) (lines : List Text) (next : Run) :
    Run → Prop
  | whole (printable : ∀ line ∈ lines, line.all charset = true) :
      Printed charset tree lines next { next with out := lines ++ next.out }
  | upTo {said rest : List Text} {line : Text} (split : lines = said ++ line :: rest)
      (printable : ∀ line ∈ said, line.all charset = true)
      (unprintable : line.all charset = false) :
      Printed charset tree lines next ⟨tree, said, [], .unprintable line⟩

theorem printed_printing (charset : Charset) (tree : FileTree) (lines : List Text) (next : Run) :
    Printed charset tree lines next (printing charset tree lines next) := by
  induction lines with
  | nil => exact .whole (List.forall_mem_nil _)
  | cons line lines ih =>
    rw [printing]
    split
    · next hline =>
      generalize printing charset tree lines next = further at ih
      cases ih with
      | whole printable => exact .whole (List.forall_mem_cons.mpr ⟨hline, printable⟩)
      | upTo split printable unprintable =>
        exact .upTo (congrArg (line :: ·) split) (List.forall_mem_cons.mpr ⟨hline, printable⟩)
          unprintable
    · next hline =>
      exact .upTo (List.nil_append _).symm (List.forall_mem_nil _) (eq_false_of_ne_true hline)

/-- A single line is printed, or the run ends before it. -/
theorem printing_singleton (charset : Charset) (tree : FileTree) (line : Text) (next : Run) :
    printing charset tree [line] next =
      if line.all charset then { next with out := line :: next.out }
      else ⟨tree, [], [], .unprintable line⟩ := rfl

end Run

namespace Compile

/-! ### Paths in their plain form -/

/-- Paths given on the command line are in plain form. -/
def Arguments.Plain (args : Arguments) : Prop :=
  (∀ p, args.input = .given p → p.Plain) ∧ ∀ p, args.output = .given p → p.Plain

theorem plain_ofPath {value : Option Text} {p : Path} (h : Argument.ofPath value = .given p) :
    p.Plain := by
  cases value with
  | none => cases h
  | some t =>
    cases h
    exact Path.plain_ofText t

theorem keeps_plain : ∀ spec ∈ options, spec.Keeps Arguments.Plain := by
  unfold options
  simp only [List.forall_mem_cons, List.not_mem_nil, false_imp_iff, implies_true, and_true]
  refine ⟨trivial, ?_, ?_, ?_, fun args hp => hp, fun args hp => hp⟩
  · intro value args next h hp
    cases h
    exact ⟨fun p => plain_ofPath, hp.2⟩
  · intro value args next h hp
    cases h
    exact ⟨hp.1, fun p => plain_ofPath⟩
  · intro value args next h hp
    obtain ⟨indent, -, h⟩ := bind_eq_ok_iff.mp h
    cases h
    exact hp

theorem plain_of_parse {argv : List Text} {args : Arguments}
    (h : parse options initial argv = .ok args) : args.Plain := by
  apply keeps_parse keeps_plain h
  constructor
  · intro p hp
    cases hp
  · intro p hp
    cases hp

theorem plain_getD (value : Option Text) {fallback : Path} (hf : fallback.Plain) :
    ((value.map Path.ofText).getD fallback).Plain := by
  cases value with
  | none => exact hf
  | some t => exact Path.plain_ofText t

theorem plain_of_load {readVariables : VariableReader} {environment : Environment} {s : Settings}
    (h : (Settings.load readVariables environment).outcome = .ok s) :
    s.input.Plain ∧ s.output.Plain := by
  rw [Settings.load, Logged.outcome_bind] at h
  obtain ⟨completed, -, h⟩ := bind_eq_ok_iff.mp h
  obtain ⟨indent, -, h⟩ := bind_eq_ok_iff.mp h
  cases h
  exact ⟨plain_getD _ (Path.plain_ofText _), plain_getD _ (Path.plain_ofText _)⟩

theorem plain_of_valueFor {argument : Argument Path} {fallback p : Path} {use : BlankUse}
    (ha : ∀ p, argument = .given p → p.Plain) (hf : fallback.Plain)
    (h : argument.valueFor use fallback = .ok p) : p.Plain := by
  cases argument with
  | absent =>
    cases h
    exact hf
  | blank => cases h
  | given value =>
    cases h
    exact ha p rfl

/-! ### From the arguments to the job -/

theorem job_eq_ok {args : Arguments} {s : Settings} {job : Job} (h : args.job s = .ok job) :
    args.input.valueFor .path s.input = .ok job.input ∧
      args.output.valueFor .path s.output = .ok job.output := by
  obtain ⟨input, hinput, h⟩ := bind_eq_ok_iff.mp h
  dsimp only at h
  split at h
  · cases h
  · obtain ⟨output, houtput, h⟩ := bind_eq_ok_iff.mp h
    cases h
    exact ⟨mapError_eq_ok_iff.mp hinput, mapError_eq_ok_iff.mp houtput⟩

/-- Only a blank argument or an input that is no path keeps a command from having a job. -/
theorem job_eq_error {args : Arguments} {s : Settings} {ending : Ending}
    (h : args.job s = .error ending) :
    ((args.input = .blank ∨ args.output = .blank) ∧ ending = .blank .path) ∨
      ∃ input fault, args.input.valueFor .path s.input = .ok input ∧
        input.externalFault? = some fault ∧ ending = .escaped (.refused (.notPath fault)) := by
  have hblank {argument : Argument Path} {fallback : Path}
      (h : (argument.valueFor .path fallback).mapError Ending.blank = .error ending) :
      argument = .blank ∧ ending = .blank .path := by
    cases argument with
    | blank => exact ⟨rfl, (Except.error.inj h).symm⟩
    | absent => cases h
    | given value => cases h
  rcases bind_eq_error_iff.mp h with hinput | ⟨input, hinput, h⟩
  · exact .inl ⟨.inl (hblank hinput).1, (hblank hinput).2⟩
  · dsimp only at h
    split at h
    · next fault hfault =>
      exact .inr ⟨input, fault, mapError_eq_ok_iff.mp hinput, hfault, (Except.error.inj h).symm⟩
    · rcases bind_eq_error_iff.mp h with houtput | ⟨output, houtput, h⟩
      · exact .inl ⟨.inr (hblank houtput).1, (hblank houtput).2⟩
      · cases h

/-! ### The ends of a run -/

/-- What the arguments come to on a host. -/
structure Effective (host : Host) (args : Arguments) (s : Settings) (job : Job) : Prop where
  settings : (Settings.load host.readVariables host.environment).outcome = .ok s
  job : args.job s = .ok job

/-- A line of complaint about a job, and what is wrong. -/
inductive Complaint (memory : Memory) (tree : FileTree) (job : Job) : Text → Prop
  | missing (absent : tree.read job.input.toText = .error (.answered .noEntry job.input.toText)) :
      Complaint memory tree job (Text.concat ["Error: input not found: ", job.input.toText])
  | wrong {failure : Storage.Failure} {diagnostic : Diagnostic}
      (wrong : Storage.Wrong memory tree job.input.toText job.output.toText job.format failure)
      (reported : failure.diagnostic? = some diagnostic) :
      Complaint memory tree job (Text.concat ["Error: ", diagnostic.text])

/-- The output has the compiled input, and no other file has changed. -/
structure Saved (tree later : FileTree) (job : Job) (table : Table) : Prop where
  compiles : Storage.Compiles tree job.input.toText job.output.toText table
  read : ∃ layout, job.format.Asks layout ∧
    later.read job.output.toText = .ok (job.format.encode layout table.toJson)
  others : ∃ place, later.placeOf job.output.toText = .ok place ∧ ∀ other, other ≠ place →
    ∀ bytes, later.node? other = some (.file bytes) ↔ tree.node? other = some (.file bytes)

/-- What is said of a table that is saved. -/
def savedLines (table : Table) (output : Path) : List Text :=
  [Text.concat ["  Compiled ", Text.ofNat table.length, " templates (",
      Text.ofNat (table.countP fun entry => entry.2.kind = some (Text.ofString "weapon")),
      " weapons)"],
    Text.concat ["Saved resolved table to: ", output.toText]]

/-- The ends of a run: the tree that it leaves, what it printed, what it reported and how it
ended. -/
inductive EndsWith (host : Host) (tree : FileTree) (args : Arguments) :
    FileTree → List Text → List Text → Ending → Prop
  /-- The artifact is saved, and the counts are those of the table. -/
  | saved {s : Settings} {job : Job} {table : Table} {later : FileTree}
      (effective : Effective host args s job) (saved : Saved tree later job table) :
      EndsWith host tree args later (args.greeting s :: savedLines table job.output) [] (.exit 0)
  /-- The settings are refused. -/
  | misconfigured {fault : SettingsFault}
      (bad : (Settings.load host.readVariables host.environment).outcome = .error fault)
      (expected : fault.isExpected = true) :
      EndsWith host tree args tree [] [Text.concat ["Error: ", fault.message]] (.exit 1)
  /-- One line says what is wrong, and every file is as before. -/
  | complained {s : Settings} {job : Job} {later : FileTree} {line : Text}
      (effective : Effective host args s job) (complaint : Complaint host.memory tree job line)
      (files : ∀ place bytes,
        later.node? place = some (.file bytes) ↔ tree.node? place = some (.file bytes)) :
      EndsWith host tree args later [args.greeting s] [line] (.exit 1)
  /-- The artifact is saved, but the output has no bytes for a line that says so. -/
  | unsaid {s : Settings} {job : Job} {table : Table} {later : FileTree} {said rest : List Text}
      {line : Text} (effective : Effective host args s job)
      (saved : Saved tree later job table)
      (split : savedLines table job.output = said ++ line :: rest)
      (unprintable : line.all host.charset = false) :
      EndsWith host tree args later (args.greeting s :: said) [] (.unprintable line)
  /-- The output has no bytes for the first line. -/
  | unannounced {s : Settings}
      (settings : (Settings.load host.readVariables host.environment).outcome = .ok s)
      (unprintable : (args.greeting s).all host.charset = false) :
      EndsWith host tree args tree [] [] (.unprintable (args.greeting s))
  /-- The package that reads variables fails, and not for a value. -/
  | unsettled {message : Text}
      (fails : (host.readVariables host.environment).outcome = .error (.other message)) :
      EndsWith host tree args tree [] [] (.unsettled (.variables (.other message)))
  /-- A path was asked for without a value. -/
  | blankPath {s : Settings}
      (settings : (Settings.load host.readVariables host.environment).outcome = .ok s)
      (blank : args.input = .blank ∨ args.output = .blank) :
      EndsWith host tree args tree [args.greeting s] [] (.blank .path)
  /-- The input cannot be put to the system. -/
  | notPath {s : Settings} {input : Path} {fault : ExternalFault}
      (settings : (Settings.load host.readVariables host.environment).outcome = .ok s)
      (input_eq : args.input.valueFor .path s.input = .ok input)
      (bad : input.externalFault? = some fault) :
      EndsWith host tree args tree [args.greeting s] [] (.escaped (.refused (.notPath fault)))
  /-- Something is wrong that is not reported. -/
  | unreported {s : Settings} {job : Job} {failure : Storage.Failure}
      (effective : Effective host args s job)
      (wrong : Storage.Unreported tree job.input.toText job.output.toText failure) :
      EndsWith host tree args tree [args.greeting s] [] (.escaped failure)
  /-- The table compiles, but its lines cannot be indented, and a temporary file is left. -/
  | stranded {s : Settings} {job : Job} {table : Table} {prepared : FileTree} {temporary : Place}
      {bytes : List UInt8} {failure : Storage.Failure} (effective : Effective host args s job)
      (compiles : Storage.Compiles tree job.input.toText job.output.toText table)
      (adds : tree.AddsDirectories prepared) (free : prepared.node? temporary = none)
      (why : Storage.Unindentable host.memory job.format table.toJson failure) :
      EndsWith host tree args (prepared.put temporary (.file bytes)) [args.greeting s] []
        (.escaped failure)

def RunEnds (host : Host) (tree : FileTree) (args : Arguments) (r : Run) : Prop :=
  EndsWith host tree args r.tree r.out r.reports r.ending

variable {host : Host} {tree : FileTree} {args : Arguments}

/-- The log is no report, so a run ends behind it as it does without. -/
theorem RunEnds.after {r : Run} (h : RunEnds host tree args r) (level : LogLevel)
    (log : List LogEvent) : RunEnds host tree args (.after (LogEvent.lines level log) r) := by
  rw [RunEnds, Run.reports_after]
  exact h

theorem complaint?_of_unreported {input output : Text} {failure : Storage.Failure}
    (h : Storage.Unreported tree input output failure) : complaint? failure = none := by
  cases h with
  | notPath bad => rfl
  | unreadable there refused =>
    rename_i error
    cases error with
    | noEntry => exact absurd rfl there
    | _ => rfl
  | overflow read decoded overflows =>
    cases overflows with
    | tooLong digits run => rfl
    | tooLarge input read unfit => rfl

theorem complaint?_of_unindentable {memory : Memory} {format : Storage.Format} {v : Json}
    {failure : Storage.Failure} (h : Storage.Unindentable memory format v failure) :
    complaint? failure = none := by
  cases h <;> rfl

/-- What is wrong makes a complaint. -/
theorem complaint?_of_wrong {memory : Memory} {job : Job} {failure : Storage.Failure}
    (h : Storage.Wrong memory tree job.input.toText job.output.toText job.format failure) :
    ∃ line, complaint? failure = some line ∧ reportMark.isPrefixOf line = true ∧
      Complaint memory tree job line := by
  rcases h.exists_diagnostic with rfl | ⟨diagnostic, hdiagnostic⟩
  · have habsent : tree.read job.input.toText = .error (.answered .noEntry job.input.toText) := by
      cases h with
      | missing absent => exact absent
      | unwritable compiles adds fails about => exact absurd about id
    refine ⟨_, rfl, ?_, .missing habsent⟩
    exact reportMark_append (Text.concat ["input not found: ", job.input.toText])
  · refine ⟨_, ?_, reportMark_append diagnostic.text, .wrong h hdiagnostic⟩
    unfold complaint?
    split
    · cases hdiagnostic
    · rw [hdiagnostic]
      rfl

theorem summary_eq (table : Table) (output : Path) :
    summary table output = savedLines table output := by
  rw [summary, savedLines, Table.weapons, Entries.keys, List.length_map,
    ← List.countP_eq_length_filter]
  rfl

/-- A table that is stored is saved as its job says. -/
theorem saved_of_replaces {job : Job} {table : Table} {layout : Json.Layout}
    {prepared later : FileTree}
    (compiles : Storage.Compiles tree job.input.toText job.output.toText table)
    (adds : tree.AddsDirectories prepared) (asks : job.format.Asks layout)
    (replaces : prepared.Replaces later job.output.toText
      (job.format.encode layout table.toJson)) : Saved tree later job table := by
  obtain ⟨place, hplace, -, hothers⟩ := replaces.others
  refine ⟨compiles, ⟨layout, asks, replaces.read⟩, place, hplace, fun other hother bytes => ?_⟩
  rw [hothers other hother]
  exact adds.file_iff other bytes

/-- What is saved is said line by line, as far as the lines can be printed. -/
theorem runEnds_of_saved {s : Settings} {job : Job} {table : Table} {later : FileTree}
    (effective : Effective host args s job) (saved : Saved tree later job table) {printed : Run}
    (h : Run.Printed host.charset later (savedLines table job.output) ⟨later, [], [], .exit 0⟩
      printed) :
    RunEnds host tree args { printed with out := args.greeting s :: printed.out } := by
  cases h with
  | whole printable =>
    simp only [List.append_nil]
    exact .saved effective saved
  | upTo split printable unprintable => exact .unsaid effective saved split unprintable

/-- How a job ends that has been announced. -/
theorem job_ends (hw : tree.WellPlaced) (hhere : ∀ name ∈ tree.workingDirectory, name.HasBytes)
    (hargs : args.Plain) {s : Settings} {job : Job} (effective : Effective host args s job) :
    RunEnds host tree args
      { job.run host tree with out := args.greeting s :: (job.run host tree).out } := by
  have hends :=
    Storage.compileFile_ends hw host.memory job.input.toText job.output.toText job.format true
  have houtput : Path.ofText job.output.toText = job.output := by
    have hplain := plain_of_load effective.settings
    exact Path.ofText_toText
      (plain_of_valueFor hargs.2 hplain.2 (job_eq_ok effective.job).2)
  unfold Job.run
  generalize Storage.compileFile host.memory tree job.input.toText job.output.toText job.format
    true = compiled at hends
  obtain ⟨later, log, outcome⟩ := compiled
  rw [RunEnds]
  show EndsWith _ _ _ _ _ (Run.after _ _).reports _
  rw [Run.reports_after]
  dsimp only [Run.after]
  cases hends with
  | @stored table layout prepared _ compiles adds asks replaces =>
    rw [houtput] at replaces
    have hsaved := saved_of_replaces compiles adds asks replaces
    dsimp only
    rw [summary_eq]
    exact runEnds_of_saved effective hsaved (Run.printed_printing ..)
  | reported wrong adds early =>
    obtain ⟨line, hline, hmark, hcomplaint⟩ := complaint?_of_wrong wrong
    dsimp only
    rw [hline]
    dsimp only
    rw [Run.reports_complaint hmark]
    exact .complained effective hcomplaint adds.file_iff
  | unreported wrong =>
    dsimp only
    rw [complaint?_of_unreported wrong]
    exact .unreported effective wrong
  | unnameable compiles adds hnames =>
    exact absurd (Path.nameable_of_hasBytes hhere
      (Path.externalFault?_eq_none_iff.mp compiles.outputPath)) hnames
  | stranded compiles adds why free =>
    dsimp only
    rw [complaint?_of_unindentable why]
    exact .stranded effective compiles adds free why

theorem load_eq_unexpected {readVariables : VariableReader} {environment : Environment}
    {fault : SettingsFault} (h : (Settings.load readVariables environment).outcome = .error fault)
    (hunexpected : fault.isExpected = false) : ∃ message, fault = .variables (.other message) ∧
      (readVariables environment).outcome = .error (.other message) := by
  rw [Settings.load, Logged.outcome_bind] at h
  rcases bind_eq_error_iff.mp h with hreader | ⟨completed, -, hsettings⟩
  · obtain ⟨packageFault, hfails, rfl⟩ := mapError_eq_error_iff.mp hreader
    cases packageFault with
    | value message => cases hunexpected
    | other message => exact ⟨message, rfl, hfails⟩
  · obtain ⟨value, -, rfl⟩ := Settings.ofEnvironment_eq_error_iff.mp hsettings
    cases hunexpected

/-- Whatever the tree and the host are, a command line that is accepted ends in one of these ways.
It returns 0 only when the artifact is saved, and 1 only with one line of complaint. -/
theorem run_ends (host : Host) (tree : FileTree) (hw : tree.WellPlaced)
    (hhere : ∀ name ∈ tree.workingDirectory, name.HasBytes) (argv : List Text) (args : Arguments)
    (hargs : parse options initial argv = .ok args) :
    RunEnds host tree args (run host tree argv) := by
  unfold run
  rw [hargs]
  dsimp only
  apply RunEnds.after
  cases hs : (Settings.load host.readVariables host.environment).outcome with
  | error fault =>
    dsimp only
    split
    · next hexpected =>
      rw [RunEnds, Run.reports_complaint (reportMark_append fault.message)]
      exact .misconfigured hs hexpected
    · next hexpected =>
      obtain ⟨message, rfl, hfails⟩ := load_eq_unexpected hs (eq_false_of_ne_true hexpected)
      exact .unsettled hfails
  | ok s =>
    dsimp only
    rw [Run.printing_singleton]
    split
    · cases hjob : args.job s with
      | ok job => exact job_ends hw hhere (plain_of_parse hargs) ⟨hs, hjob⟩
      | error ending =>
        rcases job_eq_error hjob with ⟨hblank, rfl⟩ | ⟨input, fault, hinput, hfault, rfl⟩
        · exact .blankPath hs hblank
        · exact .notPath hs hinput hfault
    · next hgreeting => exact .unannounced hs (eq_false_of_ne_true hgreeting)

/-- A host without variables that prints ASCII. -/
def plainHost : Host := ⟨[], pure, Storage.mebibyte, fun c => decide (c.val < 0x80)⟩

/-- What is asked for in the directory of the quayside. -/
def quaysideWords : List Text := ["--input", "raw.json", "--output", "build/all.json"]

/-- The empty table of the quayside is compiled. -/
theorem run_quayside : Storage.quayside.WellPlaced ∧
    (∀ name ∈ Storage.quayside.workingDirectory, name.HasBytes) ∧
    ∃ args, parse options initial quaysideWords = .ok args ∧
      (run plainHost Storage.quayside quaysideWords).ending.status? = some 0 ∧
      RunEnds plainHost Storage.quayside args (run plainHost Storage.quayside quaysideWords) := by
  have hhere : ∀ name ∈ Storage.quayside.workingDirectory, name.HasBytes := by decide
  have hargs : parse options initial quaysideWords =
      .ok ⟨.given "raw.json", .given "build/all.json", .absent, false, false⟩ := rfl
  exact ⟨Storage.wellPlaced_quayside, hhere, _, hargs, by decide +kernel,
    run_ends plainHost Storage.quayside Storage.wellPlaced_quayside hhere quaysideWords _ hargs⟩

/-- The words that name the table of the drydock, with a length beyond all finite numbers. -/
def drydockWords : List Text := ["--input", "raw.json", "--output", "all.json"]

/-- The run returns no status, and reports nothing. -/
theorem run_drydock_escapes : Storage.drydock.WellPlaced ∧
    (∃ args, parse options initial drydockWords = .ok args) ∧
    (run plainHost Storage.drydock drydockWords).ending.status? = none ∧
    (run plainHost Storage.drydock drydockWords).reports = [] := by
  have hw : Storage.drydock.WellPlaced := by
    intro name hn
    cases hn
  exact ⟨hw, ⟨_, rfl⟩, by decide +kernel, by decide +kernel⟩

end Compile
end CommandLine
end EntityTable
