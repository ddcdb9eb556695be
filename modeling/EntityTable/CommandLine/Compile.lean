import EntityTable.CommandLine.Run
import EntityTable.Storage.Artifact

/-!
The command that compiles the authored table into the artifact.
-/

namespace EntityTable.CommandLine.Compile

/-- What a run finds besides the files. -/
structure Host where
  environment : Environment
  readVariables : VariableReader
  memory : Memory
  charset : Charset

structure Arguments where
  input : Argument Path
  output : Argument Path
  indent : Argument Int
  sortKeys : Bool
  verbose : Bool

def initial : Arguments := ⟨.absent, .absent, .absent, false, false⟩

def options : List (OptionSpec Arguments) :=
  [⟨["-h", "--help"], .help⟩,
    ⟨["--input"], .value fun value args => .ok { args with input := .ofPath value }⟩,
    ⟨["--output"], .value fun value args => .ok { args with output := .ofPath value }⟩,
    ⟨["--indent"], .value fun value args =>
      return { args with indent := ← Argument.ofInteger value }⟩,
    ⟨["--sort-keys"], .switch fun args => { args with sortKeys := true }⟩,
    ⟨["--verbose", "-v"], .switch fun args => { args with verbose := true }⟩]

/-- What there is to compile. -/
structure Job where
  input : Path
  output : Path
  format : Storage.Format
  level : LogLevel

def Arguments.level (args : Arguments) : LogLevel := if args.verbose then .debug else .info

def Arguments.indentFor (args : Arguments) (fallback : Option Int) : Option Storage.Indent :=
  match args.indent with
  | .absent => fallback.map .columns
  | .blank => some .blank
  | .given width => some (.columns width)

/-- Every argument overrules its own setting; sorting can only be turned on. The input is refused
before the output, for its own text too. -/
def Arguments.job (args : Arguments) (s : Settings) : Except Ending Job := do
  let input ← (args.input.valueFor .path s.input).mapError .blank
  if let some fault := input.externalFault? then throw (.escaped (.refused (.notPath fault)))
  let output ← (args.output.valueFor .path s.output).mapError .blank
  return {
    input
    output
    format := ⟨args.indentFor s.indent, s.sortKeys || args.sortKeys⟩
    level := args.level }

def Arguments.greeting (args : Arguments) (s : Settings) : Text :=
  let input := match args.input.valueFor .path s.input with
    | .ok path => path.toText
    | .error _ => "[]"
  Text.concat ["Compiling entity templates from ", input, "..."]

/-- A missing input and whatever an author can mend end with a message, the rest escapes. -/
def complaint? : Storage.Failure → Option Text
  | .refused (.answered .noEntry path) => some (Text.concat ["Error: input not found: ", path])
  | failure =>
    failure.diagnostic?.map fun diagnostic => Text.concat ["Error: ", diagnostic.text]

def summary (table : Table) (output : Path) : List Text :=
  [Text.concat ["  Compiled ", Text.ofNat table.length, " templates (",
      Text.ofNat table.weapons.length, " weapons)"],
    Text.concat ["Saved resolved table to: ", output.toText]]

def Job.run (job : Job) (host : Host) (tree : FileTree) : Run :=
  let compiled :=
    Storage.compileFile host.memory tree job.input.toText job.output.toText job.format true
  Run.after (LogEvent.lines job.level compiled.result.log) <|
    match compiled.result.outcome with
    | .ok table =>
      .printing host.charset compiled.tree (summary table job.output)
        ⟨compiled.tree, [], [], .exit 0⟩
    | .error failure =>
      match complaint? failure with
      | some line => ⟨compiled.tree, [], [line], .exit 1⟩
      | none => ⟨compiled.tree, [], [], .escaped failure⟩

/-- What the settings note comes before what the job notes. -/
def run (host : Host) (tree : FileTree) (argv : List Text) : Run :=
  match parse options initial argv with
  | .error stop => .stopped tree stop
  | .ok args =>
    let settings := Settings.load host.readVariables host.environment
    Run.after (LogEvent.lines args.level settings.log) <|
      match settings.outcome with
      | .error fault =>
        if fault.isExpected then ⟨tree, [], [Text.concat ["Error: ", fault.message]], .exit 1⟩
        else ⟨tree, [], [], .unsettled fault⟩
      | .ok s =>
        .printing host.charset tree [args.greeting s] <|
          match args.job s with
          | .ok job => job.run host tree
          | .error ending => ⟨tree, [], [], ending⟩

/-- The paths that a run may touch. -/
def paths (host : Host) (argv : List Text) : List Path :=
  let job := do
    let args ← (parse options initial argv).toOption
    let s ← (Settings.load host.readVariables host.environment).outcome.toOption
    (args.job s).toOption
  match job with
  | some job => [job.input, job.output]
  | none => []

end EntityTable.CommandLine.Compile
