import EntityTable.CommandLine.Run
import EntityTable.CurveReport
import EntityTable.Text.Utf8

/-!
The command that tabulates the curves.
-/

namespace EntityTable.CommandLine.Curves

structure Arguments where
  samples : Argument Int
  output : Argument Path

def initial : Arguments := ⟨.absent, .absent⟩

def options : List (OptionSpec Arguments) :=
  [⟨["-h", "--help"], .help⟩,
    ⟨["--samples"], .value fun value args =>
      return { args with samples := ← Argument.ofInteger value }⟩,
    ⟨["--output"], .value fun value args => .ok { args with output := .ofPath value }⟩]

def defaultSamples : Int := 8

/-- Makes the directory of the report and puts it in place of what was there. -/
def save (tree : FileTree) (output : Path) (report : Text) : FileTree × Except SystemFault Unit :=
  match tree.makeDirectories output.parent with
  | (made, .error fault) => (made, .error fault)
  | (made, .ok ()) =>
    match made.overwrite output.toText report.toUtf8 with
    | .ok saved => (saved, .ok ())
    | .error fault => (made, .error fault)

/-- Prints the report or saves it. -/
def deliver (charset : Charset) (tree : FileTree) (report : Text) : Argument Path → Run
  | .absent => .printing charset tree [report] ⟨tree, [], [], .exit 0⟩
  | .blank => ⟨tree, [], [], .blank .directory⟩
  | .given output =>
    match save tree output report with
    | (left, .error fault) => ⟨left, [], [], .escaped (.refused fault)⟩
    | (left, .ok ()) =>
      .printing charset left [Text.concat ["Saved markdown to: ", output.toText]]
        ⟨left, [], [], .exit 0⟩

def run (charset : Charset) (tree : FileTree) (argv : List Text) : Run :=
  match parse options initial argv with
  | .error stop => .stopped tree stop
  | .ok args =>
    match args.samples.valueFor .samples defaultSamples with
    | .error use => ⟨tree, [], [], .blank use⟩
    | .ok samples =>
      if samples < 2 then
        .stopped tree (.usage (.outOfRange "--samples must be at least 2"))
      else match CurveReport.markdown samples with
        | .error fault => ⟨tree, [], [fault.message], .exit 1⟩
        | .ok report => deliver charset tree report args.output

/-- The paths that a run may touch. -/
def paths (argv : List Text) : List Path :=
  match parse options initial argv with
  | .ok ⟨_, .given output⟩ => [output]
  | _ => []

end EntityTable.CommandLine.Curves
