import EntityTable.Text.Quoted
import EntityTable.Text.Property

/-!
Command-line options: long names that may be shortened, short names that may be run together,
values in the same word or in the next.
-/

namespace EntityTable.CommandLine

/-- What an option does to the arguments read so far. A value can be blank, and it can be refused
with a reason. -/
inductive Action (σ : Type)
  | help
  | switch (set : σ → σ)
  | value (set : Option Text → σ → Except Text σ)

structure OptionSpec (σ : Type) where
  names : List Text
  action : Action σ

inductive UsageError
  | ambiguous (word : Text) (candidates : List Text)
  | valueExpected (option : Text)
  | valueIgnored (option value : Text)
  | valueRefused (option reason : Text)
  | unrecognized (words : List Text)
  | outOfRange (reason : Text)

def UsageError.message : UsageError → Text
  | .ambiguous word candidates =>
    Text.concat ["ambiguous option: ", word, " could match ", Text.join ", " candidates]
  | .valueExpected option => Text.concat ["argument ", option, ": expected one argument"]
  | .valueIgnored option value =>
    Text.concat ["argument ", option, ": ignored explicit argument ", value.quoted]
  | .valueRefused option reason => Text.concat ["argument ", option, ": ", reason]
  | .unrecognized words => Text.concat ["unrecognized arguments: ", Text.join " " words]
  | .outOfRange reason => reason

/-- Why reading the arguments ends early. -/
inductive Stop
  | help
  | usage (error : UsageError)

/-- A word of the command line: for no option, an option, or a mistake to report in its turn. -/
inductive Word (σ : Type)
  | operand (text : Text)
  | unknown (text : Text)
  | option (spec : OptionSpec σ) (value : Option Text)
  | refused (error : UsageError)

namespace OptionSpec

variable {σ : Type}

/-- All names of the option, as messages show them. -/
def shown (spec : OptionSpec σ) : Text := Text.join "/" spec.names

def usage (spec : OptionSpec σ) : Text :=
  Text.concat ["  ", spec.shown, match spec.action with
    | .value _ => " VALUE"
    | .help | .switch _ => ""]

def takesValue (spec : OptionSpec σ) : Bool :=
  match spec.action with
  | .value _ => true
  | .help | .switch _ => false

end OptionSpec

variable {σ : Type}

def findOption? (specs : List (OptionSpec σ)) (name : Text) : Option (OptionSpec σ) :=
  specs.find? fun spec => spec.names.contains name

def dash : CodePoint := CodePoint.ofChar '-'

def isShort (name : Text) : Bool := name.head? = some dash && (name.drop 1).head? ≠ some dash

/-- An option without a value, and the further short options in the rest of its word. -/
def cluster (specs : List (OptionSpec σ)) (spec : OptionSpec σ) :
    Text → Except UsageError (List (Word σ))
  | [] => .ok [.option spec none]
  | c :: rest =>
    match findOption? specs [dash, c] with
    | none => .error (.valueIgnored spec.shown (c :: rest))
    | some next =>
      if next.takesValue ∧ !rest.isEmpty then .ok [.option spec none, .option next (some rest)]
      else (cluster specs next rest).map (.option spec none :: ·)

def withValue (specs : List (OptionSpec σ)) (spec : OptionSpec σ) (name value : Text) :
    List (Word σ) :=
  if spec.takesValue then [.option spec (some value)]
  else if isShort name && !value.isEmpty then
    match cluster specs spec value with
    | .ok words => words
    | .error e => [.refused e]
  else [.refused (.valueIgnored spec.shown value)]

/-- The word before its first equals sign, and what stands behind. -/
def splitValue (word : Text) : Text × Option Text :=
  let name := word.takeWhile (· ≠ CodePoint.ofChar '=')
  match word.drop name.length with
  | [] => (name, none)
  | _ :: value => (name, some value)

/-- The options that a word may mean although it is no option's full name. -/
def candidates (specs : List (OptionSpec σ)) (word : Text) :
    List (OptionSpec σ × Text × Option Text) :=
  let named := specs.flatMap fun spec => spec.names.map fun name => (spec, name)
  if isShort word then
    named.filterMap fun (spec, name) =>
      if name = word.take 2 then some (spec, name, some (word.drop 2))
      else if word.isPrefixOf name then some (spec, name, none)
      else none
  else
    let (start, value) := splitValue word
    named.filterMap fun (spec, name) =>
      if start.isPrefixOf name then some (spec, name, value) else none

def isDecimal (c : CodePoint) : Bool := c.decimalDigit?.isSome

/-- A minus sign, digits, and at most one point among or before them. -/
def isNegativeNumber : Text → Bool
  | [] => false
  | c :: rest =>
    let body := if rest.getLast? = some (CodePoint.ofChar '\n') then rest.dropLast else rest
    let whole := body.takeWhile isDecimal
    let fraction := body.drop (whole.length + 1)
    c = dash && if body.length = whole.length then !whole.isEmpty
      else (body.drop whole.length).head? = some (CodePoint.ofChar '.') && !fraction.isEmpty &&
        fraction.all isDecimal

/-- A word that holds no option's full name: the one option that it may mean, or none. -/
def classifyShortened (specs : List (OptionSpec σ)) (word : Text) :
    Except UsageError (List (Word σ)) :=
  match candidates specs word with
  | [] =>
    if isNegativeNumber word || word.contains (CodePoint.ofChar ' ') then .ok [.operand word]
    else .ok [.unknown word]
  | [(spec, _, none)] => .ok [.option spec none]
  | [(spec, name, some value)] => .ok (withValue specs spec name value)
  | several => .error (.ambiguous word (several.map fun (_, name, _) => name))

def classify (specs : List (OptionSpec σ)) (word : Text) : Except UsageError (List (Word σ)) :=
  if word.head? ≠ some dash ∨ word.length = 1 then .ok [.operand word]
  else match findOption? specs word, splitValue word with
    | some spec, _ => .ok [.option spec none]
    | none, (_, none) => classifyShortened specs word
    | none, (name, some value) =>
      match findOption? specs name with
      | some spec => .ok (withValue specs spec name value)
      | none => classifyShortened specs word

/-- Two dashes alone end the options. -/
def classifyAll (specs : List (OptionSpec σ)) : List Text → Except UsageError (List (Word σ))
  | [] => .ok []
  | word :: rest =>
    if word = "--" then .ok (.unknown word :: rest.map .operand)
    else do return (← classify specs word) ++ (← classifyAll specs rest)

/-- Two dashes in the word of their option leave its value blank. -/
def valueInWord (value : Text) : Option Text := if value = "--" then none else some value

def setValue (spec : OptionSpec σ) (set : Option Text → σ → Except Text σ) (value : Option Text)
    (args : σ) : Except Stop σ :=
  (set value args).mapError fun reason => .usage (.valueRefused spec.shown reason)

/-- Performs the options in their order and collects the words that belong to none. -/
def perform : List (Word σ) → σ → Except Stop (σ × List Text)
  | [], args => .ok (args, [])
  | .operand word :: rest, args | .unknown word :: rest, args => do
    let (args, extras) ← perform rest args
    return (args, word :: extras)
  | .refused e :: _, _ => .error (.usage e)
  | .option spec (some value) :: rest, args =>
    match spec.action with
    | .value set => do perform rest (← setValue spec set (valueInWord value) args)
    | .help | .switch _ => .error (.usage (.valueIgnored spec.shown value))
  | .option spec none :: rest, args =>
    match spec.action with
    | .help => .error .help
    | .switch set => perform rest (set args)
    | .value set =>
      match rest with
      | .operand value :: rest => do perform rest (← setValue spec set (some value) args)
      | _ => .error (.usage (.valueExpected spec.shown))

def parse (specs : List (OptionSpec σ)) (initial : σ) (argv : List Text) : Except Stop σ := do
  let words ← (classifyAll specs argv).mapError .usage
  let (args, extras) ← perform words initial
  if !extras.isEmpty then throw (.usage (.unrecognized extras))
  return args

end EntityTable.CommandLine
