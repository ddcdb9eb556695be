import EntityTable.Text

/-!
Outcomes together with the log written on the way to them. A failure keeps the log so far.
-/

namespace EntityTable

inductive LogLevel
  | debug
  | info
  | warning
  deriving DecidableEq

namespace LogLevel

def name : LogLevel → Text
  | .debug => "DEBUG"
  | .info => "INFO"
  | .warning => "WARNING"

def severity : LogLevel → Nat
  | .debug => 0
  | .info => 1
  | .warning => 2

end LogLevel

/-- What the program says, and what a package says that it uses. -/
inductive LogEvent
  | package (level : LogLevel) (source message : Text)
  | normalizing (key : Text)
  | noDamage (key : Text) (subtype : Option Text)
  | resolved (key : Text) (count inherited : Nat)
  | compiled (count : Nat)
  | wrote (count : Nat) (path : Text)
  deriving DecidableEq

namespace LogEvent

def level : LogEvent → LogLevel
  | .package level _ _ => level
  | .normalizing _ | .resolved .. => .debug
  | .compiled _ | .wrote .. => .info
  | .noDamage .. => .warning

/-- The part of the program that speaks. -/
def source : LogEvent → Text
  | .package _ source _ => source
  | .normalizing _ | .compiled _ | .wrote .. => "entity_compiler.compiler"
  | .resolved .. => "entity_compiler.turrets"
  | .noDamage .. => "entity_compiler.attributes"

def message : LogEvent → Text
  | .package _ _ message => message
  | .normalizing key => Text.concat ["Normalizing '", key, "'"]
  | .noDamage key subtype =>
    Text.concat ["Weapon '", key, "' (subtype ", subtype.getD "None",
      ") has no authored damage and no damage curve"]
  | .resolved key count inherited =>
    Text.concat ["Resolved ", Text.ofNat count, " armaments for '", key, "' (",
      Text.ofNat inherited, " inherited)"]
  | .compiled count => Text.concat ["Compiled ", Text.ofNat count, " entity templates"]
  | .wrote count path =>
    Text.concat ["Wrote ", Text.ofNat count, " entity templates to ", path]

def line (event : LogEvent) : Text :=
  Text.concat [event.level.name, " ", event.source, ": ", event.message]

def isAtLeast (level : LogLevel) (event : LogEvent) : Bool :=
  level.severity ≤ event.level.severity

/-- What a reader sees who asked for a level. -/
def lines (level : LogLevel) (log : List LogEvent) : List Text :=
  (log.filter (isAtLeast level)).map line

end LogEvent

structure Logged (ε α : Type) where
  log : List LogEvent
  outcome : Except ε α

namespace Logged

variable {ε α β : Type}

def andThen (x : Logged ε α) (f : α → Logged ε β) : Logged ε β :=
  match x.outcome with
  | .error e => ⟨x.log, .error e⟩
  | .ok a => ⟨x.log ++ (f a).log, (f a).outcome⟩

instance : Monad (Logged ε) where
  pure a := ⟨[], .ok a⟩
  bind := andThen

def write (event : LogEvent) : Logged ε Unit := ⟨[event], .ok ()⟩

def ofExcept (outcome : Except ε α) : Logged ε α := ⟨[], outcome⟩

instance : MonadLift (Except ε) (Logged ε) := ⟨ofExcept⟩

def mapError {ε' : Type} (f : ε → ε') (x : Logged ε α) : Logged ε' α :=
  ⟨x.log, x.outcome.mapError f⟩

end Logged
end EntityTable
