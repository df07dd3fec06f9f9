import Quorum.Text.Reading

/-! # What is logged

A filter is a list of directives with commas between them. A directive sets the least
grave level that is logged, for one target or for all that have none of their own, and
replaces what an earlier one said about the same target.
-/

namespace Quorum

inductive LogFormat where
  | compact
  | json
  deriving DecidableEq, Repr

/-- The format of a name, the case of its letters aside; every other name is the compact
format. No character beyond ASCII has one of these letters as its small form. -/
def LogFormat.ofName (name : String) : LogFormat :=
  let name := String.ofList (name.toList.map Char.toLower)
  if name = "json" ∨ name = "jsonl" then .json else .compact

/-- How much is logged. -/
inductive LogLevel where
  | off
  | error
  | warn
  | info
  | debug
  | trace
  deriving DecidableEq, Repr

namespace LogLevel

def all : List LogLevel := [.off, .error, .warn, .info, .debug, .trace]

def name : LogLevel → String
  | .off => "off"
  | .error => "error"
  | .warn => "warn"
  | .info => "info"
  | .debug => "debug"
  | .trace => "trace"

/-- The level of a name, the case of its letters aside, or of a number from zero on. -/
def parse? (text : List Char) : Option LogLevel :=
  match Text.unsigned? 5 text with
  | some n => all[n]?
  | none =>
      let text := String.ofList (text.map Char.toLower)
      all.find? (·.name = text)

end LogLevel

/-- The level of a target, or of every target without a level of its own. -/
structure LogDirective where
  target : Option String
  level : LogLevel
  deriving DecidableEq, Repr

namespace LogDirective

def display (directive : LogDirective) : String :=
  match directive.target with
  | none => directive.level.name
  | some target => target ++ "=" ++ directive.level.name

/-- Whether a directive may begin with a character: a letter, a digit or one of three marks. -/
def isInitial (c : Char) : Bool :=
  c.isAlphanum || c = '-' || c = ':' || c = '_' || 0x80 ≤ c.toNat

/-- The level behind a target; none means all. -/
def levelOf? : List Char → Option LogLevel
  | [] => some .trace
  | text => LogLevel.parse? text

/-- Reads a level, a target, or both with an equals sign between them. A target alone is
logged in full. -/
def parse? (text : List Char) : Option LogDirective :=
  if !(Text.trim text).head?.any isInitial || text.contains '[' then none
  else match text.splitOn '=' with
    | [word] =>
        match LogLevel.parse? word with
        | some level => some ⟨none, level⟩
        | none => some ⟨some (.ofList word), .trace⟩
    | [target, level] => (levelOf? level).map (⟨some (.ofList target), ·⟩)
    | _ => none

end LogDirective

structure LogFilter where
  directives : List LogDirective

namespace LogFilter

/-- Levels that hold unless the settings say otherwise: the parts that do the transport
and the replication would drown out everything else. -/
def usual : List (String × String) :=
  [("h2", "warn"), ("hyper", "warn"), ("tower", "warn"), ("tonic", "warn"),
    ("openraft", "warn"), ("openraft::replication", "off")]

/-- The text of a filter with a level and with levels of single targets. -/
def compose (level : String) (targets : List (String × String)) : String :=
  ",".intercalate (level :: (usual ++ targets).map fun (target, level) => target ++ "=" ++ level)

/-- The filter with one more directive, in place of the one for the same target. -/
def insert (filter : LogFilter) (directive : LogDirective) : LogFilter :=
  ⟨filter.directives.filter (·.target ≠ directive.target) ++ [directive]⟩

def parse? (text : String) : Option LogFilter := do
  let directives ← ((text.toList.splitOn ',').filter (· ≠ [])).mapM LogDirective.parse?
  some (directives.foldl insert ⟨[]⟩)

/-- The filter with a level and with levels of single targets, or the message that there
is no such filter. -/
def ofLevels (level : String) (targets : List (String × String)) : Except String LogFilter :=
  let text := compose level targets
  match parse? text with
  | some filter => .ok filter
  | none => .error ("Invalid tracing filter '" ++ text ++ "'")

/-- The directives as text, sorted by their characters. -/
def display (filter : LogFilter) : List String :=
  (filter.directives.map LogDirective.display).mergeSort fun a b => decide (a ≤ b)

end LogFilter
end Quorum
