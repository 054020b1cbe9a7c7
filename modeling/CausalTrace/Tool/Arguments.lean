import CausalTrace.Decimal.Literal
import CausalTrace.Tool.Request

/-!
# The command line

Reads the words of a command line into a command.

## Main definitions

* `Tool.Flag`, `Tool.Setting` — the options of the command `tree`, without and with a value
* `Tool.TreeArguments` — the command `tree` with its options
* `Tool.Command`, `Tool.Command.parse`
* `Tool.UsageError` — why words are no command

## Design notes

Options are read from left to right into a record that says which have been given, so that an option
given twice is noticed where it is read.  A value follows its option as the next word or behind an
equals sign; only in the second form may it begin with a hyphen, the word of a single hyphen apart.
-/

namespace CausalTrace.Tool

/-- An option that has no value. -/
inductive Flag
  | seed
  | fetchChildTraces
  | allowInProgress
  | json
  deriving DecidableEq, Repr

/-- An option that has a value. -/
inductive Setting
  | header
  | fixture
  | maxLinkDepth
  | timeout
  | expectPaths
  deriving DecidableEq, Repr

/-- The name of a flag. -/
def Flag.name : Flag → String
  | seed => "--seed"
  | fetchChildTraces => "--fetch-child-traces"
  | allowInProgress => "--allow-in-progress"
  | json => "--json"

/-- The name of a setting. -/
def Setting.name : Setting → String
  | header => "--header"
  | fixture => "--fixture"
  | maxLinkDepth => "--max-link-depth"
  | timeout => "--timeout"
  | expectPaths => "--expect-paths"

/-- The flag with a name. -/
def Flag.ofName? (name : String) : Option Flag :=
  [seed, fetchChildTraces, allowInProgress, json].find? (·.name == name)

/-- The setting with a name. -/
def Setting.ofName? (name : String) : Option Setting :=
  [header, fixture, maxLinkDepth, timeout, expectPaths].find? (·.name == name)

/-- Why words are no command. -/
inductive UsageError
  | missingCommand
  | unknownCommand (word : String)
  | unexpected (word : String)
  | repeated (option : String)
  | missingValue (option : String)
  | unexpectedValue (option : String)
  | invalidValue (option value : String)
  | conflict (option other : String)
  deriving DecidableEq, Repr

/-- The text of an error. -/
def UsageError.message : UsageError → String
  | missingCommand => "a command is required: tree or header"
  | unknownCommand word => "unrecognized command " ++ Text.quoted word
  | unexpected word => "unexpected argument " ++ Text.quoted word
  | repeated option => option ++ " cannot be given more than once"
  | missingValue option => "a value is required for " ++ option
  | unexpectedValue option => option ++ " takes no value"
  | invalidValue option value => "invalid value " ++ Text.quoted value ++ " for " ++ option
  | conflict option other => option ++ " cannot be used with " ++ other

/-- The options of the command `tree` as given. -/
structure TreeArguments where
  header : Option String := none
  fixture : Option String := none
  maxLinkDepth : Option Nat := none
  timeout : Option Float := none
  expectPaths : Option Nat := none
  flags : List Flag := []
  deriving Repr

namespace TreeArguments

/-- Whether a flag is given. -/
def has (a : TreeArguments) (f : Flag) : Bool := a.flags.contains f

/-- The arguments with one more flag. -/
def addFlag (a : TreeArguments) (f : Flag) : Except UsageError TreeArguments :=
  if a.has f then .error (.repeated f.name) else .ok { a with flags := f :: a.flags }

/-- A field that is set once. -/
def once {α : Type} (s : Setting) (value : String) (old : Option α) (read : String → Option α) :
    Except UsageError (Option α) :=
  match old, read value with
  | some _, _ => .error (.repeated s.name)
  | none, none => .error (.invalidValue s.name value)
  | none, some x => .ok (some x)

/-- A whole number of 64 bits. -/
def natural? (value : String) : Option Nat := (Decimal.readNat 64 value).toOption

/-- A path, which is not empty. -/
def path? (value : String) : Option String := if value.isEmpty then none else some value

/-- The arguments with one more setting. -/
def addSetting (a : TreeArguments) (s : Setting) (value : String) :
    Except UsageError TreeArguments :=
  match s with
  | .header => (once s value a.header some).map fun x => { a with header := x }
  | .fixture => (once s value a.fixture path?).map fun x => { a with fixture := x }
  | .maxLinkDepth =>
    (once s value a.maxLinkDepth natural?).map fun x => { a with maxLinkDepth := x }
  | .timeout => (once s value a.timeout Decimal.readFloat?).map fun x => { a with timeout := x }
  | .expectPaths =>
    (once s value a.expectPaths natural?).map fun x => { a with expectPaths := x }

/-- Whether a word can be the value of the option before it. -/
def isValue (word : String) : Bool := word == "-" || word.toList.head? != some '-'

/-- A word cut at its first equals sign: the name, and the value behind the sign, if there is
one. -/
def cut (word : String) : String × Option String :=
  let cs := word.toList
  let name := String.ofList (cs.takeWhile (· != '='))
  match cs.dropWhile (· != '=') with
  | [] => (name, none)
  | _ :: value => (name, some (String.ofList value))

/-- The arguments that words add.  The word `--` ends the options, and nothing may follow it. -/
def addWords : List String → TreeArguments → Except UsageError TreeArguments
  | [], a => .ok a
  | ["--"], a => .ok a
  | "--" :: stray :: _, _ => .error (.unexpected stray)
  | word :: rest, a =>
    let (name, attached) := cut word
    match Flag.ofName? name, Setting.ofName? name, attached, rest with
    | some f, _, none, rest => do addWords rest (← a.addFlag f)
    | some _, _, some _, _ => .error (.unexpectedValue name)
    | none, some s, some value, rest => do addWords rest (← a.addSetting s value)
    | none, some s, none, value :: rest =>
      if isValue value then do addWords rest (← a.addSetting s value)
      else .error (.missingValue name)
    | none, some _, none, [] => .error (.missingValue name)
    | none, none, _, _ => .error (.unexpected word)

/-- Refuses arguments that contradict each other. -/
def checked (a : TreeArguments) : Except UsageError TreeArguments :=
  if a.fixture.isSome && a.has .seed then .error (.conflict Setting.fixture.name Flag.seed.name)
  else .ok a

/-- The request of arguments, given the header. -/
def request (a : TreeArguments) (header : String) : Request where
  header := header
  options := {
    fetchChildTraces := a.has .fetchChildTraces
    maxLinkDepth := a.maxLinkDepth.getD ({} : Options).maxLinkDepth
    orphans := .prune
    allowOpenLeaves := a.has .allowInProgress }
  timeout := a.timeout
  expectPaths := a.expectPaths
  json := a.has .json

end TreeArguments

/-- What the tool can do. -/
inductive Command
  /-- Shows a tree. -/
  | tree (arguments : TreeArguments)
  /-- Makes a header for a new trace. -/
  | header
  deriving Repr

/-- The command of the words of a command line. -/
def Command.parse : List String → Except UsageError Command
  | [] => .error .missingCommand
  | "tree" :: rest => ((TreeArguments.addWords rest {}).bind TreeArguments.checked).map .tree
  | ["header"] => .ok .header
  | ["header", "--"] => .ok .header
  | "header" :: "--" :: word :: _ => .error (.unexpected word)
  | "header" :: word :: _ => .error (.unexpected word)
  | word :: _ => .error (.unknownCommand word)

end CausalTrace.Tool
