import CausalTrace.Backend.Batch
import CausalTrace.Decimal.Literal
import CausalTrace.Text.Quoted

/-!
# What the tool fails with

Every way in which the tool may give no tree, and the texts that say so, from the outermost cause to
the innermost.

## Main definitions

* `Tool.Problem`
* `Tool.Problem.chain`, `Tool.Problem.message`, `Tool.Problem.report`
* `Tool.readBaseDelay` — the value of the environment variable
-/

namespace CausalTrace.Tool

/-- The environment variable that sets the base delay of polling, in milliseconds. -/
def baseDelayVariable : String := "XRAY_TREE_BASE_DELAY_MS"

/-- Why the tool gives no tree. -/
inductive Problem
  /-- Neither a fixture nor the demonstration data is asked for. -/
  | noSource
  /-- A fixture is given without a header. -/
  | noHeader
  /-- The file of a fixture cannot be read. -/
  | unreadableFile (path : String) (reason : String)
  /-- The text of a fixture holds no traces. -/
  | unreadableFixture (flaw : Flaw)
  /-- The text in a file holds no traces. -/
  | unreadableFixtureFile (path : String) (flaw : Flaw)
  | invalidBaseDelay (text : String) (cause : Decimal.NatError)
  | failed (cause : Failure)
  /-- The tree does not have as many paths as are expected. -/
  | pathCount (expected found : Nat)
  /-- No tree was accepted in the time given. -/
  | noMatch (header : String) (seconds : Float)
  deriving Repr

namespace Problem

/-- The text that says that a fixture holds no traces. -/
def fixtureText : String := "fixture is neither a trace array nor a BatchGetTraces response"

/-- The text of a problem, and the texts of its causes. -/
def chain : Problem → List String
  | noSource => ["either --fixture or --seed is required"]
  | noHeader => ["--header is required with --fixture"]
  | unreadableFile path reason => ["reading " ++ path, reason]
  | unreadableFixture flaw => [fixtureText, flaw.label]
  | unreadableFixtureFile path flaw => ["parsing " ++ path, fixtureText, flaw.label]
  | invalidBaseDelay text cause =>
    [baseDelayVariable ++ " must be a whole number of milliseconds, got " ++ Text.quoted text,
      cause.message]
  | failed cause => cause.chain
  | pathCount expected found =>
    ["expected " ++ toString expected ++ " paths, found " ++ toString found]
  | noMatch header seconds =>
    ["no matching tree for " ++ header ++ " within " ++ Decimal.Style.message.render seconds ++ "s"]

/-- The text of a problem. -/
def message (p : Problem) : String := (p.chain.head?).getD ""

/-- Causes, one a line, numbered from zero on. -/
def numbered (causes : List String) : String :=
  String.join ((causes.zipIdx).map fun c => "    " ++ toString c.2 ++ ": " ++ c.1 ++ "\n")

/-- The text that reports a problem to a person. -/
def report (p : Problem) : String :=
  "Error: " ++ p.message ++ "\n" ++
    match p.chain.drop 1 with
    | [] => ""
    | [cause] => "\nCaused by:\n    " ++ cause ++ "\n"
    | causes => "\nCaused by:\n" ++ numbered causes

end Problem

/-- The base delay, in nanoseconds, that a value of the environment variable sets.  A blank value
sets none, like no value. -/
def readBaseDelay (value : Option String) : Except Problem (Option Nat) :=
  match value.bind Text.nonBlank? with
  | none => .ok none
  | some text =>
    match Decimal.readNat 64 (Text.trim text) with
    | .ok millis => .ok (some (millis * 1000000))
    | .error e => .error (.invalidBaseDelay (Text.trim text) e)

end CausalTrace.Tool
