import CausalTrace.Json.Printer
import CausalTrace.Polling.Await
import CausalTrace.Tool.Listing
import CausalTrace.Tool.Problem

/-!
# Requests

What the tool is asked for: the tree of a header, had at once or polled for, and shown as a listing
or in JSON.

## Main definitions

* `Tool.Request`
* `Tool.Request.check` — the check that polling uses
* `Tool.Request.conclude` — what the outcome of polling means
* `Tool.Request.tree`, `Tool.Request.answer`
-/

namespace CausalTrace.Tool

/-- What the tool is asked for. -/
structure Request where
  header : String
  options : Options := {}
  /-- The number of seconds to poll for, where zero means no limit; none to ask once. -/
  timeout : Option Float := none
  /-- The number of paths that the tree has to have. -/
  expectPaths : Option Nat := none
  /-- Whether the tree is shown in JSON. -/
  json : Bool := false
  deriving Repr

namespace Request

/-- What is wrong with the number of paths of a tree. -/
def objection? (r : Request) (t : Tree) : Option Problem :=
  match r.expectPaths with
  | none => none
  | some expected =>
    if t.leafCount = expected then none else some (.pathCount expected t.leafCount)

/-- The check that polling uses. -/
def check {σ : Type} (r : Request) : Check σ Tree :=
  .ofAssertion fun t s => ((r.objection? t).map Problem.message, s)

/-- The tree that polling for some seconds ended with. -/
def conclude (r : Request) (seconds : Float) : Outcome Failure Tree → Except Problem Tree
  | .accepted t => .ok t
  | .failed e => .error (.failed e)
  | .timedOut => .error (.noMatch r.header seconds)
  | .exhausted => .error (.noMatch r.header seconds)

variable {σ : Type}

/-- The tree that is asked for, from a backend that is asked once. -/
def treeOnce (r : Request) (l : Lookup σ) (s : σ) : Except Problem Tree × σ :=
  match Tree.ofHeaderText l r.header r.options s with
  | (.error e, s') => (.error (.failed e), s')
  | (.ok t, s') =>
    match r.objection? t with
    | some problem => (.error problem, s')
    | none => (.ok t, s')

/-- The tree that is asked for. -/
def tree (r : Request) (clock : Clock σ) (l : Lookup σ) (baseDelay : Nat) (s : σ) :
    Except Problem Tree × σ :=
  match r.timeout with
  | none => r.treeOnce l s
  | some seconds =>
    let report := Tree.awaitFor clock baseDelay l r.header r.options r.check seconds s
    (r.conclude seconds report.outcome, report.state)

/-- A tree as it is asked for. -/
def present (r : Request) (t : Tree) : String := if r.json then t.toJson.pretty else t.listing

/-- The text that is asked for. -/
def answer (r : Request) (clock : Clock σ) (l : Lookup σ) (baseDelay : Nat) (s : σ) :
    Except Problem String × σ :=
  let (t, s') := r.tree clock l baseDelay s
  (t.map r.present, s')

end Request

end CausalTrace.Tool
