import CausalTrace.Polling.Timed
import CausalTrace.Tool.Arguments
import CausalTrace.Tool.Demonstration
import CausalTrace.Tool.Fixture

/-!
# Plans

A plan is a request together with the store that it is asked of.  Arguments become a plan once the
files and the environment have been read.

## Main definitions

* `Tool.Surroundings` — what the tool reads besides its arguments
* `Tool.Plan`
* `Tool.TreeArguments.plan` — the plan of arguments
* `Tool.Plan.answer` — the text that is asked for

## Design notes

The store of a plan changes by nothing but being asked, so that polling it can be computed without
waiting: `Plan.answer` polls with the clock of a `Timed` state.
-/

namespace CausalTrace.Tool

/-- What the tool reads besides its arguments. -/
structure Surroundings where
  /-- The text of a file, or why it cannot be read. -/
  fileText : String → Except String String
  /-- The value of the environment variable that sets the base delay. -/
  baseDelay : Option String

/-- A request and the store that it is asked of. -/
structure Plan where
  request : Request
  store : Store
  /-- The base delay of polling, in nanoseconds. -/
  baseDelay : Nat := usualBaseDelay

/-- How a store is asked. -/
def storeLookup : Lookup Store := { backend := Store.backend }

/-- The answer to a plan, had without waiting. -/
def Plan.answer (p : Plan) : Except Problem String :=
  (p.request.answer Timed.clock (Timed.lookup storeLookup) p.baseDelay ⟨p.store, 0⟩).1

/-- The store of a fixture. -/
def fixtureStore (text : String) : Except Problem Store :=
  (Fixture.parse text).mapError Problem.unreadableFixture |>.map Store.ofRecords

namespace TreeArguments

/-- The store of the fixture in a file. -/
def fileStore (w : Surroundings) (path : String) : Except Problem Store := do
  let text ← (w.fileText path).mapError (Problem.unreadableFile path)
  let records ← (Fixture.parse text).mapError (Problem.unreadableFixtureFile path)
  return Store.ofRecords records

/-- The store that arguments ask for, and the header.  The demonstration data come with a header. -/
def source (w : Surroundings) (a : TreeArguments) : Except Problem (Store × Option String) :=
  match a.fixture, a.has .seed with
  | some path, _ => (fileStore w path).map fun store => (store, a.header)
  | none, true =>
    .ok (Demonstration.load .empty, some (a.header.getD Demonstration.header.render))
  | none, false => .error .noSource

/-- The plan of arguments.  The fixture is read first, and the environment last. -/
def plan (w : Surroundings) (a : TreeArguments) : Except Problem Plan := do
  let (store, header) ← a.source w
  match header with
  | none => throw .noHeader
  | some header =>
    let baseDelay ← readBaseDelay w.baseDelay
    return ⟨a.request header, store, baseDelay.getD usualBaseDelay⟩

end TreeArguments

end CausalTrace.Tool
