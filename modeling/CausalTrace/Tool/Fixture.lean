import CausalTrace.Backend.Store

/-!
# Fixtures

A fixture is a JSON text with the traces that a store is to hold: an array of trace records, or the
answer of a backend that holds one.

## Main definitions

* `Fixture.reader`, `Fixture.parse`
-/

namespace CausalTrace.Fixture

/-- The fields of an answer that holds trace records. -/
def fields : List (Field (List TraceRecord)) :=
  [(Field.ofReader "Traces" (.list TraceRecord.reader) fun x _ => x).orNamed ["traces"] |>.always]

/-- Reads a fixture of either shape. -/
def reader : Reader (List TraceRecord) :=
  .either (.list TraceRecord.reader) (.object fields [])

/-- The trace records of a fixture. -/
def parse (text : String) : Except Flaw (List TraceRecord) := reader.text text

end CausalTrace.Fixture
