import CausalTrace.Trace.Segment

/-!
# Traces

All segments with one trace id, as a backend holds them at the moment.

## Main definitions

* `Trace`
* `Trace.segments` of all levels: `Trace.all`, `Trace.count`, `Trace.find?`
* `Trace.hasErrors`, `Trace.isSame`, `Trace.toJson`
-/

namespace CausalTrace

/-- A trace. -/
structure Trace where
  id : TraceId
  /-- The duration in seconds, if the backend reports one. -/
  duration : Option Float
  /-- Whether the backend dropped segments because the trace grew too large. -/
  limitExceeded : Bool
  /-- The top-level segments, not necessarily connected with each other. -/
  segments : List Segment
  deriving Repr

namespace Trace

/-- The segments of all levels, each before those nested in it. -/
def all (t : Trace) : List Segment := t.segments.flatMap fun s => s :: s.descendants

/-- The number of segments of all levels. -/
def count (t : Trace) : Nat := t.all.length

/-- The first segment of any level with an id. -/
def find? (t : Trace) (id : String) : Option Segment := t.all.find? fun s => s.id == id

/-- Whether a segment of any level reports an error, a fault or throttling. -/
def hasErrors (t : Trace) : Bool := t.segments.any Segment.hasErrors

/-- Whether two lists of segments are the same, segment by segment. -/
def sameSegments : List Segment → List Segment → Bool
  | [], [] => true
  | s :: ss, t :: ts => s.isSame t && sameSegments ss ts
  | _, _ => false

/-- Whether two traces are the same, segments counting by their ids. -/
def isSame (t u : Trace) : Bool :=
  t.id == u.id && t.duration == u.duration && t.limitExceeded == u.limitExceeded
    && sameSegments t.segments u.segments

/-- The JSON form of a trace. -/
def toJson (t : Trace) : Json := .ofMembers [
  ("id", some (.string t.id.text)),
  ("duration", t.duration.map .float),
  ("limit_exceeded", some (.bool t.limitExceeded)),
  ("segments", some (.ofList Segment.toJson t.segments))]

end Trace

end CausalTrace
