import CausalTrace.Json.Printer
import CausalTrace.Trace.Document

/-!
# Blueprints

A blueprint is a segment document under construction.  It starts out as a complete segment of zero
length whose name is its id, and is changed by edits, one after the other; a later edit of a field
replaces an earlier one.

## Main definitions

* `Blueprint`, `Blueprint.ofId`
* `Blueprint.Edit`, `Blueprint.apply`, `Blueprint.build`
* `Blueprint.toJson`, `Blueprint.document` — the finished document

## Design notes

A segment has an end time or is in progress, never both; one optional field says which.  Links have
no ids of their own: a link is named for the segment and for the number of links before it, and
since links are only ever added at the end, that number is its place in the list.
-/

namespace CausalTrace

/-- A segment document under construction. -/
structure Blueprint where
  id : String
  name : String
  trace : Option String
  origin : Option String
  parent : Option String
  start : Float
  /-- The end time; none while the segment is in progress. -/
  finish : Option Float
  downstream : Option String
  error : Bool
  fault : Bool
  throttle : Bool
  /-- The id of an exception recorded elsewhere in the trace. -/
  cause : Option String
  annotations : Table String Json
  metadata : Table String Json
  aws : Option Json
  subsegments : List Blueprint
  links : List (LinkKind × TraceId)
  deriving Repr

namespace Blueprint

/-- A complete segment of zero length. -/
def ofId (id : String) : Blueprint where
  id := id
  name := id
  trace := none
  origin := none
  parent := none
  start := 0.0
  finish := some 0.0
  downstream := none
  error := false
  fault := false
  throttle := false
  cause := none
  annotations := []
  metadata := []
  aws := none
  subsegments := []
  links := []

instance : Inhabited Blueprint := ⟨ofId ""⟩

/-- A change of a blueprint. -/
inductive Edit
  | name (name : String)
  | trace (trace : TraceId)
  | origin (origin : String)
  | parent (id : String)
  /-- Completes the segment. -/
  | timing (start finish : Float)
  | start (start : Float)
  /-- Makes the segment one that has started and not ended. -/
  | inProgress
  | downstream (word : String)
  | error
  | fault
  | throttle
  | cause (exception : String)
  | annotation (key : String) (value : Json)
  | metadata (key : String) (value : Json)
  | aws (value : Json)
  | subsegment (nested : Blueprint)
  | link (kind : LinkKind) (trace : TraceId)
  deriving Repr

/-- The blueprint after an edit. -/
def apply (b : Blueprint) : Edit → Blueprint
  | .name s => { b with name := s }
  | .trace t => { b with trace := some t.text }
  | .origin s => { b with origin := some s }
  | .parent id => { b with parent := some id }
  | .timing start finish => { b with start := start, finish := some finish }
  | .start start => { b with start := start }
  | .inProgress => { b with finish := none }
  | .downstream word => { b with downstream := some word }
  | .error => { b with error := true }
  | .fault => { b with fault := true }
  | .throttle => { b with throttle := true }
  | .cause exception => { b with cause := some exception }
  | Edit.annotation k v => { b with annotations := b.annotations.insert k v }
  | .metadata k v => { b with metadata := b.metadata.insert k v }
  | .aws v => { b with aws := some v }
  | .subsegment nested => { b with subsegments := b.subsegments ++ [nested] }
  | .link kind trace => { b with links := b.links ++ [(kind, trace)] }

/-- The blueprint with an id after edits. -/
def build (id : String) (edits : List Edit) : Blueprint := edits.foldl apply (ofId id)

/-- The JSON form of the link with `k` links before it. -/
def linkJson (id : String) (link : (LinkKind × TraceId) × Nat) : Json := .object [
  ("attributes", .object [(LinkKind.attributeKey, .string link.1.1.word)]),
  ("id", .string (id ++ "-link-" ++ toString link.2)),
  ("trace_id", .string link.1.2.text)]

/-- The members of the JSON form of a blueprint, ascending by key, given the JSON forms of the
nested blueprints. -/
def members (b : Blueprint) (subsegments : List Json) : List (String × Option Json) := [
  ("annotations", Segment.filledTable b.annotations),
  ("aws", b.aws),
  ("cause", b.cause.map .string),
  ("end_time", b.finish.map .float),
  ("error", Segment.flag b.error),
  ("fault", Segment.flag b.fault),
  ("id", some (.string b.id)),
  ("in_progress", Segment.flag b.finish.isNone),
  ("links", Segment.filled (linkJson b.id) b.links.zipIdx),
  ("metadata", Segment.filledTable b.metadata),
  ("name", some (.string b.name)),
  ("namespace", b.downstream.map .string),
  ("origin", b.origin.map .string),
  ("parent_id", b.parent.map .string),
  ("start_time", some (.float b.start)),
  ("subsegments", Segment.filled (fun v => v) subsegments),
  ("throttle", Segment.flag b.throttle),
  ("trace_id", b.trace.map .string)]

mutual

/-- The JSON form of a blueprint. -/
def toJson : Blueprint → Json
  | ⟨id, name, trace, origin, parent, start, finish, downstream, error, fault, throttle, cause,
      annotations, metadata, aws, subsegments, links⟩ =>
    .ofMembers (members ⟨id, name, trace, origin, parent, start, finish, downstream, error, fault,
      throttle, cause, annotations, metadata, aws, subsegments, links⟩ (toJsons subsegments))
termination_by structural b => b

/-- The JSON forms of several blueprints. -/
def toJsons : List Blueprint → List Json
  | [] => []
  | b :: rest => toJson b :: toJsons rest
termination_by structural l => l

end

theorem toJsons_eq_map (l : List Blueprint) : toJsons l = l.map toJson := by
  induction l with
  | nil => rfl
  | cons b rest ih => simp [toJsons, ih]

theorem toJson_eq (b : Blueprint) :
    b.toJson = .ofMembers (b.members (b.subsegments.map toJson)) := by
  cases b
  simp [toJson, toJsons_eq_map]

/-- The finished document. -/
def document (b : Blueprint) : Document := ⟨b.id, b.toJson.compact⟩

end Blueprint

end CausalTrace
