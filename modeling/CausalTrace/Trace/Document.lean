import CausalTrace.Text.Blank
import CausalTrace.Trace.Basic

/-!
# Segment documents

A backend hands out a trace as a record whose segments are documents: texts in JSON in which every
field is optional.  Absent, `null` and empty fields all occur.  A document is read into a
`WireSegment`, which says no more than the text does, and that is normalized into a `Segment`, once
and for all: nothing else looks at wire segments.

## Main definitions

* `Document`, `TraceRecord` — what a backend hands out
* `WireLink`, `WireSegment` — the content of a document
* `WireSegment.normalize` — the segment of a content
* `Document.segment`, `TraceRecord.trace` — reading and normalizing
* `DocumentError` — why a document holds no segment

## Design notes

Normalization is a `WireSegment.fold` that passes the trace id down: a nested segment without a
trace id belongs to the trace of the segment around it.  The own id of a segment is checked before
the nested segments are, and every error names the document, however deep its cause lies.
-/

namespace CausalTrace

/-- A segment as a backend stores it: its id, and its content in JSON. -/
structure Document where
  id : String
  text : String
  deriving DecidableEq, Repr

/-- A trace as a backend hands it out. -/
structure TraceRecord where
  id : String
  /-- The duration in seconds. -/
  duration : Option Float
  limitExceeded : Option Bool
  documents : List Document
  deriving Repr

/-- Why a document holds no segment.  Errors carry the id of the document. -/
inductive DocumentError
  /-- The text cannot be read. -/
  | unreadable (document : String) (flaw : Flaw)
  /-- The segment, or one nested in it, has no id. -/
  | missingId (document : String)
  deriving DecidableEq, Repr

/-- The text of an error. -/
def DocumentError.message : DocumentError → String
  | .unreadable document flaw =>
    "failed to decode segment document " ++ document ++ ": " ++ flaw.label
  | .missingId document => "segment document " ++ document ++ " is missing required field `id`"

/-! ### Documents and records -/

namespace Document

/-- The fields of a document. -/
def fields : List (Field Document) := [
  (Field.ofReader "id" .string fun x r => { r with id := x }).orNamed ["Id"] |>.always,
  (Field.ofReader "document" .string fun x r => { r with text := x }).orNamed ["Document"]
    |>.always]

/-- Reads a document. -/
def reader : Reader Document := Reader.record fields ⟨"", ""⟩

/-- The JSON form of a document. -/
def toJson (d : Document) : Json := .object [
  ("id", .string d.id),
  ("document", .string d.text)]

end Document

namespace TraceRecord

/-- The fields of a trace record. -/
def fields : List (Field TraceRecord) := [
  (Field.ofReader "id" .string fun x r => { r with id := x }).orNamed ["Id"] |>.always,
  (Field.ofReader "duration" (.optional .float) fun x r => { r with duration := x }).orNamed
    ["Duration"],
  (Field.ofReader "limit_exceeded" (.optional .bool) fun x r =>
    { r with limitExceeded := x }).orNamed ["LimitExceeded", "limitExceeded"],
  (Field.ofReader "segments" (.list Document.reader) fun x r => { r with documents := x }).orNamed
    ["Segments"]]

/-- Reads a trace record. -/
def reader : Reader TraceRecord := Reader.record fields ⟨"", none, none, []⟩

/-- The JSON form of a trace record. -/
def toJson (r : TraceRecord) : Json := .object [
  ("id", .string r.id),
  ("duration", .ofOption .float r.duration),
  ("limit_exceeded", .ofOption .bool r.limitExceeded),
  ("segments", .ofList Document.toJson r.documents)]

end TraceRecord

/-! ### The content of a document -/

/-- A link as a document gives it. -/
structure WireLink where
  trace : Option String
  id : Option String
  attributes : Option (Table String Json)
  deriving Repr

namespace WireLink

/-- The fields of a link. -/
def fields : List (Field WireLink) := [
  .ofReader "trace_id" (.optional .string) fun x r => { r with trace := x },
  .ofReader "id" (.optional .string) fun x r => { r with id := x },
  .ofReader "attributes" (.optional (.table .any)) fun x r => { r with attributes := x }]

/-- Reads a link. -/
def reader : Reader WireLink := Reader.record fields ⟨none, none, none⟩

/-- The kind that the reserved attribute gives. -/
def kind? (w : WireLink) : Option LinkKind := do
  let attributes ← w.attributes
  let value ← attributes.get? LinkKind.attributeKey
  let word ← value.string?
  LinkKind.ofWord? word

/-- The link, if it says where it leads to and how the trace there is related. -/
def normalize? (w : WireLink) : Option Link := do
  let trace ← w.trace.bind Text.nonBlank?
  let kind ← w.kind?
  return ⟨⟨trace⟩, w.id.getD "", kind⟩

end WireLink

/-- The content of a document, in the order in which the fields of a document are listed. -/
structure WireSegment where
  id : Option String := none
  name : Option String := none
  trace : Option String := none
  start : Option Float := none
  finish : Option Float := none
  inProgress : Option Bool := none
  parent : Option String := none
  origin : Option String := none
  downstream : Option String := none
  kind : Option String := none
  service : Option Service := none
  user : Option String := none
  error : Option Bool := none
  fault : Option Bool := none
  throttle : Option Bool := none
  traced : Option Bool := none
  precursors : Option (List String) := none
  cause : Option Cause := none
  http : Option Http := none
  sql : Option Sql := none
  aws : Option Json := none
  annotations : Option (Table String Json) := none
  metadata : Option (Table String Json) := none
  subsegments : Option (List WireSegment) := none
  links : Option (List WireLink) := none
  deriving Repr

namespace WireSegment

variable {α : Type}

/-- The fields of a content, given how the nested contents are read. -/
def fields (nested : Draft → Except Flaw (Option (List WireSegment))) :
    List (Field WireSegment) := [
  .ofReader "id" (.optional .string) fun x r => { r with id := x },
  .ofReader "name" (.optional .string) fun x r => { r with name := x },
  .ofReader "trace_id" (.optional .string) fun x r => { r with trace := x },
  .ofReader "start_time" (.optional .float) fun x r => { r with start := x },
  .ofReader "end_time" (.optional .float) fun x r => { r with finish := x },
  .ofReader "in_progress" (.optional .bool) fun x r => { r with inProgress := x },
  .ofReader "parent_id" (.optional .string) fun x r => { r with parent := x },
  .ofReader "origin" (.optional .string) fun x r => { r with origin := x },
  .ofReader "namespace" (.optional .string) fun x r => { r with downstream := x },
  .ofReader "type" (.optional .string) fun x r => { r with kind := x },
  .ofReader "service" (.optional Service.reader) fun x r => { r with service := x },
  .ofReader "user" (.optional .string) fun x r => { r with user := x },
  .ofReader "error" (.optional .bool) fun x r => { r with error := x },
  .ofReader "fault" (.optional .bool) fun x r => { r with fault := x },
  .ofReader "throttle" (.optional .bool) fun x r => { r with throttle := x },
  .ofReader "traced" (.optional .bool) fun x r => { r with traced := x },
  .ofReader "precursor_ids" (.optional (.list .string)) fun x r => { r with precursors := x },
  .ofReader "cause" (.optional Cause.reader) fun x r => { r with cause := x },
  .ofReader "http" (.optional Http.reader) fun x r => { r with http := x },
  .ofReader "sql" (.optional Sql.reader) fun x r => { r with sql := x },
  .ofReader "aws" (.optional .any) fun x r => { r with aws := x },
  .ofReader "annotations" (.optional (.table .any)) fun x r => { r with annotations := x },
  .ofReader "metadata" (.optional (.table .any)) fun x r => { r with metadata := x },
  .ofReader "subsegments" (fun _ => nested) fun x r => { r with subsegments := x },
  .ofReader "links" (.optional (.list WireLink.reader)) fun x r => { r with links := x }]

/-- Reads a content.  It opens one bracket for itself and one for the list of nested contents. -/
def reader : Reader WireSegment
  | 0 => Reader.record (fields fun d => .error d.refusal) {} 0
  | 1 => Reader.record (fields (Reader.optional (Reader.list fun _ d => .error d.refusal) 0)) {} 1
  | depth + 2 =>
    Reader.record (fields (Reader.optional (fun _ => Reader.itemsOf (reader depth)) 1)) {}
      (depth + 2)

mutual

/-- The value of a content, computed from it and the values of the contents directly in it. -/
def fold (f : WireSegment → List α → α) : WireSegment → α
  | ⟨id, name, trace, start, finish, inProgress, parent, origin, downstream, kind, service, user,
      error, fault, throttle, traced, precursors, cause, http, sql, aws, annotations, metadata,
      subsegments, links⟩ =>
    f ⟨id, name, trace, start, finish, inProgress, parent, origin, downstream, kind, service, user,
        error, fault, throttle, traced, precursors, cause, http, sql, aws, annotations, metadata,
        subsegments, links⟩
      (foldOption f subsegments)
termination_by structural w => w

/-- The values of the contents nested in one. -/
def foldOption (f : WireSegment → List α → α) : Option (List WireSegment) → List α
  | none => []
  | some l => foldAll f l
termination_by structural l => l

/-- The values of several contents. -/
def foldAll (f : WireSegment → List α → α) : List WireSegment → List α
  | [] => []
  | w :: rest => fold f w :: foldAll f rest
termination_by structural l => l

end

theorem foldAll_eq_map (f : WireSegment → List α → α) (l : List WireSegment) :
    foldAll f l = l.map (fold f) := by
  induction l with
  | nil => rfl
  | cons w rest ih => simp [foldAll, ih]

/-- The value of a content comes from the values of the contents directly in it. -/
theorem fold_eq (f : WireSegment → List α → α) (w : WireSegment) :
    fold f w = f w ((w.subsegments.getD []).map (fold f)) := by
  obtain ⟨⟩ := w
  rename_i subsegments _
  cases subsegments <;> simp [fold, foldOption, foldAll_eq_map]

/-! ### Normalization -/

/-- A cause, unless it is the empty exception id. -/
def namedCause? : Cause → Option Cause
  | .exception "" => none
  | cause => some cause

/-- The segment of a content, apart from its nested segments.  An absent name is the id. -/
def segment (w : WireSegment) (id : String) (trace : TraceId) (subsegments : List Segment) :
    Segment where
  id := id
  name := w.name.getD id
  trace := trace
  start := (w.start.map Timestamp.ofSeconds).getD .epoch
  finish := w.finish.map Timestamp.ofSeconds
  inProgress := w.inProgress.getD false
  parent := w.parent.bind Text.nonBlank?
  origin := w.origin.bind Text.nonBlank?
  downstream := w.downstream.bind Namespace.ofWord?
  kind := w.kind.bind Text.nonBlank?
  service := w.service
  user := w.user.bind Text.nonBlank?
  error := w.error.getD false
  fault := w.fault.getD false
  throttle := w.throttle.getD false
  traced := w.traced.getD false
  precursors := w.precursors.getD []
  cause := w.cause.bind namedCause?
  http := w.http
  sql := w.sql
  aws := w.aws.filter fun v => !v.isNull
  annotations := w.annotations.getD []
  metadata := w.metadata.getD []
  subsegments := subsegments
  links := (w.links.getD []).filterMap WireLink.normalize?

/-- The segment of a content that stands in a document and inherits a trace id. -/
def normalize (document : String) : WireSegment → TraceId → Except DocumentError Segment :=
  fold fun w nested inherited =>
    match w.id.bind Text.nonBlank? with
    | none => .error (.missingId document)
    | some id => do
      let trace := ((w.trace.bind Text.nonBlank?).map TraceId.mk).getD inherited
      let subsegments ← nested.mapM fun segmentIn => segmentIn trace
      return w.segment id trace subsegments

end WireSegment

/-- Reads and normalizes a document that belongs to a trace. -/
def Document.segment (d : Document) (trace : TraceId) : Except DocumentError Segment :=
  match WireSegment.reader.text d.text with
  | .error flaw => .error (.unreadable d.id flaw)
  | .ok w => w.normalize d.id trace

/-- Reads and normalizes all documents of a record, up to the first that holds no segment. -/
def TraceRecord.trace (r : TraceRecord) : Except DocumentError Trace := do
  let segments ← r.documents.mapM fun d => d.segment ⟨r.id⟩
  return ⟨⟨r.id⟩, r.duration, r.limitExceeded.getD false, segments⟩

end CausalTrace
