import CausalTrace.Trace.Detail
import CausalTrace.Trace.Id
import CausalTrace.Trace.Timestamp

/-!
# Segments

A segment is one unit of work of a distributed trace.  It may hold nested segments, to any depth,
and links to other traces.

## Main definitions

* `Link`, `Segment`
* `Segment.fold` — recursion over a segment and what is nested in it
* `Segment.descendants` — all nested segments, each before those nested in it
* `Segment.linksOf`, `Segment.hasErrors`, `Segment.isOpen`, `Segment.duration?`
* `Segment.toJson` — the JSON form

## Design notes

Everything that goes through nested segments is a `fold`, whose one equation is `fold_eq`, or a
question about `descendants`.  The descendants are enumerated by a walk over a list of pending
segments, which ends because the number of segments still to be seen goes down.
-/

namespace CausalTrace

/-- A link from a segment to another trace. -/
structure Link where
  trace : TraceId
  id : String
  kind : LinkKind
  deriving DecidableEq, Repr

/-- A segment, in the order in which its fields are written. -/
structure Segment where
  id : String
  name : String
  trace : TraceId
  start : Timestamp
  finish : Option Timestamp
  /-- Whether the segment says of itself that it is in progress. -/
  inProgress : Bool
  parent : Option String
  /-- The kind of resource that recorded the segment. -/
  origin : Option String
  /-- What a segment that stands for a downstream call calls. -/
  downstream : Option Namespace
  kind : Option String
  service : Option Service
  user : Option String
  error : Bool
  fault : Bool
  throttle : Bool
  traced : Bool
  precursors : List String
  cause : Option Cause
  http : Option Http
  sql : Option Sql
  aws : Option Json
  annotations : Table String Json
  metadata : Table String Json
  subsegments : List Segment
  links : List Link
  deriving Repr

namespace Segment

variable {α : Type}

/-! ### Recursion -/

mutual

/-- The value of a segment, computed from it and the values of the segments directly in it. -/
def fold (f : Segment → List α → α) : Segment → α
  | ⟨id, name, trace, start, finish, inProgress, parent, origin, downstream, kind, service, user,
      error, fault, throttle, traced, precursors, cause, http, sql, aws, annotations, metadata,
      subsegments, links⟩ =>
    f ⟨id, name, trace, start, finish, inProgress, parent, origin, downstream, kind, service, user,
        error, fault, throttle, traced, precursors, cause, http, sql, aws, annotations, metadata,
        subsegments, links⟩
      (foldAll f subsegments)
termination_by structural s => s

/-- The values of several segments. -/
def foldAll (f : Segment → List α → α) : List Segment → List α
  | [] => []
  | s :: rest => fold f s :: foldAll f rest
termination_by structural l => l

end

theorem foldAll_eq_map (f : Segment → List α → α) (l : List Segment) :
    foldAll f l = l.map (fold f) := by
  induction l with
  | nil => rfl
  | cons s rest ih => simp [foldAll, ih]

/-- The value of a segment comes from the values of the segments directly in it. -/
theorem fold_eq (f : Segment → List α → α) (s : Segment) :
    fold f s = f s (s.subsegments.map (fold f)) := by
  cases s
  simp [fold, foldAll_eq_map]

/-- The number of segments: this one and all nested in it. -/
def size : Segment → Nat := fold fun _ sizes => sizes.foldr (· + ·) 0 + 1

/-- The number of segments of several, with all nested in them. -/
def totalSize (l : List Segment) : Nat := (l.map size).foldr (· + ·) 0

theorem size_eq (s : Segment) : s.size = totalSize s.subsegments + 1 := fold_eq _ s

theorem totalSize_cons (s : Segment) (l : List Segment) :
    totalSize (s :: l) = s.size + totalSize l := rfl

theorem totalSize_append (l m : List Segment) : totalSize (l ++ m) = totalSize l + totalSize m := by
  induction l with
  | nil => simp [totalSize]
  | cons s l ih => rw [List.cons_append, totalSize_cons, totalSize_cons, ih, Nat.add_assoc]

/-! ### Nested segments -/

/-- The pending segments and all nested in them, each before those nested in it. -/
def walk : List Segment → List Segment
  | [] => []
  | s :: pending => s :: walk (s.subsegments ++ pending)
termination_by pending => totalSize pending
decreasing_by
  rw [totalSize_append, totalSize_cons, size_eq]
  omega

/-- All segments nested in a segment, each before those nested in it. -/
def descendants (s : Segment) : List Segment := walk s.subsegments

/-- The links of a kind on a segment, then on its descendants. -/
def linksOf (s : Segment) (kind : LinkKind) : List Link :=
  (s.links ++ s.descendants.flatMap links).filter fun link => link.kind == kind

/-- Whether a segment itself reports an error, a fault or throttling. -/
def isFlagged (s : Segment) : Bool := s.error || s.fault || s.throttle

/-- Whether a segment or one nested in it reports an error, a fault or throttling. -/
def hasErrors (s : Segment) : Bool := s.isFlagged || s.descendants.any isFlagged

/-! ### Progress and identity -/

/-- A segment is open until it has an end time, and as long as it says that it is in progress. -/
def isOpen (s : Segment) : Bool := s.inProgress || s.finish.isNone

/-- The nanoseconds from start to end; zero when the end comes first. -/
def duration? (s : Segment) : Option Nat := s.finish.map fun t => t.since s.start

/-- Two segments are the same when they have the same id and the same trace id. -/
def isSame (s t : Segment) : Bool := s.id == t.id && s.trace == t.trace

end Segment

/-! ### JSON forms -/

/-- The JSON form of a link. -/
def Link.toJson (link : Link) : Json := .object [
  ("trace_id", .string link.trace.text),
  ("id", .string link.id),
  ("reference_type", .string link.kind.word)]

namespace Segment

/-- A flag that is written only when it is set. -/
def flag (b : Bool) : Option Json := if b then some (.bool true) else none

/-- An array that is written only when it has items. -/
def filled {α : Type} (write : α → Json) (xs : List α) : Option Json :=
  if xs.isEmpty then none else some (.ofList write xs)

/-- A table that is written only when it has entries. -/
def filledTable (t : Table String Json) : Option Json :=
  if t.isEmpty then none else some (.ofTable t)

/-- The JSON form of a segment.  What is absent, unset or empty is left out. -/
def toJson : Segment → Json := fold fun s subsegments => .ofMembers [
  ("id", some (.string s.id)),
  ("name", some (.string s.name)),
  ("trace_id", some (.string s.trace.text)),
  ("start_time", some (.float s.start.seconds)),
  ("end_time", s.finish.map fun t => .float t.seconds),
  ("in_progress", flag s.inProgress),
  ("parent_id", s.parent.map .string),
  ("origin", s.origin.map .string),
  ("namespace", s.downstream.map fun n => .string n.word),
  ("type", s.kind.map .string),
  ("service", s.service.map Service.toJson),
  ("user", s.user.map .string),
  ("error", flag s.error),
  ("fault", flag s.fault),
  ("throttle", flag s.throttle),
  ("traced", flag s.traced),
  ("precursor_ids", filled .string s.precursors),
  ("cause", s.cause.map Cause.toJson),
  ("http", s.http.map Http.toJson),
  ("sql", s.sql.map Sql.toJson),
  ("aws", s.aws),
  ("annotations", filledTable s.annotations),
  ("metadata", filledTable s.metadata),
  ("subsegments", filled (fun v => v) subsegments),
  ("links", filled Link.toJson s.links)]

end Segment

end CausalTrace
