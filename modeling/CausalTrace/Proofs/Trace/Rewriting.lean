import CausalTrace.Proofs.Json.Printed
import CausalTrace.Proofs.Trace.Members
import CausalTrace.Proofs.Trace.Preorder
import CausalTrace.Proofs.Trace.Seconds

/-!
# Reading back written segments

A segment is written in another shape than documents have: what is absent, unset or empty is left
out, and links are written without the attribute that tells their kind.  Read again as a document it
is the same segment at every level, except that all links are gone.

## Main definitions

* `Segment.wire` — the content that the JSON form of a segment is read as
* `Segment.unlinked` — a segment without links at any level

## Main statements

* `Segment.reads_toJson` — the content of a JSON form, for every segment
* `Segment.normalize_wire` — the content of a normal segment is normalized into the segment
* `Document.rewritten` — the segment of a document, written and read again

## Design notes

A timestamp is written in seconds, as a double, which is exact for few of them.  That the doubles
are read back as the same timestamps is therefore an assumption, on the timestamps that occur.
-/

namespace CausalTrace

open Reader

/-! ### The content of a written segment -/

/-- The content of a written link: a link without attributes. -/
def Link.wire (link : Link) : WireLink := ⟨some link.trace.text, some link.id, none⟩

/-- A written link is read without its kind, which documents keep in an attribute. -/
theorem Link.reads_toJson (link : Link) : WireLink.reader.Reads link.toJson link.wire := by
  refine reads_object (by simp [IsPlain, WireLink.fields, Field.ofReader]) (by simp)
    fun depth => ?_
  exact .always rfl (restores_text? (some link.trace.text))
    <| .always rfl (restores_text? (some link.id))
    <| .unknown rfl
    <| .nil _

/-- Without its kind a link does not count. -/
theorem Link.normalize?_wire (link : Link) : link.wire.normalize? = none := by
  unfold WireLink.normalize?
  cases link.wire.trace.bind Text.nonBlank? <;> rfl

namespace Segment

/-- The content that the JSON form of a segment is read as, given the contents of the segments
directly in it. -/
def content (s : Segment) (subsegments : List WireSegment) : WireSegment where
  id := some s.id
  name := some s.name
  trace := some s.trace.text
  start := some s.start.seconds
  finish := s.finish.map Timestamp.seconds
  inProgress := raised? s.inProgress
  parent := s.parent
  origin := s.origin
  downstream := s.downstream.map Namespace.word
  kind := s.kind
  service := s.service
  user := s.user
  error := raised? s.error
  fault := raised? s.fault
  throttle := raised? s.throttle
  traced := raised? s.traced
  precursors := nonempty? s.precursors
  cause := s.cause
  http := s.http
  sql := s.sql
  aws := s.aws
  annotations := nonempty? s.annotations
  metadata := nonempty? s.metadata
  subsegments := nonempty? subsegments
  links := nonempty? (s.links.map Link.wire)

/-- The content that the JSON form of a segment is read as. -/
def wire : Segment → WireSegment := fold content

theorem wire_eq (s : Segment) : s.wire = s.content (s.subsegments.map wire) := fold_eq _ s

/-- A segment without links, and without links in any segment nested in it. -/
def unlinked : Segment → Segment :=
  fold fun s subsegments => { s with subsegments := subsegments, links := [] }

/-- A segment without links has nested segments without links. -/
theorem unlinked_eq (s : Segment) :
    s.unlinked = { s with subsegments := s.subsegments.map unlinked, links := [] } := fold_eq _ s

/-! ### Reading -/

theorem filter_isNull {o : Option Json} (h : o ≠ some .null) :
    (o.filter fun v => !v.isNull) = o := by
  cases o with
  | none => rfl
  | some v =>
      cases v with
      | null => exact absurd rfl h
      | _ => rfl

/-- The JSON form of a normal segment is read as its content. -/
theorem reads_toJson {s : Segment} {inherited : TraceId} (hs : s.Everywhere IsNormal inherited) :
    Reads WireSegment.reader s.toJson s.wire := by
  induction hs with
  | @intro inherited s own nested ih =>
      intro depth hdepth
      have hstart := s.start.isFinite_seconds
      have haws : Reader.any.Agrees s.aws s.aws := by
        simpa only [filter_isNull own.present] using agrees_any own.aws
      have hnested : List.Forall₂ (fun v w => Reads WireSegment.reader v w)
          (s.subsegments.map toJson) (s.subsegments.map wire) := by
        rw [List.forall₂_map_left_iff, List.forall₂_map_right_iff, List.forall₂_same]
        exact ih
      have hlinks : List.Forall₂ (fun link w => WireLink.reader.Reads (Link.toJson link) w) s.links
          (s.links.map Link.wire) := by
        rw [List.forall₂_map_right_iff, List.forall₂_same]
        exact fun link _ => link.reads_toJson
      rw [toJson, fold_eq, ← toJson] at hdepth ⊢
      rw [wire_eq]
      obtain ⟨d, rfl, -⟩ := Json.nesting_ofMembers_le.mp hdepth
      rw [WireSegment.reader_succ]
      refine record_ofMembers (isPlain_fields _) (by simp) hdepth ?_
      -- one rule for each member, in the order in which they are written
      exact .always rfl (restores_text? (some s.id))
        <| .always rfl (restores_text? (some s.name))
        <| .always rfl (restores_text? (some s.trace.text))
        <| .omitted rfl rfl (.present (restores_float hstart) (float_ne_null hstart)) rfl
        <| .omitted rfl rfl (.map (fun t _ => restores_float t.isFinite_seconds)
            fun t _ => float_ne_null t.isFinite_seconds) rfl
        <| .omitted rfl rfl (agrees_flag s.inProgress) rfl
        <| .omitted rfl rfl (.ofRestores (fun p _ => restores_string p) (by simp)) rfl
        <| .omitted rfl rfl (.ofRestores (fun o _ => restores_string o) (by simp)) rfl
        <| .omitted rfl rfl (.map (fun n _ => restores_string n.word) (by simp)) rfl
        <| .omitted rfl rfl (.ofRestores (fun k _ => restores_string k) (by simp)) rfl
        <| .omitted rfl rfl (.ofRestores (fun x _ => x.restores) (by simp [Service.toJson])) rfl
        <| .omitted rfl rfl (.ofRestores (fun u _ => restores_string u) (by simp)) rfl
        <| .omitted rfl rfl (agrees_flag s.error) rfl
        <| .omitted rfl rfl (agrees_flag s.fault) rfl
        <| .omitted rfl rfl (agrees_flag s.throttle) rfl
        <| .omitted rfl rfl (agrees_flag s.traced) rfl
        <| .omitted rfl rfl (agrees_filled (List.forall₂_same.mpr fun p _ => restores_string p)) rfl
        <| .omitted rfl rfl (.ofRestores (fun c hc => Cause.restores (own.cause c hc))
            fun c _ => c.toJson_ne_null) rfl
        <| .omitted rfl rfl (.ofRestores (fun h hh => Http.restores (own.http h hh))
            (by simp [Http.toJson])) rfl
        <| .omitted rfl rfl (.ofRestores (fun q _ => q.restores) (by simp [Sql.toJson])) rfl
        <| .omitted rfl rfl haws rfl
        <| .omitted rfl rfl (agrees_filledTable own.annotations) rfl
        <| .omitted rfl rfl (agrees_filledTable own.metadata) rfl
        <| .omitted rfl rfl (agrees_filled hnested) rfl
        <| .omitted rfl rfl (agrees_filled hlinks) rfl
        <| .nil _

/-! ### Normalization -/

/-- The times at which a segment starts and, if it has, ends. -/
def times (s : Segment) : List Timestamp := s.start :: s.finish.toList

theorem bind_ofWord? (o : Option Namespace) :
    (o.map Namespace.word).bind Namespace.ofWord? = o := by
  cases o with
  | none => rfl
  | some n => cases n <;> rfl

/-- The content of a normal segment gives the segment, with other nested segments and no links. -/
theorem segment_content {inherited : TraceId} {s : Segment} (hs : s.IsNormal inherited)
    (htimes : ∀ t ∈ s.times, Timestamp.ofSeconds t.seconds = t) (contents : List WireSegment)
    (subsegments : List Segment) :
    (s.content contents).segment s.id s.trace subsegments
      = { s with subsegments := subsegments, links := [] } := by
  have hstart : Timestamp.ofSeconds s.start.seconds = s.start := htimes _ List.mem_cons_self
  have hfinish : (s.finish.map Timestamp.seconds).map Timestamp.ofSeconds = s.finish := by
    cases hf : s.finish with
    | none => rfl
    | some t => exact congrArg some (htimes t (by simp [times, hf]))
  simp [WireSegment.segment, content, hstart, hfinish, getD_raised?, getD_nonempty?, bind_ofWord?,
    Text.bind_nonBlank? hs.parent, Text.bind_nonBlank? hs.origin, Text.bind_nonBlank? hs.kind,
    Text.bind_nonBlank? hs.user, Link.normalize?_wire, filter_isNull hs.present,
    WireSegment.bind_namedCause? hs.named]

/-- The content of a normal segment belongs to the trace of the segment. -/
theorem traceIn_content {inherited : TraceId} {s : Segment} (hs : s.IsNormal inherited)
    (contents : List WireSegment) : (s.content contents).traceIn inherited = s.trace := by
  unfold WireSegment.traceIn content
  cases hblank : Text.isBlank s.trace.text with
  | false => simp [Text.nonBlank?, hblank]
  | true =>
      simp only [Option.bind_some, Text.nonBlank?, hblank, if_true]
      exact (hs.trace hblank).symm

/-- A normal segment may as well inherit its own trace id. -/
theorem Everywhere.inheriting {inherited : TraceId} {s : Segment}
    (hs : s.Everywhere IsNormal inherited) : s.Everywhere IsNormal s.trace := by
  obtain ⟨own, nested⟩ := hs
  exact .intro { own with trace := fun _ => rfl } nested

/-- The content of a normal segment is normalized into the segment, except for its links. -/
theorem normalize_wire {document : String} {inherited : TraceId} {s : Segment}
    (hs : s.Everywhere IsNormal inherited)
    (htimes : ∀ d ∈ s :: s.descendants, ∀ t ∈ d.times, Timestamp.ofSeconds t.seconds = t) :
    s.wire.normalize document inherited = .ok s.unlinked := by
  induction hs with
  | @intro inherited s own nested ih =>
      rw [forall_descendants] at htimes
      obtain ⟨htimes, hbelow⟩ := htimes
      rw [wire_eq, WireSegment.normalize_eq_ok, traceIn_content own]
      refine ⟨s.id, s.subsegments.map unlinked, ?id, ?nested, ?eq⟩
      case id => exact Text.nonBlank?_eq_some.mpr ⟨rfl, own.id⟩
      case nested =>
        have hcontents : (s.content (s.subsegments.map wire)).subsegments.getD []
            = s.subsegments.map wire := getD_nonempty? _
        rw [hcontents, List.forall₂_map_left_iff, List.forall₂_map_right_iff, List.forall₂_same]
        exact fun sub hsub => ih sub hsub (hbelow sub hsub)
      case eq => rw [unlinked_eq, segment_content own htimes]

end Segment

/-- The segment of a document, written and read again as a document of its own trace, is the segment
without its links: at every level, and whatever name the new document has. -/
theorem Document.rewritten {d : Document} {trace : TraceId} {s : Segment}
    (h : d.segment trace = .ok s)
    (htimes : ∀ u ∈ s :: s.descendants, ∀ t ∈ u.times, Timestamp.ofSeconds t.seconds = t)
    {depth : Nat} (hdepth : s.toJson.nesting ≤ depth) (document : String) :
    ∃ w, WireSegment.reader depth (.ofJson s.toJson) = .ok w ∧
      w.normalize document s.trace = .ok s.unlinked := by
  have hs := everywhere_isNormal h
  exact ⟨s.wire, Segment.reads_toJson hs depth hdepth,
    Segment.normalize_wire hs.inheriting htimes⟩

/-! ### A segment that is written and read again -/

namespace Segment.Sample

/-- A faulty call, with a nested segment of another trace and a link to a third one. -/
def value : Json := .object [
  ("id", .string "a"),
  ("start_time", .nat 2),
  ("end_time", .nat 3),
  ("namespace", .string "remote"),
  ("fault", .bool true),
  ("cause", .object [("exceptions", .array [.object [
    ("message", .string "refused"),
    ("stack", .array [.object [("path", .string "main.rs"), ("line", .nat 7)]])]])]),
  ("http", .object [("response", .object [("status", .nat 503)])]),
  ("annotations", .object [("attempt", .nat 1)]),
  ("subsegments", .array [.object [
    ("id", .string "b"), ("trace_id", .string "1-b"), ("in_progress", .bool true)]]),
  ("links", .array [.object [
    ("trace_id", .string "1-c"),
    ("attributes", .object [(LinkKind.attributeKey, .string "child")])]])]

/-- The document of the call. -/
def document : Document := ⟨"a", value.compact⟩

/-- What the document says. -/
def content : WireSegment where
  id := some "a"
  start := some (UInt64.ofNat 2).toFloat
  finish := some (UInt64.ofNat 3).toFloat
  downstream := some "remote"
  fault := some true
  cause := some (.details ⟨none, [], [⟨none, some "refused", none, false, none, none, none,
    [⟨some "main.rs", some 7, none⟩]⟩]⟩)
  http := some ⟨none, some ⟨some 503, none⟩⟩
  annotations := some [("attempt", .nat 1)]
  subsegments := some [{ id := some "b", trace := some "1-b", inProgress := some true }]
  links := some [⟨some "1-c", none, some [(LinkKind.attributeKey, .string "child")]⟩]

/-- The segment of the document. -/
def segment : Segment :=
  content.segment "a" ⟨"1-a"⟩
    [WireSegment.segment { id := some "b", trace := some "1-b", inProgress := some true } "b"
      ⟨"1-b"⟩ []]

theorem legible_value : value.Legible := by simp [value, Json.nat, Json.Number.readsBack_int]

theorem reader_value : WireSegment.reader Reader.maxNesting (.ofJson value) = .ok content := rfl

theorem normalize_content : content.normalize "a" ⟨"1-a"⟩ = .ok segment := rfl

theorem segment_document : document.segment ⟨"1-a"⟩ = .ok segment := by
  have hsheet : Json.Sheet.ofText document.text = ⟨.ofJson value, false⟩ :=
    Json.Sheet.ofText_compact legible_value
  rw [Document.segment_eq hsheet reader_value]
  exact normalize_content

end Segment.Sample

/-- A call with a link, written and read again: the link is gone, and nothing else. -/
theorem Document.rewritten_sample :
    Segment.Sample.document.segment ⟨"1-a"⟩ = .ok Segment.Sample.segment ∧
      ∃ w, WireSegment.reader Reader.maxNesting (.ofJson Segment.Sample.segment.toJson) = .ok w ∧
        w.normalize "rewritten" ⟨"1-a"⟩ = .ok Segment.Sample.segment.unlinked :=
  ⟨Segment.Sample.segment_document,
    Document.rewritten Segment.Sample.segment_document (by decide +kernel) (by decide +kernel)
      "rewritten"⟩

end CausalTrace
