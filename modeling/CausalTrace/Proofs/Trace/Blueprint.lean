import CausalTrace.Proofs.Json.Printed
import CausalTrace.Proofs.Trace.Members
import CausalTrace.Trace.Blueprint

/-!
# The segment that a blueprint describes

A blueprint has fewer fields than a segment, and says in its own way whether it has ended.  Its
document is read, whatever the blueprint, as long as nothing in it is blank that must not be: the
text is taken apart into the JSON form, the form is read as a content, and the content is
normalized.

## Main definitions

* `Blueprint.wire` — the content that the JSON form of a blueprint is read as
* `Blueprint.segment` — the segment it describes inside a trace
* `Blueprint.IsSound`, at every level `Blueprint.Everywhere` — what makes a document readable

## Main statements

* `Blueprint.reads_toJson`, `Blueprint.normalize_wire` — the two halves
* `Blueprint.segment_document` — the document of a sound blueprint holds the segment described
-/

namespace CausalTrace.Blueprint

open Reader Segment

variable {α : Type}

/-! ### Recursion -/

mutual

/-- The value of a blueprint, computed from it and the values of the blueprints directly in it. -/
def fold (f : Blueprint → List α → α) : Blueprint → α
  | ⟨id, name, trace, origin, parent, start, finish, downstream, error, fault, throttle, cause,
      annotations, metadata, aws, subsegments, links⟩ =>
    f ⟨id, name, trace, origin, parent, start, finish, downstream, error, fault, throttle, cause,
      annotations, metadata, aws, subsegments, links⟩ (foldAll f subsegments)
termination_by structural b => b

/-- The values of several blueprints. -/
def foldAll (f : Blueprint → List α → α) : List Blueprint → List α
  | [] => []
  | b :: rest => fold f b :: foldAll f rest
termination_by structural l => l

end

theorem foldAll_eq_map (f : Blueprint → List α → α) (l : List Blueprint) :
    foldAll f l = l.map (fold f) := by
  induction l with
  | nil => rfl
  | cons b rest ih => simp [foldAll, ih]

theorem fold_eq (f : Blueprint → List α → α) (b : Blueprint) :
    fold f b = f b (b.subsegments.map (fold f)) := by
  cases b
  simp [fold, foldAll_eq_map]

/-- A property holds of a blueprint and of all blueprints nested in it. -/
inductive Everywhere (P : Blueprint → Prop) : Blueprint → Prop
  | intro {b : Blueprint} (own : P b) (nested : ∀ n ∈ b.subsegments, Everywhere P n) :
      Everywhere P b

/-! ### The content of a blueprint -/

/-- The content of the link with `k` links before it. -/
def wireLink (id : String) (link : (LinkKind × TraceId) × Nat) : WireLink where
  trace := some link.1.2.text
  id := some (id ++ "-link-" ++ toString link.2)
  attributes := some [(LinkKind.attributeKey, .string link.1.1.word)]

/-- The content that the JSON form of a blueprint is read as, given the contents of the blueprints
directly in it. -/
def content (b : Blueprint) (subsegments : List WireSegment) : WireSegment where
  id := some b.id
  name := some b.name
  trace := b.trace
  start := some b.start
  finish := b.finish
  inProgress := raised? b.finish.isNone
  parent := b.parent
  origin := b.origin
  downstream := b.downstream
  error := raised? b.error
  fault := raised? b.fault
  throttle := raised? b.throttle
  cause := b.cause.map .exception
  aws := b.aws.filter fun v => !v.isNull
  annotations := nonempty? b.annotations
  metadata := nonempty? b.metadata
  subsegments := nonempty? subsegments
  links := nonempty? (b.links.zipIdx.map (wireLink b.id))

/-- The content that the JSON form of a blueprint is read as. -/
def wire : Blueprint → WireSegment := fold content

theorem wire_eq (b : Blueprint) : b.wire = b.content (b.subsegments.map wire) := fold_eq _ b

/-- Nothing is blank that must not be, times are finite, and objects are tables. -/
structure IsSound (b : Blueprint) : Prop where
  id : Text.isBlank b.id = false
  start : b.start.isFinite = true
  finish : ∀ x ∈ b.finish, x.isFinite = true
  annotations : (Json.ofTable b.annotations).IsTabular
  metadata : (Json.ofTable b.metadata).IsTabular
  aws : ∀ v ∈ b.aws, v.IsTabular
  links : ∀ link ∈ b.links, Text.isBlank link.2.text = false

/-! ### Reading -/

/-- A link is read with its kind. -/
theorem reads_linkJson (id : String) (link : (LinkKind × TraceId) × Nat) :
    WireLink.reader.Reads (linkJson id link) (wireLink id link) := by
  have hattributes : (Json.ofTable [(LinkKind.attributeKey, .string link.1.1.word)]).IsTabular :=
    .object (List.pairwise_singleton _ _) (by simpa using .string _)
  refine reads_object (by simp [IsPlain, WireLink.fields, Field.ofReader]) (by simp)
    fun depth => ?_
  exact .always rfl (Agrees.present (restores_table hattributes) (by simp [Json.ofTable])).reads
    <| .always rfl (restores_text? (some _))
    <| .always rfl (restores_text? (some link.1.2.text))
    <| .nil _

/-- The JSON form of a sound blueprint is read as its content. -/
theorem reads_toJson {b : Blueprint} (hb : b.Everywhere IsSound) :
    Reads WireSegment.reader b.toJson b.wire := by
  induction hb with
  | @intro b own nested ih =>
      intro depth hdepth
      have hnested : List.Forall₂ (fun v w => Reads WireSegment.reader v w)
          (b.subsegments.map toJson) (b.subsegments.map wire) := by
        rw [List.forall₂_map_left_iff, List.forall₂_map_right_iff, List.forall₂_same]
        exact ih
      have hlinks : List.Forall₂ (fun link w => WireLink.reader.Reads (linkJson b.id link) w)
          b.links.zipIdx (b.links.zipIdx.map (wireLink b.id)) := by
        rw [List.forall₂_map_right_iff, List.forall₂_same]
        exact fun link _ => reads_linkJson b.id link
      rw [toJson_eq] at hdepth ⊢
      rw [wire_eq]
      obtain ⟨d, rfl, -⟩ := Json.nesting_ofMembers_le.mp hdepth
      rw [WireSegment.reader_succ]
      refine record_ofMembers (isPlain_fields _) (by simp [members]) hdepth ?_
      -- one rule for each member, in the order of the keys
      exact .omitted rfl rfl (agrees_filledTable own.annotations) rfl
        <| .omitted rfl rfl (agrees_any own.aws) rfl
        <| .omitted rfl rfl (.map (fun e _ => Cause.restores (c := .exception e) trivial)
            (by simp)) rfl
        <| .omitted rfl rfl (.ofRestores (fun x hx => restores_float (own.finish x hx))
            fun x hx => float_ne_null (own.finish x hx)) rfl
        <| .omitted rfl rfl (agrees_flag b.error) rfl
        <| .omitted rfl rfl (agrees_flag b.fault) rfl
        <| .always rfl (restores_text? (some b.id))
        <| .omitted rfl rfl (agrees_flag b.finish.isNone) rfl
        <| .omitted rfl rfl (agrees_filled hlinks) rfl
        <| .omitted rfl rfl (agrees_filledTable own.metadata) rfl
        <| .always rfl (restores_text? (some b.name))
        <| .omitted rfl rfl (.ofRestores (fun n _ => restores_string n) (by simp)) rfl
        <| .omitted rfl rfl (.ofRestores (fun o _ => restores_string o) (by simp)) rfl
        <| .omitted rfl rfl (.ofRestores (fun p _ => restores_string p) (by simp)) rfl
        <| .omitted rfl rfl (.present (restores_float own.start) (float_ne_null own.start)) rfl
        <| .omitted rfl rfl (agrees_filled hnested) rfl
        <| .omitted rfl rfl (agrees_flag b.throttle) rfl
        <| .omitted rfl rfl (.ofRestores (fun t _ => restores_string t) (by simp)) rfl
        <| .nil _

/-! ### Normalization -/

/-- The trace that a blueprint belongs to: its own, if it names one, or else the one it inherits. -/
def traceIn (b : Blueprint) (inherited : TraceId) : TraceId :=
  ((b.trace.bind Text.nonBlank?).map TraceId.mk).getD inherited

/-- The link with `k` links before it. -/
def linkOf (id : String) (link : (LinkKind × TraceId) × Nat) : Link where
  trace := link.1.2
  id := id ++ "-link-" ++ toString link.2
  kind := link.1.1

/-- The segment that a blueprint describes, apart from its nested segments. -/
def segmentOf (b : Blueprint) (trace : TraceId) (subsegments : List Segment) : Segment where
  id := b.id
  name := b.name
  trace := trace
  start := .ofSeconds b.start
  finish := b.finish.map Timestamp.ofSeconds
  inProgress := b.finish.isNone
  parent := b.parent.bind Text.nonBlank?
  origin := b.origin.bind Text.nonBlank?
  downstream := b.downstream.bind Namespace.ofWord?
  kind := none
  service := none
  user := none
  error := b.error
  fault := b.fault
  throttle := b.throttle
  traced := false
  precursors := []
  cause := (b.cause.map .exception).bind WireSegment.namedCause?
  http := none
  sql := none
  aws := b.aws.filter fun v => !v.isNull
  annotations := b.annotations
  metadata := b.metadata
  subsegments := subsegments
  links := b.links.zipIdx.map (linkOf b.id)

/-- The segment is open unless it has an end time. -/
theorem isOpen_segmentOf (b : Blueprint) (trace : TraceId) (subsegments : List Segment) :
    (b.segmentOf trace subsegments).isOpen = b.finish.isNone := by
  cases h : b.finish <;> simp [Segment.isOpen, segmentOf, h]

/-- The segment that a blueprint describes inside a trace. -/
def segment : Blueprint → TraceId → Segment :=
  fold fun b nested inherited =>
    b.segmentOf (b.traceIn inherited) (nested.map fun segmentIn => segmentIn (b.traceIn inherited))

/-- Nested blueprints inherit the trace of the one around them. -/
theorem segment_eq (b : Blueprint) (inherited : TraceId) :
    b.segment inherited = b.segmentOf (b.traceIn inherited)
      (b.subsegments.map fun n => n.segment (b.traceIn inherited)) := by
  rw [segment, fold_eq, List.map_map]
  rfl

/-- A link that leads somewhere counts. -/
theorem normalize?_wireLink (id : String) {link : (LinkKind × TraceId) × Nat}
    (h : Text.isBlank link.1.2.text = false) :
    (wireLink id link).normalize? = some (linkOf id link) := by
  have htrace : Text.nonBlank? link.1.2.text = some link.1.2.text :=
    Text.nonBlank?_eq_some.mpr ⟨rfl, h⟩
  have hkind : (wireLink id link).kind? = some link.1.1 := by
    cases hword : link.1.1 <;> simp [WireLink.kind?, wireLink, hword] <;> rfl
  unfold WireLink.normalize?
  rw [hkind]
  simp [wireLink, htrace, linkOf]

/-- The content of a sound blueprint gives the segment that the blueprint describes. -/
theorem segment_content {b : Blueprint} (hb : b.IsSound) (contents : List WireSegment)
    (trace : TraceId) (subsegments : List Segment) :
    (b.content contents).segment b.id trace subsegments = b.segmentOf trace subsegments := by
  have hlinks : (b.links.zipIdx.map (wireLink b.id)).filterMap WireLink.normalize?
      = b.links.zipIdx.map (linkOf b.id) := by
    rw [List.filterMap_map, ← List.filterMap_eq_map]
    refine List.filterMap_congr fun link hlink => ?_
    exact normalize?_wireLink b.id (hb.links link.1 (List.fst_mem_of_mem_zipIdx hlink))
  have haws : (b.aws.filter fun v => !v.isNull).filter (fun v => !v.isNull)
      = b.aws.filter fun v => !v.isNull := by
    rw [Option.filter_filter]
    simp
  simp [WireSegment.segment, content, segmentOf, getD_raised?, getD_nonempty?, hlinks, haws]

/-- The content of a sound blueprint is normalized into the segment described, whatever the document
is called. -/
theorem normalize_wire {b : Blueprint} (hb : b.Everywhere IsSound) (document : String)
    (inherited : TraceId) : b.wire.normalize document inherited = .ok (b.segment inherited) := by
  induction hb generalizing inherited with
  | @intro b own nested ih =>
      rw [wire_eq, segment_eq, WireSegment.normalize_eq_ok]
      refine ⟨b.id, b.subsegments.map fun n => n.segment (b.traceIn inherited), ?id, ?nested, ?eq⟩
      case id => exact Text.nonBlank?_eq_some.mpr ⟨rfl, own.id⟩
      case nested =>
        have hcontents : (b.content (b.subsegments.map wire)).subsegments.getD []
            = b.subsegments.map wire := getD_nonempty? _
        rw [hcontents, List.forall₂_map_left_iff, List.forall₂_map_right_iff, List.forall₂_same]
        exact fun n hn => ih n hn (b.traceIn inherited)
      case eq => exact (segment_content own _ _ _).symm

/-! ### Documents -/

/-- The document of a sound blueprint holds the segment that the blueprint describes, if its
brackets are not nested too deeply and the numbers in it read back from their texts. -/
theorem segment_document {b : Blueprint} (hb : b.Everywhere IsSound) (hlegible : b.toJson.Legible)
    (hnesting : b.toJson.nesting ≤ maxNesting) (trace : TraceId) :
    b.document.segment trace = .ok (b.segment trace) := by
  rw [Document.segment_eq (Json.Sheet.ofText_compact hlegible) (reads_toJson hb _ hnesting)]
  exact normalize_wire hb _ trace

/-- The JSON form of a nested blueprint is an item of a member of the JSON form around it. -/
theorem exists_member_of_mem {b n : Blueprint} (hn : n ∈ b.subsegments) :
    ∃ m ∈ b.members (b.subsegments.map toJson), ∃ items,
      m.2 = some (.array items) ∧ n.toJson ∈ items := by
  refine ⟨("subsegments", filled (fun v => v) (b.subsegments.map toJson)), by simp [members],
    b.subsegments.map toJson, ?_, List.mem_map_of_mem hn⟩
  have hne : (b.subsegments.map toJson).isEmpty = false := by
    rw [List.isEmpty_eq_false_iff_exists_mem]
    exact ⟨n.toJson, List.mem_map_of_mem hn⟩
  simp [filled, hne, Json.ofList]

/-- A nested blueprint is legible when the one around it is. -/
theorem legible_of_mem {b n : Blueprint} (hn : n ∈ b.subsegments) (h : b.toJson.Legible) :
    n.toJson.Legible := by
  obtain ⟨m, hm, items, hitems, hmem⟩ := exists_member_of_mem hn
  rw [toJson_eq, Json.legible_ofMembers] at h
  exact Json.legible_array.mp (h m hm _ hitems) _ hmem

theorem nesting_le_of_mem {b n : Blueprint} (hn : n ∈ b.subsegments) {depth : Nat}
    (h : b.toJson.nesting ≤ depth) : n.toJson.nesting ≤ depth := by
  obtain ⟨m, hm, items, hitems, hmem⟩ := exists_member_of_mem hn
  rw [toJson_eq, Json.nesting_ofMembers_le] at h
  obtain ⟨d, rfl, h⟩ := h
  obtain ⟨d, rfl, hdepth⟩ := Json.nesting_array_le.mp (h m hm _ hitems)
  have := hdepth _ hmem
  omega

end CausalTrace.Blueprint
