import CausalTrace.Proofs.Json.Nullable
import CausalTrace.Proofs.Json.Printed
import CausalTrace.Proofs.Trace.Members

/-!
# What normalization keeps

A trace has the shape of its documents: segments stand where the contents of the documents stand, in
the same order.  At every position the segment says what the content there says, less what counts as
absent, and belongs to the trace that is named nearest to it on the way out of the document.

## Main definitions

* `Keeps` — a value that is dropped unless it has a property
* `WireSegment.Position` — a content and the contents around it
* `WireSegment.Position.Becomes` — a segment with what the content at a position says
* `WireSegment.SaysSame`, `Document.SaysSame` — alike but for fields that are `null` or absent

## Main statements

* `WireSegment.normalize_at` — segments and contents at the same positions
* `WireSegment.SaysSame.reader_eq` — `null` and absent fields are read alike
* `TraceRecord.normalized` — the segments of a trace, and the contents of its documents

## Design notes

A position is reached by a path that tells, level by level, which of the nested contents comes next.
It keeps the contents that the path leads through, so that what a segment inherits can be said where
the segment stands, without recursion.
-/

namespace CausalTrace

open Reader

/-- A value stays there if it has a property, and is dropped if not. -/
def Keeps {α : Type} (P : α → Prop) (before after : Option α) : Prop :=
  ∀ x, after = some x ↔ before = some x ∧ P x

theorem Text.keeps_bind_nonBlank? (o : Option String) :
    Keeps (isBlank · = false) o (o.bind nonBlank?) := by
  intro t
  rw [Option.bind_eq_some_iff]
  constructor
  · rintro ⟨s, hs, ht⟩
    obtain ⟨rfl, ht⟩ := nonBlank?_eq_some.mp ht
    exact ⟨hs, ht⟩
  · rintro ⟨ht, hblank⟩
    exact ⟨t, ht, nonBlank?_eq_some.mpr ⟨rfl, hblank⟩⟩

/-! ### Links -/

theorem LinkKind.ofWord?_eq_some {s : String} {kind : LinkKind} :
    ofWord? s = some kind ↔ s = kind.word := by
  unfold ofWord?
  split
  next h => cases kind <;> simp [h, word]
  next hparent =>
    split
    next h => cases kind <;> simp [h, word]
    next hchild => cases kind <;> simp [hparent, hchild, word]

namespace WireLink

/-- What the reserved attribute says. -/
def relation? (w : WireLink) : Option String := do
  let attributes ← w.attributes
  let value ← attributes.get? LinkKind.attributeKey
  value.string?

/-- Whether a link leads somewhere, and the reserved attribute says how. -/
def counts (w : WireLink) : Bool :=
  w.trace.any (fun t => !Text.isBlank t) &&
    (w.relation? == some "parent" || w.relation? == some "child")

/-- A link says what a link in a document says. -/
structure Becomes (w : WireLink) (link : Link) : Prop where
  trace : w.trace = some link.trace.text
  id : w.id.getD "" = link.id
  relation : w.relation? = some link.kind.word

/-- A link is normalized into what it says, if it leads somewhere. -/
theorem normalize?_eq_some {w : WireLink} {link : Link} :
    w.normalize? = some link ↔ w.Becomes link ∧ Text.isBlank link.trace.text = false := by
  have hkind : w.kind? = w.relation?.bind LinkKind.ofWord? := by
    simp only [kind?, relation?, Option.bind_eq_bind, Option.bind_assoc]
  simp only [normalize?, hkind, Option.bind_eq_bind, Option.bind_eq_some_iff,
    Text.nonBlank?_eq_some, LinkKind.ofWord?_eq_some]
  constructor
  · rintro ⟨t, ⟨s, hs, rfl, ht⟩, kind, ⟨word, hword, rfl⟩, h⟩
    cases h
    exact ⟨⟨hs, rfl, hword⟩, ht⟩
  · obtain ⟨⟨t⟩, id, kind⟩ := link
    rintro ⟨⟨ht, rfl, hword⟩, hblank⟩
    exact ⟨t, ⟨t, ht, rfl, hblank⟩, kind, ⟨_, hword, rfl⟩, rfl⟩

/-- The links that count are those that are normalized. -/
theorem counts_eq_isSome (w : WireLink) : w.counts = w.normalize?.isSome := by
  rw [Bool.eq_iff_iff, Option.isSome_iff_exists]
  simp only [normalize?_eq_some, counts, Bool.and_eq_true, Bool.or_eq_true, beq_iff_eq,
    Option.any_eq_true, Bool.not_eq_true']
  constructor
  · rintro ⟨⟨t, ht, hblank⟩, hword | hword⟩
    · exact ⟨⟨⟨t⟩, w.id.getD "", .parent⟩, ⟨ht, rfl, hword⟩, hblank⟩
    · exact ⟨⟨⟨t⟩, w.id.getD "", .child⟩, ⟨ht, rfl, hword⟩, hblank⟩
  · rintro ⟨⟨trace, id, kind⟩, ⟨ht, -, hword⟩, hblank⟩
    refine ⟨⟨trace.text, ht, hblank⟩, ?_⟩
    cases kind with
    | parent => exact .inl hword
    | child => exact .inr hword

/-- The links that count are kept, in their order. -/
theorem becomes_filterMap (l : List WireLink) :
    List.Forall₂ Becomes (l.filter counts) (l.filterMap normalize?) := by
  induction l with
  | nil => exact .nil
  | cons w rest ih =>
      cases hw : w.normalize? with
      | none =>
          have hcounts : ¬ w.counts := by simp [counts_eq_isSome, hw]
          rw [List.filter_cons_of_neg hcounts, List.filterMap_cons_none hw]
          exact ih
      | some link =>
          have hcounts : w.counts := by simp [counts_eq_isSome, hw]
          rw [List.filter_cons_of_pos hcounts, List.filterMap_cons_some hw]
          exact .cons (normalize?_eq_some.mp hw).1 ih

end WireLink

/-! ### Positions -/

/-- The first trace id of several contents that is not blank, or else the one of the record. -/
def WireSegment.nearest (base : TraceId) (contents : List WireSegment) : TraceId :=
  ((contents.findSome? fun w => w.trace.bind Text.nonBlank?).map TraceId.mk).getD base

/-- A content belongs to the trace that it names, or else to the one around it. -/
theorem WireSegment.nearest_cons (base : TraceId) (w : WireSegment) (around : List WireSegment) :
    nearest base (w :: around) = w.traceIn (nearest base around) := by
  unfold nearest traceIn
  rw [List.findSome?_cons]
  cases w.trace.bind Text.nonBlank? <;> rfl

/-- A content where it stands in a document: with the contents around it, the nearest first. -/
structure WireSegment.Position where
  content : WireSegment
  around : List WireSegment

namespace WireSegment.Position

/-- The outermost position of a content. -/
def outermost (w : WireSegment) : Position := ⟨w, []⟩

/-- The positions of the contents directly in one. -/
def nested (p : Position) : List Position :=
  (p.content.subsegments.getD []).map fun v => ⟨v, p.content :: p.around⟩

/-- The position at the end of a path. -/
def at? (p : Position) : List Nat → Option Position
  | [] => some p
  | i :: path => p.nested[i]?.bind fun q => q.at? path

/-- The trace that is named nearest to the position on the way out. -/
def trace (base : TraceId) (p : Position) : TraceId := nearest base (p.content :: p.around)

/-- A segment says what the content at a position says, less what counts as absent. -/
structure Becomes (base : TraceId) (p : Position) (s : Segment) : Prop where
  id : Keeps (Text.isBlank · = false) p.content.id (some s.id)
  trace : s.trace = p.trace base
  parent : Keeps (Text.isBlank · = false) p.content.parent s.parent
  origin : Keeps (Text.isBlank · = false) p.content.origin s.origin
  kind : Keeps (Text.isBlank · = false) p.content.kind s.kind
  user : Keeps (Text.isBlank · = false) p.content.user s.user
  cause : Keeps (· ≠ .exception "") p.content.cause s.cause
  aws : Keeps (· ≠ .null) p.content.aws s.aws
  links : List.Forall₂ WireLink.Becomes ((p.content.links.getD []).filter WireLink.counts) s.links

/-- The segment of a content with an id says what the content says where it stands. -/
theorem becomes_segment (base : TraceId) (p : Position) {id : String}
    (hid : p.content.id.bind Text.nonBlank? = some id) (subsegments : List Segment) :
    p.Becomes base (p.content.segment id (p.trace base) subsegments) where
  id := hid ▸ Text.keeps_bind_nonBlank? p.content.id
  trace := rfl
  parent := Text.keeps_bind_nonBlank? _
  origin := Text.keeps_bind_nonBlank? _
  kind := Text.keeps_bind_nonBlank? _
  user := Text.keeps_bind_nonBlank? _
  cause := by
    intro c
    rw [segment, Option.bind_eq_some_iff]
    constructor
    · rintro ⟨c', hc', hc⟩
      obtain ⟨rfl, hc⟩ := namedCause?_eq_some.mp hc
      exact ⟨hc', hc⟩
    · rintro ⟨hc, hnamed⟩
      exact ⟨c, hc, namedCause?_eq_some.mpr ⟨rfl, hnamed⟩⟩
  aws := by
    intro v
    rw [segment, Option.filter_eq_some_iff]
    exact and_congr_right fun _ => by cases v <;> simp [Json.isNull]
  links := WireLink.becomes_filterMap _

end WireSegment.Position

/-- The segment at the end of a path. -/
def Segment.at? (s : Segment) : List Nat → Option Segment
  | [] => some s
  | i :: path => s.subsegments[i]?.bind fun sub => sub.at? path

namespace WireSegment

/-- Segments and contents stand at the same positions, and say the same there. -/
theorem normalize_at {document : String} {base inherited : TraceId} {p : Position} {s : Segment}
    (hinherited : p.content.traceIn inherited = p.trace base)
    (h : p.content.normalize document inherited = .ok s) (path : List Nat) :
    Option.Rel (Position.Becomes base) (p.at? path) (s.at? path) := by
  induction path generalizing p inherited s with
  | nil =>
      obtain ⟨id, subsegments, hid, -, rfl⟩ := normalize_eq_ok.mp h
      rw [hinherited]
      exact .some (p.becomes_segment base hid subsegments)
  | cons i path ih =>
      obtain ⟨id, subsegments, -, hsubsegments, rfl⟩ := normalize_eq_ok.mp h
      have hnested : List.Forall₂ (fun (q : Position) sub => ∃ inherited,
          q.content.traceIn inherited = q.trace base ∧
            q.content.normalize document inherited = .ok sub) p.nested subsegments := by
        refine List.forall₂_map_left_iff.mpr (hsubsegments.imp fun v sub hv => ?_)
        exact ⟨p.trace base, (nearest_cons base v _).symm, hinherited ▸ hv⟩
      refine rel_bind (rel_getElem?_of_forall₂ hnested i) ?_
      rintro q sub ⟨_, hq, hsub⟩
      exact ih hq hsub

/-! ### Fields that are null or absent -/

/-- Texts that are alike but for fields of segments that are `null` in one and absent in the other:
in the outermost segment, or in one nested in it. -/
inductive SaysSame : Draft → Draft → Prop
  | refl (d : Draft) : SaysSame d d
  | symm {d d' : Draft} (h : SaysSame d d') : SaysSame d' d
  | trans {d d' d'' : Draft} (h : SaysSame d d') (h' : SaysSame d' d'') : SaysSame d d''
  /-- A field of an object. -/
  | member (k : String) (before after : List (Key × Draft))
      (hbefore : ∀ m ∈ before, m.1 ≠ .text (some k)) (hafter : ∀ m ∈ after, m.1 ≠ .text (some k))
      (ending : Ending) :
      SaysSame (.object (before ++ (.text (some k), .null) :: after) ending)
        (.object (before ++ after) ending)
  /-- The last field in an array of fields. -/
  | item {entries : List Draft} (hlength : entries.length < 25) (ending : Ending) :
      SaysSame (.array (entries ++ [.null]) ending) (.array entries ending)
  /-- A nested segment of a segment that is written as an object. -/
  | nested {d d' : Draft} (h : SaysSame d d') (before after : List (Key × Draft))
      (older younger : List Draft) (inner outer : Ending) :
      SaysSame
        (.object (before ++
          (.text (some "subsegments"), .array (older ++ d :: younger) inner) :: after) outer)
        (.object (before ++
          (.text (some "subsegments"), .array (older ++ d' :: younger) inner) :: after) outer)
  /-- A nested segment of a segment that is written as an array of its fields. -/
  | nestedItem {d d' : Draft} (h : SaysSame d d') {before : List Draft}
      (hlength : before.length = 23) (after older younger : List Draft) (inner outer : Ending) :
      SaysSame (.array (before ++ .array (older ++ d :: younger) inner :: after) outer)
        (.array (before ++ .array (older ++ d' :: younger) inner :: after) outer)

/-- All fields of a segment may be `null`, which comes to leaving them out. -/
theorem isNullable_fields (depth : Nat) :
    IsNullable (fields (Reader.optional (Reader.list reader) depth)) {} where
  plain := Segment.isPlain_fields _
  blank := by
    simp only [fields, List.forall_mem_cons]
    repeat' apply And.intro
    all_goals first
      | exact Field.isBlank_ofReader (fun _ => rfl) rfl
      | exact List.forall_mem_nil _
  apart := by
    simp only [fields, List.pairwise_cons, List.forall_mem_cons]
    repeat' apply And.intro
    all_goals first
      | exact Field.commute_ofReader fun _ _ _ => rfl
      | exact List.forall_mem_nil _
      | exact .nil

/-- The field of the nested contents. -/
def nestedField (depth : Nat) : Field WireSegment :=
  .ofReader "subsegments" (fun _ => Reader.optional (Reader.list reader) depth)
    fun x r => { r with subsegments := x }

/-- Arrays of contents are read alike if one item is. -/
theorem nestedField_congr {d d' : Draft} (h : ∀ depth, reader depth d = reader depth d')
    (older younger : List Draft) (inner : Ending) (depth : Nat) :
    (nestedField depth).store depth (.array (older ++ d :: younger) inner)
      = (nestedField depth).store depth (.array (older ++ d' :: younger) inner) := by
  cases depth with
  | zero => rfl
  | succ depth =>
      have hitems : (older ++ d :: younger).mapM (reader depth)
          = (older ++ d' :: younger).mapM (reader depth) := by
        simp only [List.mapM_append, List.mapM_cons, h depth]
      simp only [nestedField, Field.ofReader, Reader.optional, Reader.list, Reader.itemsOf, hitems]

/-- Fields that are `null` and fields that are absent are read alike. -/
theorem SaysSame.reader_eq {d d' : Draft} (h : SaysSame d d') (depth : Nat) :
    reader depth d = reader depth d' := by
  induction h generalizing depth with
  | refl => rfl
  | symm _ ih => exact (ih depth).symm
  | trans _ _ ih ih' => exact (ih depth).trans (ih' depth)
  | member k before after hbefore hafter ending =>
      -- without a bracket left neither of the two is read
      cases depth with
      | zero => rfl
      | succ depth =>
          rw [reader_succ]
          exact record_null (isNullable_fields depth) hbefore hafter ending (depth + 1)
  | item hlength ending =>
      cases depth with
      | zero => rfl
      | succ depth =>
          rw [reader_succ]
          exact record_null_last (isNullable_fields depth) hlength ending (depth + 1)
  | nested _ before after older younger inner outer ih =>
      cases depth with
      | zero => rfl
      | succ depth =>
          rw [reader_succ]
          refine record_member (f := nestedField depth) rfl ?_ before after outer
          exact nestedField_congr ih older younger inner depth
  | nestedItem _ hlength after older younger inner outer ih =>
      cases depth with
      | zero => rfl
      | succ depth =>
          rw [reader_succ]
          refine record_item (f := nestedField depth) ?_ ?_ after outer
          · rw [hlength]
            rfl
          · exact nestedField_congr ih older younger inner depth

end WireSegment

namespace Document

/-- The content of a document, as far as its text can be read. -/
def content (d : Document) : Except Flaw WireSegment := WireSegment.reader.text d.text

/-- Documents that are alike but for fields that are `null` in one and absent in the other. -/
structure SaysSame (d d' : Document) : Prop where
  id : d.id = d'.id
  value : WireSegment.SaysSame (Json.Sheet.ofText d.text).value (Json.Sheet.ofText d'.text).value
  trailing : (Json.Sheet.ofText d.text).trailing = (Json.Sheet.ofText d'.text).trailing

/-- Written values are alike if their drafts are. -/
theorem SaysSame.compact {id : String} {v v' : Json} (hv : v.Legible) (hv' : v'.Legible)
    (h : WireSegment.SaysSame (.ofJson v) (.ofJson v')) :
    SaysSame ⟨id, v.compact⟩ ⟨id, v'.compact⟩ where
  id := rfl
  value := by rwa [Json.Sheet.ofText_compact hv, Json.Sheet.ofText_compact hv']
  trailing := by rw [Json.Sheet.ofText_compact hv, Json.Sheet.ofText_compact hv']

/-- Documents that say the same hold the same segment. -/
theorem SaysSame.segment_eq {d d' : Document} (h : d.SaysSame d') (trace : TraceId) :
    d'.segment trace = d.segment trace := by
  have hcontent : WireSegment.reader.text d'.text = WireSegment.reader.text d.text := by
    simp only [Reader.text, h.value.reader_eq, h.trailing]
  simp only [segment, hcontent, h.id]

theorem mapM_segment_saysSame {documents documents' : List Document}
    (h : List.Forall₂ SaysSame documents documents') (trace : TraceId) :
    documents'.mapM (fun d => d.segment trace) = documents.mapM fun d => d.segment trace := by
  induction h with
  | nil => rfl
  | cons hd _ ih => simp only [List.mapM_cons, hd.segment_eq, ih]

/-- A document holds the segment of its content. -/
theorem segment_eq_ok {d : Document} {trace : TraceId} {s : Segment} :
    d.segment trace = .ok s ↔ ∃ w, d.content = .ok w ∧ w.normalize d.id trace = .ok s := by
  unfold segment content
  cases WireSegment.reader.text d.text <;> simp

end Document

/-! ### Records -/

namespace TraceRecord

/-- Records of documents that say the same are read alike. -/
theorem trace_saysSame {r : TraceRecord} {documents : List Document}
    (h : List.Forall₂ Document.SaysSame r.documents documents) :
    TraceRecord.trace { r with documents := documents } = r.trace := by
  simp only [trace, Document.mapM_segment_saysSame h]

/-- The trace of a record has the shape of its documents.  Every segment says what the content at
its position says, and belongs to the trace named nearest to it, or else to the one of the record.
It is the same trace if fields of the documents are `null` instead of absent, or absent instead of
`null`. -/
theorem normalized {r : TraceRecord} {t : Trace} (h : r.trace = .ok t) :
    t.id = ⟨r.id⟩ ∧
      (∃ contents, List.Forall₂ (fun d w => d.content = .ok w) r.documents contents ∧
        List.Forall₂ (fun w s => ∀ path, Option.Rel (WireSegment.Position.Becomes ⟨r.id⟩)
          ((WireSegment.Position.outermost w).at? path) (s.at? path)) contents t.segments) ∧
      ∀ documents, List.Forall₂ Document.SaysSame r.documents documents →
        TraceRecord.trace { r with documents := documents } = .ok t := by
  refine ⟨?id, ?shape, fun documents hsame => (trace_saysSame hsame).trans h⟩
  all_goals obtain ⟨segments, hsegments, rfl⟩ := trace_eq_ok.mp h
  case id => rfl
  case shape =>
    refine exists_between_forall₂ (hsegments.imp fun d s hs => ?_)
    obtain ⟨w, hw, hs⟩ := Document.segment_eq_ok.mp hs
    have houtermost := WireSegment.nearest_cons ⟨r.id⟩ w []
    exact ⟨w, hw, WireSegment.normalize_at houtermost.symm hs⟩

end TraceRecord

/-! ### A record with fields that are null -/

namespace TraceRecord.Sample

/-- Two links, of which one counts. -/
def links : String × Json := ("links", .array [.object [("trace_id", .string "1-x")],
  .object [("trace_id", .string "1-y"),
    ("attributes", .object [(LinkKind.attributeKey, .string "child")])]])

/-- A call with one nested in it that belongs to another trace, and one in that.  The trace of the
outermost call is blank, and its cause is empty. -/
def value : Json := .object [("id", .string "a"), ("trace_id", .string " "), ("cause", .string ""),
  ("subsegments", .array [.object [("id", .string "b"), ("trace_id", .string "1-b"),
    ("subsegments", .array [.object [("id", .string "c")]])]]), links]

/-- The same calls; the outermost has a name that is `null`, and the innermost a user. -/
def withNulls : Json := .object [("name", .null), ("id", .string "a"), ("trace_id", .string " "),
  ("cause", .string ""), ("subsegments", .array [.object [("id", .string "b"),
    ("trace_id", .string "1-b"),
    ("subsegments", .array [.object [("id", .string "c"), ("user", .null)]])]]), links]

def record (v : Json) : TraceRecord := ⟨"1-a", none, none, [⟨"a", v.compact⟩]⟩

/-- A call that belongs to a trace, with the calls nested in it. -/
def call (id trace : String) (nested : List Segment) : Segment :=
  WireSegment.segment { id := some id } id ⟨trace⟩ nested

def segment : Segment :=
  { call "a" "1-a" [call "b" "1-b" [call "c" "1-b" []]] with links := [⟨⟨"1-y"⟩, "", .child⟩] }

def trace : Trace := ⟨⟨"1-a"⟩, none, false, [segment]⟩

theorem legible_value : value.Legible := by simp [value, links]

theorem legible_withNulls : withNulls.Legible := by simp [withNulls, links]

theorem trace_record : (record value).trace = .ok trace := by
  have hread : WireSegment.reader Reader.maxNesting (.ofJson value) = .ok
      { id := some "a", trace := some " ", cause := some (.exception "")
        subsegments := some [{ id := some "b", trace := some "1-b"
                               subsegments := some [{ id := some "c" }] }]
        links := some [⟨some "1-x", none, none⟩,
          ⟨some "1-y", none, some [(LinkKind.attributeKey, .string "child")]⟩] } := rfl
  have hsegment : Document.segment ⟨"a", value.compact⟩ ⟨"1-a"⟩ = .ok segment := by
    rw [Document.segment_eq (d := ⟨"a", value.compact⟩) (Json.Sheet.ofText_compact legible_value)
      hread]
    rfl
  exact trace_eq_ok.mpr ⟨_, .cons hsegment .nil, rfl⟩

theorem saysSame_withNulls : WireSegment.SaysSame (.ofJson value) (.ofJson withNulls) := by
  -- from the inside out: first the user of the innermost call, then the name of the outermost
  have huser := WireSegment.SaysSame.member "user" [(.text (some "id"), .string (some "c"))] []
    (by simp) (by simp) .closed
  have hinner := huser.nested (Draft.ofMembers [("id", .string "b"), ("trace_id", .string "1-b")])
    [] [] [] .closed .closed
  have houter := hinner.nested (Draft.ofMembers [("name", .null), ("id", .string "a"),
    ("trace_id", .string " "), ("cause", .string "")]) (Draft.ofMembers [links]) [] [] .closed
    .closed
  have hname := WireSegment.SaysSame.member "name" [] (Draft.ofMembers [("id", .string "a"),
    ("trace_id", .string " "), ("cause", .string ""),
    ("subsegments", .array [.object [("id", .string "b"), ("trace_id", .string "1-b"),
      ("subsegments", .array [.object [("id", .string "c")]])]]), links]) (by simp)
    (by simp [Draft.ofMembers, links]) .closed
  exact (houter.trans hname).symm

end TraceRecord.Sample

/-- A record with a call in another trace inside one whose trace is blank, and the same record with
fields that are `null` and absent in each other's place. -/
theorem TraceRecord.normalized_sample :
    (Sample.record Sample.value).trace = .ok Sample.trace ∧
      (∃ contents, List.Forall₂ (fun d w => d.content = .ok w)
          (Sample.record Sample.value).documents contents ∧
        List.Forall₂ (fun w s => ∀ path, Option.Rel (WireSegment.Position.Becomes ⟨"1-a"⟩)
          ((WireSegment.Position.outermost w).at? path) (s.at? path)) contents
          Sample.trace.segments) ∧
      (Sample.record Sample.withNulls).trace = .ok Sample.trace := by
  have hsame : List.Forall₂ Document.SaysSame (Sample.record Sample.value).documents
      (Sample.record Sample.withNulls).documents :=
    .cons (.compact Sample.legible_value Sample.legible_withNulls Sample.saysSame_withNulls) .nil
  obtain ⟨-, hshape, hnulls⟩ := TraceRecord.normalized Sample.trace_record
  exact ⟨Sample.trace_record, hshape, hnulls _ hsame⟩

end CausalTrace
