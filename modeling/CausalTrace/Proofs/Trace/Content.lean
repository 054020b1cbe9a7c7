import CausalTrace.Proofs.Trace.Details
import CausalTrace.Trace.Document

/-!
# What documents hold

What is known of the content of a document that was read, and of the segment it is normalized into:
every id and every detail of a segment is there or not, but never blank, empty or out of range.

## Main definitions

* `WireSegment.Everywhere`, `Segment.Everywhere` — a property of all contents and segments in one
* `WireSegment.Sound` — what every content that is read has
* `Segment.IsNormal` — what every segment that is normalized has

## Main statements

* `WireSegment.induction` — from the contents directly in one
* `WireSegment.everywhere_sound` — contents that are read are sound at every level
* `WireSegment.normalize_eq_ok` — how a content is normalized, level by level
* `Document.everywhere_isNormal` — segments of documents are normal at every level
* `TraceRecord.trace_eq_ok`, `TraceRecord.trace_eq` — what a record holds
-/

namespace CausalTrace

/-! ### Blank texts -/

namespace Text

theorem nonBlank?_eq_some {s t : String} : nonBlank? s = some t ↔ s = t ∧ isBlank t = false := by
  unfold nonBlank?
  cases hs : isBlank s with
  | false =>
      simp only [Bool.false_eq_true, if_false, Option.some.injEq]
      exact ⟨fun h => ⟨h, h ▸ hs⟩, And.left⟩
  | true =>
      refine iff_of_false (by simp) ?_
      rintro ⟨rfl, h⟩
      exact Bool.false_ne_true (h.symm.trans hs)

theorem isBlank_of_mem_bind {o : Option String} {t : String} (h : t ∈ o.bind nonBlank?) :
    isBlank t = false := by
  obtain ⟨s, -, hs⟩ := Option.bind_eq_some_iff.mp h
  exact (nonBlank?_eq_some.mp hs).2

theorem bind_nonBlank?_eq_none {o : Option String} :
    o.bind nonBlank? = none ↔ ∀ s ∈ o, isBlank s = true := by
  cases o <;> simp [nonBlank?]

/-- Texts that are not blank are kept. -/
theorem bind_nonBlank? {o : Option String} (h : ∀ s ∈ o, isBlank s = false) :
    o.bind nonBlank? = o := by
  cases o with
  | none => rfl
  | some s => exact nonBlank?_eq_some.mpr ⟨rfl, h s rfl⟩

end Text

/-- The table that stands for a missing one is empty. -/
theorem Json.isTabular_ofTable_getD {o : Option (Table String Json)}
    (h : ∀ t ∈ o, (Json.ofTable t).IsTabular) : (Json.ofTable (o.getD [])).IsTabular := by
  cases o with
  | none => exact .object List.Pairwise.nil fun _ h => absurd h List.not_mem_nil
  | some t => exact h t rfl

open Reader

namespace WireSegment

/-! ### Nested contents -/

theorem sizeOf_lt_of_mem {v w : WireSegment} (h : v ∈ w.subsegments.getD []) :
    sizeOf v < sizeOf w := by
  cases w with
  | mk =>
      rename_i subsegments _
      cases subsegments with
      | none => cases h
      | some l =>
          have hlt := List.sizeOf_lt_of_mem (show v ∈ l from h)
          simp only [mk.sizeOf_spec, Option.some.sizeOf_spec]
          omega

/-- Induction over a content, from the contents directly in it. -/
theorem induction {motive : WireSegment → Prop}
    (step : ∀ w, (∀ v ∈ w.subsegments.getD [], motive v) → motive w) (w : WireSegment) : motive w :=
  step w fun v _ => induction step v
termination_by sizeOf w
decreasing_by exact sizeOf_lt_of_mem ‹_›

/-! ### Reading -/

/-- A property holds of a content and of all contents nested in it. -/
inductive Everywhere (P : WireSegment → Prop) : WireSegment → Prop
  | intro {w : WireSegment} (own : P w)
      (nested : ∀ l, w.subsegments = some l → ∀ v ∈ l, Everywhere P v) : Everywhere P w

/-- Numbers are in range, and objects are tables. -/
structure Sound (w : WireSegment) : Prop where
  cause : ∀ c ∈ w.cause, c.InRange
  http : ∀ h ∈ w.http, h.InRange
  aws : ∀ v ∈ w.aws, v.IsTabular
  annotations : ∀ t ∈ w.annotations, (Json.ofTable t).IsTabular
  metadata : ∀ t ∈ w.metadata, (Json.ofTable t).IsTabular

/-- A content opens one bracket for itself and one for the list of nested contents. -/
theorem reader_succ (depth : Nat) :
    reader (depth + 1) = Reader.record (fields (Reader.optional (Reader.list reader) depth)) {}
      (depth + 1) := by
  cases depth with
  | zero =>
      have hlist : Reader.optional (Reader.list fun _ d => .error d.refusal) 0
          = Reader.optional (Reader.list reader) 0 := by
        funext d
        cases d <;> rfl
      rw [reader, hlist]
  | succ depth =>
      have hlist : Reader.optional (fun _ => Reader.itemsOf (reader depth)) 1
          = Reader.optional (Reader.list reader) (depth + 1) := by
        funext d
        cases d <;> rfl
      rw [reader, hlist]

theorem reader_zero_ne_ok (d : Draft) (w : WireSegment) : reader 0 d ≠ .ok w := by
  intro h
  cases d <;> cases h

/-- What is read is sound, and so is everything nested in it. -/
theorem everywhere_sound {depth : Nat} {d : Draft} {w : WireSegment}
    (h : reader depth d = .ok w) : w.Everywhere Sound := by
  induction depth using Nat.strongRecOn generalizing d w with
  | _ depth ih =>
      cases depth with
      | zero => exact absurd h (reader_zero_ne_ok d w)
      | succ depth =>
          rw [reader_succ] at h
          -- the fields know of the nested contents only that they are sound at every level, which
          -- is the hypothesis of the induction
          let P : WireSegment → Prop := fun w =>
            w.Sound ∧ ∀ l, w.subsegments = some l → ∀ v ∈ l, v.Everywhere Sound
          suffices hw : P w from .intro hw.1 hw.2
          refine record_sound ?_ ⟨⟨by simp, by simp, by simp, by simp, by simp⟩, by simp⟩ h
          simp only [fields, List.forall_mem_cons]
          refine ⟨?id, ?name, ?trace, ?start, ?finish, ?inProgress, ?parent, ?origin, ?downstream,
            ?kind, ?service, ?user, ?error, ?fault, ?throttle, ?traced, ?precursors, ?cause, ?http,
            ?sql, ?aws, ?annotations, ?metadata, ?subsegments, ?links, List.forall_mem_nil _⟩
          case cause =>
            exact Field.keeps_ofReader fun _ hx _ hw =>
              ⟨⟨fun c hc => Cause.inRange_of_yields (hx.of_mem_optional hc), hw.1.http, hw.1.aws,
                hw.1.annotations, hw.1.metadata⟩, hw.2⟩
          case http =>
            exact Field.keeps_ofReader fun _ hx _ hw =>
              ⟨⟨hw.1.cause, fun c hc => Http.inRange_of_yields (hx.of_mem_optional hc), hw.1.aws,
                hw.1.annotations, hw.1.metadata⟩, hw.2⟩
          case aws =>
            exact Field.keeps_ofReader fun _ hx _ hw =>
              ⟨⟨hw.1.cause, hw.1.http, fun v hv => isTabular_of_yields_any (hx.of_mem_optional hv),
                hw.1.annotations, hw.1.metadata⟩, hw.2⟩
          case annotations =>
            exact Field.keeps_ofReader fun _ hx _ hw =>
              ⟨⟨hw.1.cause, hw.1.http, hw.1.aws,
                fun t ht => isTabular_of_yields_table (hx.of_mem_optional ht), hw.1.metadata⟩, hw.2⟩
          case metadata =>
            exact Field.keeps_ofReader fun _ hx _ hw =>
              ⟨⟨hw.1.cause, hw.1.http, hw.1.aws, hw.1.annotations,
                fun t ht => isTabular_of_yields_table (hx.of_mem_optional ht)⟩, hw.2⟩
          case subsegments =>
            refine Field.keeps_ofReader fun x hx r hw =>
              ⟨⟨hw.1.cause, hw.1.http, hw.1.aws, hw.1.annotations, hw.1.metadata⟩, ?_⟩
            intro l hl v hv
            obtain ⟨_, d, hd⟩ := hx
            obtain ⟨depth', d', hdepth, hd'⟩ := eq_ok_of_list (eq_ok_of_optional hd hl) hv
            exact ih depth' (by omega) hd'
          all_goals
            exact Field.keeps_ofReader fun _ _ _ hw =>
              ⟨⟨hw.1.cause, hw.1.http, hw.1.aws, hw.1.annotations, hw.1.metadata⟩, hw.2⟩

/-! ### Normalization -/

/-- A cause is kept unless it is the empty id. -/
theorem namedCause?_eq_some {c c' : Cause} :
    namedCause? c = some c' ↔ c = c' ∧ c' ≠ .exception "" := by
  unfold namedCause?
  split
  · refine iff_of_false (by simp) ?_
    rintro ⟨rfl, h⟩
    exact h rfl
  next hne =>
    rw [Option.some.injEq]
    exact ⟨fun h => ⟨h, h ▸ hne⟩, And.left⟩

/-- Causes with a name are kept. -/
theorem bind_namedCause? {o : Option Cause} (h : o ≠ some (.exception "")) :
    o.bind namedCause? = o := by
  cases o with
  | none => rfl
  | some c => exact namedCause?_eq_some.mpr ⟨rfl, fun hc => h (congrArg some hc)⟩

/-- The trace that a content belongs to: its own, if it names one, or else the one it inherits. -/
def traceIn (w : WireSegment) (inherited : TraceId) : TraceId :=
  ((w.trace.bind Text.nonBlank?).map TraceId.mk).getD inherited

/-- A content is normalized if it has an id and the contents directly in it are normalized. -/
theorem normalize_eq_ok {document : String} {w : WireSegment} {inherited : TraceId} {s : Segment} :
    w.normalize document inherited = .ok s ↔
      ∃ id subsegments, w.id.bind Text.nonBlank? = some id ∧
        List.Forall₂ (fun v sub => v.normalize document (w.traceIn inherited) = .ok sub)
          (w.subsegments.getD []) subsegments ∧
        s = w.segment id (w.traceIn inherited) subsegments := by
  unfold normalize
  rw [fold_eq]
  cases hid : w.id.bind Text.nonBlank? with
  | none => simp
  | some id =>
      dsimp only
      simp only [List.mapM_map, ← Except.mapM_eq_ok]
      constructor
      · intro h
        obtain ⟨subsegments, hsubsegments, h⟩ := Except.bind_eq_ok.mp h
        cases h
        exact ⟨id, subsegments, rfl, hsubsegments, rfl⟩
      · rintro ⟨id', subsegments, hid', hsubsegments, rfl⟩
        cases hid'
        exact Except.bind_eq_ok.mpr ⟨subsegments, hsubsegments, rfl⟩

end WireSegment

/-! ### Normal segments -/

namespace Segment

/-- A property holds of a segment that inherits a trace id, and of all segments nested in it. -/
inductive Everywhere (P : TraceId → Segment → Prop) : TraceId → Segment → Prop
  | intro {inherited : TraceId} {s : Segment} (own : P inherited s)
      (nested : ∀ sub ∈ s.subsegments, Everywhere P s.trace sub) : Everywhere P inherited s

/-- Nothing that counts as absent when it is read is there, numbers are in range, and objects are
tables. -/
structure IsNormal (inherited : TraceId) (s : Segment) : Prop where
  id : Text.isBlank s.id = false
  /-- Only an inherited trace id may be blank. -/
  trace : Text.isBlank s.trace.text = true → s.trace = inherited
  parent : ∀ p ∈ s.parent, Text.isBlank p = false
  origin : ∀ o ∈ s.origin, Text.isBlank o = false
  kind : ∀ k ∈ s.kind, Text.isBlank k = false
  user : ∀ u ∈ s.user, Text.isBlank u = false
  named : s.cause ≠ some (.exception "")
  cause : ∀ c ∈ s.cause, c.InRange
  http : ∀ h ∈ s.http, h.InRange
  present : s.aws ≠ some .null
  aws : ∀ v ∈ s.aws, v.IsTabular
  annotations : (Json.ofTable s.annotations).IsTabular
  metadata : (Json.ofTable s.metadata).IsTabular

/-- The segment of a sound content is normal. -/
theorem isNormal_segment {w : WireSegment} (hw : w.Sound) {id : String}
    (hid : w.id.bind Text.nonBlank? = some id) (inherited : TraceId) (subsegments : List Segment) :
    IsNormal inherited (w.segment id (w.traceIn inherited) subsegments) where
  id := Text.isBlank_of_mem_bind hid
  trace := by
    intro hblank
    cases htrace : w.trace.bind Text.nonBlank? with
    | none => simp [WireSegment.segment, WireSegment.traceIn, htrace]
    | some t =>
        have ht : Text.isBlank t = false := Text.isBlank_of_mem_bind htrace
        simp [WireSegment.segment, WireSegment.traceIn, htrace, ht] at hblank
  parent _ := Text.isBlank_of_mem_bind
  origin _ := Text.isBlank_of_mem_bind
  kind _ := Text.isBlank_of_mem_bind
  user _ := Text.isBlank_of_mem_bind
  named := by
    intro h
    obtain ⟨c, -, hc⟩ := Option.bind_eq_some_iff.mp h
    exact (WireSegment.namedCause?_eq_some.mp hc).2 rfl
  cause := by
    intro c hc
    obtain ⟨c', hc', hcc'⟩ := Option.bind_eq_some_iff.mp hc
    obtain ⟨rfl, -⟩ := WireSegment.namedCause?_eq_some.mp hcc'
    exact hw.cause c' hc'
  http := hw.http
  present := by
    intro h
    exact absurd (Option.filter_eq_some_iff.mp h).2 (by simp [Json.isNull])
  aws := fun v hv => hw.aws v (Option.filter_eq_some_iff.mp hv).1
  annotations := Json.isTabular_ofTable_getD hw.annotations
  metadata := Json.isTabular_ofTable_getD hw.metadata

/-- A segment that is made of sound contents is normal at every level. -/
theorem everywhere_isNormal {document : String} {w : WireSegment}
    (hw : w.Everywhere WireSegment.Sound) {inherited : TraceId} {s : Segment}
    (h : w.normalize document inherited = .ok s) :
    s.Everywhere IsNormal inherited := by
  induction hw generalizing inherited s with
  | @intro w own nested ih =>
      obtain ⟨id, subsegments, hid, hsubsegments, rfl⟩ := WireSegment.normalize_eq_ok.mp h
      refine .intro (isNormal_segment own hid inherited subsegments) fun sub hsub => ?_
      obtain ⟨v, hv, hsub⟩ := exists_of_mem_forall₂ hsubsegments.flip hsub
      cases hl : w.subsegments with
      | none => simp [hl] at hv
      | some l =>
          rw [hl] at hv
          exact ih l hl v hv hsub

end Segment

/-! ### Documents -/

/-- A document holds what its content says, once its text is taken apart. -/
theorem Document.segment_eq {d : Document} {draft : Draft} {w : WireSegment}
    (htext : Json.Sheet.ofText d.text = ⟨draft, false⟩)
    (hread : WireSegment.reader Reader.maxNesting draft = .ok w) (trace : TraceId) :
    d.segment trace = w.normalize d.id trace := by
  have hw : WireSegment.reader.text d.text = .ok w := by
    unfold Reader.text
    rw [htext]
    simp only [hread]
    rfl
  unfold Document.segment
  rw [hw]

/-- The segment of a document is normal, and so is everything nested in it. -/
theorem Document.everywhere_isNormal {d : Document} {trace : TraceId} {s : Segment}
    (h : d.segment trace = .ok s) : s.Everywhere Segment.IsNormal trace := by
  unfold Document.segment at h
  split at h
  · cases h
  next w hw =>
    obtain ⟨w', hw', h'⟩ := Except.bind_eq_ok.mp hw
    split at h'
    · cases h'
    · cases h'
      exact Segment.everywhere_isNormal (WireSegment.everywhere_sound hw') h

/-! ### Records -/

namespace TraceRecord

/-- A record is read document by document. -/
theorem trace_eq_ok {r : TraceRecord} {t : Trace} :
    r.trace = .ok t ↔ ∃ segments,
      List.Forall₂ (fun d s => d.segment ⟨r.id⟩ = .ok s) r.documents segments ∧
        t = ⟨⟨r.id⟩, r.duration, r.limitExceeded.getD false, segments⟩ := by
  unfold trace
  simp only [← Except.mapM_eq_ok]
  constructor
  · intro h
    obtain ⟨segments, hsegments, h⟩ := Except.bind_eq_ok.mp h
    cases h
    exact ⟨segments, hsegments, rfl⟩
  · rintro ⟨segments, hsegments, rfl⟩
    exact Except.bind_eq_ok.mpr ⟨segments, hsegments, rfl⟩

/-- A record holds a trace if each of its documents holds a segment. -/
theorem trace_eq {r : TraceRecord} {segments : List Segment}
    (h : r.documents.map (fun d => d.segment ⟨r.id⟩) = segments.map .ok) :
    r.trace = .ok ⟨⟨r.id⟩, r.duration, r.limitExceeded.getD false, segments⟩ := by
  rw [← List.forall₂_eq_eq_eq, List.forall₂_map_left_iff, List.forall₂_map_right_iff] at h
  exact trace_eq_ok.mpr ⟨segments, h, rfl⟩

end TraceRecord

end CausalTrace
