import CausalTrace.Proofs.Trace.Blueprint
import Mathlib.Data.List.Induction

/-!
# Built documents hold what was built

A document is built by any number of edits in any order, and what it holds can be read off the list
of edits: of each field what the last edit of it says, of each annotation the last value for its
key, and nested segments and links in the order in which they were added.

## Main definitions

* `Blueprint.Edit.name?` and its siblings — what an edit says of one field
* `Blueprint.last` — what the last edit that says something of a field says of it
* `Blueprint.Made` — a blueprint made by edits that can be read back, at every level
* `Blueprint.Describes` — what edits say of the segment built by them

## Main statements

* `Blueprint.foldl_last`, `Blueprint.foldl_or`, `Blueprint.foldl_filterMap`,
  `Blueprint.foldl_flag`, `Blueprint.get?_foldl` — how edits add up
* `Blueprint.built` — the segment of a built document is the one that its edits describe

## Design notes

Completing a segment and putting it in progress are edits of one field, the time it ended, so that
the later of them decides about both that time and the progress.
-/

namespace CausalTrace.Blueprint

open Segment

variable {α : Type}

/-! ### What an edit says -/

namespace Edit

def name? : Edit → Option String
  | .name s => some s
  | _ => none

def trace? : Edit → Option TraceId
  | .trace t => some t
  | _ => none

def origin? : Edit → Option String
  | .origin s => some s
  | _ => none

def parent? : Edit → Option String
  | .parent id => some id
  | _ => none

def start? : Edit → Option Float
  | .timing x _ => some x
  | .start x => some x
  | _ => none

/-- The end time that an edit gives a segment, or takes from it. -/
def finish? : Edit → Option (Option Float)
  | .timing _ y => some (some y)
  | .inProgress => some none
  | _ => none

/-- Whether an edit puts a segment in progress or completes it. -/
def progress? (e : Edit) : Option Bool := e.finish?.map Option.isNone

def downstream? : Edit → Option String
  | .downstream w => some w
  | _ => none

def cause? : Edit → Option String
  | .cause id => some id
  | _ => none

def annotation? : Edit → Option (String × Json)
  | Edit.annotation k v => some (k, v)
  | _ => none

def metadata? : Edit → Option (String × Json)
  | .metadata k v => some (k, v)
  | _ => none

def aws? : Edit → Option Json
  | .aws v => some v
  | _ => none

def subsegment? : Edit → Option Blueprint
  | .subsegment n => some n
  | _ => none

def link? : Edit → Option (LinkKind × TraceId)
  | .link k t => some (k, t)
  | _ => none

end Edit

/-- What the last edit that says something of a field says of it. -/
def last (field? : Edit → Option α) (edits : List Edit) : Option α :=
  (edits.filterMap field?).getLast?

/-- The value that an entry gives for a key. -/
def valueFor? (key : String) (entry : String × Json) : Option Json :=
  if entry.1 = key then some entry.2 else none

/-! ### How edits add up -/

section

variable {field? : Edit → Option α}

/-- A later edit decides, unless it says nothing of the field. -/
theorem last_concat (field? : Edit → Option α) (edits : List Edit) (e : Edit) :
    last field? (edits ++ [e]) = (field? e).or (last field? edits) := by
  unfold last
  rw [List.filterMap_append, List.getLast?_append]
  cases he : field? e <;> simp [he]

theorem last_map {β : Type} (field? : Edit → Option α) (f : α → β) (edits : List Edit) :
    last (fun e => (field? e).map f) edits = (last field? edits).map f := by
  induction edits using List.reverseRecOn with
  | nil => rfl
  | append_singleton edits e ih =>
      rw [last_concat, last_concat, ih]
      cases field? e <;> rfl

/-- A field that every edit replaces or leaves alone has the value of the last edit of it. -/
theorem foldl_last {get : Blueprint → α} (h : ∀ b e, get (b.apply e) = (field? e).getD (get b))
    (edits : List Edit) (b : Blueprint) :
    get (edits.foldl apply b) = (last field? edits).getD (get b) := by
  induction edits using List.reverseRecOn with
  | nil => rfl
  | append_singleton edits e ih =>
      rw [List.foldl_append, List.foldl_cons, List.foldl_nil, h, ih, last_concat]
      cases field? e <;> rfl

/-- A field that starts out without a value, and that no edit empties, has the value of the last
edit of it, if there was one. -/
theorem foldl_or {get : Blueprint → Option α} (h : ∀ b e, get (b.apply e) = (field? e).or (get b))
    (edits : List Edit) {b : Blueprint} (hb : get b = none) :
    get (edits.foldl apply b) = last field? edits := by
  induction edits using List.reverseRecOn with
  | nil => exact hb
  | append_singleton edits e ih =>
      rw [List.foldl_append, List.foldl_cons, List.foldl_nil, h, ih, last_concat]

/-- A list that starts out empty, and that edits add to, holds what they added, in their order. -/
theorem foldl_filterMap {get : Blueprint → List α}
    (h : ∀ b e, get (b.apply e) = get b ++ (field? e).toList) (edits : List Edit) {b : Blueprint}
    (hb : get b = []) : get (edits.foldl apply b) = edits.filterMap field? := by
  induction edits using List.reverseRecOn with
  | nil => exact hb
  | append_singleton edits e ih =>
      rw [List.foldl_append, List.foldl_cons, List.foldl_nil, h, ih, List.filterMap_append]
      cases he : field? e <;> simp [he]

/-- A flag that starts out unset is set once the edit that sets it was made. -/
theorem foldl_flag {get : Blueprint → Bool} {flag : Edit}
    (h : ∀ b e, get (b.apply e) = true ↔ get b = true ∨ e = flag) (edits : List Edit)
    {b : Blueprint} (hb : get b = false) : get (edits.foldl apply b) = true ↔ flag ∈ edits := by
  induction edits using List.reverseRecOn with
  | nil => simp [hb]
  | append_singleton edits e ih =>
      rw [List.foldl_append, List.foldl_cons, List.foldl_nil, h, ih, List.mem_append,
        List.mem_singleton, eq_comm]

/-- A table that starts out empty, and that edits insert into, holds for every key the last value
given for it. -/
theorem get?_foldl {get : Blueprint → Table String Json} {field? : Edit → Option (String × Json)}
    (h : ∀ b e, get (b.apply e) = (field? e).elim (get b) fun m => (get b).insert m.1 m.2)
    (edits : List Edit) {b : Blueprint} (hb : get b = []) (key : String) :
    (get (edits.foldl apply b)).get? key
      = last (fun e => (field? e).bind (valueFor? key)) edits := by
  have hget : ∀ b e, (get (b.apply e)).get? key
      = ((field? e).bind (valueFor? key)).or ((get b).get? key) := by
    intro b e
    rw [h]
    cases field? e with
    | none => rfl
    | some m =>
        by_cases hk : m.1 = key
        · simp [valueFor?, hk]
        · simp [valueFor?, hk, Table.get?_insert_of_ne]
  exact @foldl_or _ _ (fun b => (get b).get? key) hget edits b (by rw [hb]; rfl)

theorem id_build (id : String) (edits : List Edit) : (build id edits).id = id := by
  have h : ∀ b : Blueprint, (edits.foldl apply b).id = b.id := by
    induction edits with
    | nil => exact fun _ => rfl
    | cons e edits ih => exact fun b => (ih _).trans (by cases e <;> rfl)
  exact h (ofId id)

end

/-! ### Blueprints that can be read back -/

/-- Times are finite, and links lead somewhere.  Objects are tables, as they are in every value that
was read from a text. -/
def Edit.IsSound : Edit → Prop
  | .timing x y => x.isFinite = true ∧ y.isFinite = true
  | .start x => x.isFinite = true
  | Edit.annotation _ v | .metadata _ v | .aws v => v.IsTabular
  | .link _ t => Text.isBlank t.text = false
  | _ => True

/-- A blueprint made by sound edits, with an id that is not blank, at every level. -/
inductive Made : Blueprint → Prop
  | build {id : String} {edits : List Edit} (hid : Text.isBlank id = false)
      (hedits : ∀ e ∈ edits, e.IsSound) (hnested : ∀ n, .subsegment n ∈ edits → Made n) :
      Made (build id edits)

theorem isTabular_insert {t : Table String Json} (ht : (Json.ofTable t).IsTabular) (k : String)
    {v : Json} (hv : v.IsTabular) : (Json.ofTable (t.insert k v)).IsTabular := by
  cases ht with
  | object hkeys hvalues =>
      refine .object (hkeys.insert k v) fun e he => ?_
      rcases Table.mem_insert he with rfl | he
      · exact hv
      · exact hvalues e he

/-- A sound edit keeps a blueprint sound. -/
theorem IsSound.apply {b : Blueprint} (hb : b.IsSound) {e : Edit} (he : e.IsSound) :
    (b.apply e).IsSound := by
  obtain ⟨hid, hstart, hfinish, hannotations, hmetadata, haws, hlinks⟩ := hb
  cases e with
  | timing x y =>
      exact ⟨hid, he.1, by rintro _ ⟨⟩; exact he.2, hannotations, hmetadata, haws, hlinks⟩
  | start x => exact ⟨hid, he, hfinish, hannotations, hmetadata, haws, hlinks⟩
  | inProgress => exact ⟨hid, hstart, by rintro _ ⟨⟩, hannotations, hmetadata, haws, hlinks⟩
  | annotation k v =>
      exact ⟨hid, hstart, hfinish, isTabular_insert hannotations k he, hmetadata, haws, hlinks⟩
  | metadata k v =>
      exact ⟨hid, hstart, hfinish, hannotations, isTabular_insert hmetadata k he, haws, hlinks⟩
  | aws v =>
      exact ⟨hid, hstart, hfinish, hannotations, hmetadata, by rintro _ ⟨⟩; exact he, hlinks⟩
  | link k t =>
      refine ⟨hid, hstart, hfinish, hannotations, hmetadata, haws, fun link hlink => ?_⟩
      rcases List.mem_append.mp hlink with hlink | hlink
      · exact hlinks link hlink
      · rw [List.mem_singleton.mp hlink]
        exact he
  | _ => exact ⟨hid, hstart, hfinish, hannotations, hmetadata, haws, hlinks⟩

theorem isFinite_zero : (0.0 : Float).isFinite = true := by decide +kernel

/-- A blueprint without edits is sound if its id is not blank. -/
theorem isSound_ofId {id : String} (h : Text.isBlank id = false) : (ofId id).IsSound where
  id := h
  start := isFinite_zero
  finish := by
    rintro _ ⟨⟩
    exact isFinite_zero
  annotations := .object List.Pairwise.nil fun _ h => absurd h List.not_mem_nil
  metadata := .object List.Pairwise.nil fun _ h => absurd h List.not_mem_nil
  aws := by rintro _ ⟨⟩
  links := fun _ h => absurd h List.not_mem_nil

/-- Sound edits build sound blueprints. -/
theorem isSound_build {id : String} {edits : List Edit} (hid : Text.isBlank id = false)
    (hedits : ∀ e ∈ edits, e.IsSound) : (build id edits).IsSound := by
  have h : ∀ b : Blueprint, b.IsSound → (edits.foldl Blueprint.apply b).IsSound := by
    induction edits with
    | nil => exact fun _ hb => hb
    | cons e edits ih =>
        rw [List.forall_mem_cons] at hedits
        exact fun b hb => ih hedits.2 _ (hb.apply hedits.1)
  exact h _ (isSound_ofId hid)

/-- The nested blueprints are those that edits added, in order. -/
theorem subsegments_build (id : String) (edits : List Edit) :
    (build id edits).subsegments = edits.filterMap Edit.subsegment? :=
  foldl_filterMap (fun b e => by cases e <;> simp [apply, Edit.subsegment?]) edits rfl

theorem mem_of_mem_subsegments {id : String} {edits : List Edit} {n : Blueprint}
    (hn : n ∈ (build id edits).subsegments) : .subsegment n ∈ edits := by
  rw [subsegments_build, List.mem_filterMap] at hn
  obtain ⟨e, he, hen⟩ := hn
  cases e with
  | subsegment => cases hen; exact he
  | _ => cases hen

/-- A blueprint that was made so is sound at every level. -/
theorem Made.everywhere_isSound {b : Blueprint} (hb : b.Made) : b.Everywhere IsSound := by
  induction hb with
  | build hid hedits _ ih =>
      exact .intro (isSound_build hid hedits) fun n hn => ih n (mem_of_mem_subsegments hn)

/-! ### The segment of a built document -/

/-- What edits of a segment with an id say of the segment that is built by them inside a trace. -/
structure Describes (id : String) (edits : List Edit) (inherited : TraceId) (s : Segment) :
    Prop where
  identity : s.id = id
  name : s.name = (last Edit.name? edits).getD id
  trace : s.trace = ((last Edit.trace? edits).filter fun t => !Text.isBlank t.text).getD inherited
  parent : s.parent = (last Edit.parent? edits).bind Text.nonBlank?
  origin : s.origin = (last Edit.origin? edits).bind Text.nonBlank?
  start : s.start = .ofSeconds ((last Edit.start? edits).getD 0.0)
  finish : s.finish = ((last Edit.finish? edits).getD (some 0.0)).map Timestamp.ofSeconds
  inProgress : s.inProgress = (last Edit.progress? edits).getD false
  /-- Whichever of completing it and putting it in progress came last decides. -/
  isOpen : s.isOpen = true ↔ last Edit.progress? edits = some true
  downstream : s.downstream = (last Edit.downstream? edits).bind Namespace.ofWord?
  error : s.error = true ↔ .error ∈ edits
  fault : s.fault = true ↔ .fault ∈ edits
  throttle : s.throttle = true ↔ .throttle ∈ edits
  cause : s.cause = ((last Edit.cause? edits).filter (· ≠ "")).map .exception
  aws : s.aws = (last Edit.aws? edits).filter fun v => !v.isNull
  annotations : s.annotations.Sorted ∧ ∀ key, s.annotations.get? key
    = last (fun e => (Edit.annotation? e).bind (valueFor? key)) edits
  metadata : s.metadata.Sorted ∧ ∀ key, s.metadata.get? key
    = last (fun e => (Edit.metadata? e).bind (valueFor? key)) edits
  /-- Nested segments are those of the nested documents, in order, inside the trace of this one. -/
  subsegments : List.Forall₂ (fun n sub => n.document.segment s.trace = .ok sub)
    (edits.filterMap Edit.subsegment?) s.subsegments
  /-- Links have what they were added with, in order, and are numbered. -/
  links : s.links = (edits.filterMap Edit.link?).zipIdx.map fun link =>
    ⟨link.1.2, id ++ "-link-" ++ toString link.2, link.1.1⟩
  /-- Nothing is said of the other fields. -/
  others : s.kind = none ∧ s.service = none ∧ s.user = none ∧ s.traced = false ∧
    s.precursors = [] ∧ s.http = none ∧ s.sql = none

/-- A built segment belongs to the trace named last, unless that is blank. -/
theorem traceIn_build (id : String) (edits : List Edit) (inherited : TraceId) :
    (build id edits).traceIn inherited
      = ((last Edit.trace? edits).filter fun t => !Text.isBlank t.text).getD inherited := by
  have htrace : (build id edits).trace = (last Edit.trace? edits).map TraceId.text := by
    rw [← last_map]
    exact foldl_or (fun _ e => by cases e <;> rfl) edits rfl
  unfold traceIn
  rw [htrace]
  cases last Edit.trace? edits with
  | none => rfl
  | some t => cases h : Text.isBlank t.text <;> simp [Text.nonBlank?, Option.filter, h]

/-- A built segment ends when it was said last to end; at first it ends at once. -/
theorem finish_build (id : String) (edits : List Edit) :
    (build id edits).finish = (last Edit.finish? edits).getD (some 0.0) :=
  foldl_last (fun _ e => by cases e <;> rfl) edits _

/-- A built segment has no end time if it was put in progress and not completed since. -/
theorem isNone_finish_build (id : String) (edits : List Edit) :
    (build id edits).finish.isNone = (last Edit.progress? edits).getD false := by
  rw [finish_build, show last Edit.progress? edits = _ from last_map _ _ _]
  cases last Edit.finish? edits <;> rfl

theorem sorted_of_isTabular {t : Table String Json} (h : (Json.ofTable t).IsTabular) :
    t.Sorted := by
  cases h with
  | object hkeys _ => exact hkeys

/-- Edits describe the segment that the blueprint made by them describes. -/
theorem describes_segment {id : String} {edits : List Edit} (hb : (build id edits).IsSound)
    {inherited : TraceId} (hnested : ∀ n ∈ edits.filterMap Edit.subsegment?, ∀ trace : TraceId,
      n.document.segment trace = .ok (n.segment trace)) :
    Describes id edits inherited ((build id edits).segment inherited) := by
  have hname : (build id edits).name = (last Edit.name? edits).getD id :=
    foldl_last (fun _ e => by cases e <;> rfl) edits _
  have hstart : (build id edits).start = (last Edit.start? edits).getD 0.0 :=
    foldl_last (fun _ e => by cases e <;> rfl) edits _
  have hparent : (build id edits).parent = last Edit.parent? edits :=
    foldl_or (fun _ e => by cases e <;> rfl) edits rfl
  have horigin : (build id edits).origin = last Edit.origin? edits :=
    foldl_or (fun _ e => by cases e <;> rfl) edits rfl
  have hdownstream : (build id edits).downstream = last Edit.downstream? edits :=
    foldl_or (fun _ e => by cases e <;> rfl) edits rfl
  have hcause : (build id edits).cause = last Edit.cause? edits :=
    foldl_or (fun _ e => by cases e <;> rfl) edits rfl
  have haws : (build id edits).aws = last Edit.aws? edits :=
    foldl_or (fun _ e => by cases e <;> rfl) edits rfl
  have herror : (build id edits).error = true ↔ .error ∈ edits :=
    foldl_flag (fun _ e => by cases e <;> simp [apply]) edits rfl
  have hfault : (build id edits).fault = true ↔ .fault ∈ edits :=
    foldl_flag (fun _ e => by cases e <;> simp [apply]) edits rfl
  have hthrottle : (build id edits).throttle = true ↔ .throttle ∈ edits :=
    foldl_flag (fun _ e => by cases e <;> simp [apply]) edits rfl
  have hannotations : ∀ key, (build id edits).annotations.get? key
      = last (fun e => (Edit.annotation? e).bind (valueFor? key)) edits :=
    get?_foldl (fun _ e => by cases e <;> rfl) edits rfl
  have hmetadata : ∀ key, (build id edits).metadata.get? key
      = last (fun e => (Edit.metadata? e).bind (valueFor? key)) edits :=
    get?_foldl (fun _ e => by cases e <;> rfl) edits rfl
  have hlinks : (build id edits).links = edits.filterMap Edit.link? :=
    foldl_filterMap (fun _ e => by cases e <;> simp [apply, Edit.link?]) edits rfl
  -- what each field of the blueprint is normalized into
  rw [segment_eq]
  refine {
    identity := id_build id edits
    name := hname
    trace := traceIn_build id edits inherited
    parent := congrArg (·.bind Text.nonBlank?) hparent
    origin := congrArg (·.bind Text.nonBlank?) horigin
    start := congrArg Timestamp.ofSeconds hstart
    finish := congrArg (·.map Timestamp.ofSeconds) (finish_build id edits)
    inProgress := isNone_finish_build id edits
    isOpen := ?isOpen
    downstream := congrArg (·.bind Namespace.ofWord?) hdownstream
    error := herror
    fault := hfault
    throttle := hthrottle
    cause := ?exception
    aws := congrArg (·.filter fun v => !v.isNull) haws
    annotations := ⟨sorted_of_isTabular hb.annotations, hannotations⟩
    metadata := ⟨sorted_of_isTabular hb.metadata, hmetadata⟩
    subsegments := ?nested
    links := ?linked
    others := ⟨rfl, rfl, rfl, rfl, rfl, rfl, rfl⟩ }
  case isOpen =>
    rw [isOpen_segmentOf, isNone_finish_build]
    cases last Edit.progress? edits <;> simp
  case exception =>
    rw [segmentOf, hcause]
    cases last Edit.cause? edits with
    | none => rfl
    | some e => by_cases he : e = "" <;> simp [WireSegment.namedCause?, Option.filter, he]
  case nested =>
    rw [segmentOf, subsegments_build, List.forall₂_map_right_iff, List.forall₂_same]
    exact fun n hn => hnested n hn _
  case linked =>
    rw [segmentOf, hlinks, id_build]
    rfl

/-- The document of a blueprint that any edits made holds the segment that these edits describe. -/
theorem built {id : String} {edits : List Edit} (hid : Text.isBlank id = false)
    (hedits : ∀ e ∈ edits, e.IsSound) (hnested : ∀ n, .subsegment n ∈ edits → n.Made)
    (hlegible : (build id edits).toJson.Legible)
    (hnesting : (build id edits).toJson.nesting ≤ Reader.maxNesting) (trace : TraceId) :
    (build id edits).document.id = id ∧
      ∃ s, (build id edits).document.segment trace = .ok s ∧ Describes id edits trace s := by
  have hmade : (build id edits).Made := .build hid hedits hnested
  refine ⟨id_build id edits, (build id edits).segment trace,
    segment_document hmade.everywhere_isSound hlegible hnesting trace,
    describes_segment (isSound_build hid hedits) fun n hn => ?_⟩
  rw [← subsegments_build id] at hn
  exact segment_document (hnested n (mem_of_mem_subsegments hn)).everywhere_isSound
    (legible_of_mem hn hlegible) (nesting_le_of_mem hn hnesting)

namespace Sample

theorem isFinite_half : (0.5 : Float).isFinite = true := by decide +kernel

theorem readsBack_zero : (Json.Number.float 0.0).ReadsBack := by
  have htext : (Json.Number.float 0.0).text.toList = ['0', '.', '0'] := by decide +kernel
  have hvalue : (Json.Numeral.mk false [0] (some [0]) none).magnitude? = some 0.0 := by
    decide +kernel
  refine ⟨⟨false, [0], some [0], none⟩, by rw [htext]; rfl, ?_⟩
  simp [Json.Numeral.value?, Json.Numeral.integer?, hvalue]

theorem readsBack_half : (Json.Number.float 0.5).ReadsBack := by
  have htext : (Json.Number.float 0.5).text.toList = ['0', '.', '5'] := by decide +kernel
  have hvalue : (Json.Numeral.mk false [0] (some [5]) none).magnitude? = some 0.5 := by
    decide +kernel
  refine ⟨⟨false, [0], some [5], none⟩, by rw [htext]; rfl, ?_⟩
  simp [Json.Numeral.value?, Json.Numeral.integer?, hvalue]

/-- A call that is completed, put in progress again and annotated twice, with a nested segment and
two links. -/
def edits : List Edit := [
  .timing 0.5 0.5,
  Edit.annotation "attempt" (.nat 1),
  .inProgress,
  .downstream "aws",
  .subsegment (build "b" [.name "inner", .fault]),
  .link .child ⟨"1-c"⟩,
  Edit.annotation "attempt" (.nat 2),
  .link .parent ⟨"1-p"⟩]

theorem isSound_edits : ∀ e ∈ edits, e.IsSound := by
  have hchild : Text.isBlank "1-c" = false := by decide
  have hparent : Text.isBlank "1-p" = false := by decide
  simp [edits, Edit.IsSound, isFinite_half, Json.nat, Json.IsTabular.number, hchild, hparent]

theorem made_nested : ∀ n, .subsegment n ∈ edits → n.Made := by
  intro n hn
  obtain rfl : n = build "b" [.name "inner", .fault] := by simpa [edits] using hn
  exact .build rfl (by simp [Edit.IsSound]) (by simp)

theorem legible_edits : (build "a" edits).toJson.Legible := by
  have hhalf : Json.float 0.5 = .number (.float 0.5) := if_pos isFinite_half
  have hzero : Json.float 0.0 = .number (.float 0.0) := if_pos isFinite_zero
  simp [toJson_eq, Json.legible_ofMembers, build, edits, apply, ofId, members, Table.insert, flag,
    filled, filledTable, Json.ofTable, Json.ofList, linkJson, Json.nat, hhalf, hzero,
    readsBack_half, readsBack_zero, Json.Number.readsBack_int]

end Sample

/-- A call that is made by several edits: it is open, the later of two annotations stands, and its
links have numbers. -/
theorem built_sample : ∃ s, (build "a" Sample.edits).document.segment ⟨"1-a"⟩ = .ok s ∧
    s.isOpen = true ∧ s.annotations.get? "attempt" = some (.nat 2) ∧
    s.links = [⟨⟨"1-c"⟩, "a-link-0", .child⟩, ⟨⟨"1-p"⟩, "a-link-1", .parent⟩] := by
  obtain ⟨-, s, hs, hdescribes⟩ := built (by decide) Sample.isSound_edits Sample.made_nested
    Sample.legible_edits (by decide +kernel) ⟨"1-a"⟩
  exact ⟨s, hs, hdescribes.isOpen.mpr rfl, hdescribes.annotations.2 "attempt", hdescribes.links⟩

end CausalTrace.Blueprint
