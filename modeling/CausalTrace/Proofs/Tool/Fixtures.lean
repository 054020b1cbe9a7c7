import CausalTrace.Proofs.Json.Aliases
import CausalTrace.Proofs.Json.Printed
import CausalTrace.Proofs.Trace.Building
import CausalTrace.Tool.Fixture

/-!
# The shapes of fixtures

A fixture is an array of trace records, or an object that holds one.  In every record and every
document each field may have any of its names, the fields may stand in any order, and there may be
others between them that nobody knows; a value that is missing may be left out or be `null`.  All
these spellings are read as the same records, and so is the array that the records are written as.

## Main definitions

* `Document.Spelled`, `TraceRecord.Spelled`, `Fixture.Spelled` — the spellings
* `Fixture.Uniform` — what becomes of the fixtures of some records

## Main statements

* `Document.reads_spelled`, `TraceRecord.reads_spelled`, `Fixture.reads_spelled` — spellings are
  read as what they spell
* `Fixture.uniform` — what becomes of fixtures

## Design notes

Spellings are given by keys and values alone, so that nothing in them refers to the fields by which
they are read.
-/

namespace CausalTrace

open Reader

/-! ### Spellings -/

/-- An object with both fields of a document. -/
inductive Document.Spelled (d : Document) : Json → Prop
  | object {ms : List (String × Json)} (id : Json.under ["id", "Id"] ms = [.string d.id])
      (text : Json.under ["document", "Document"] ms = [.string d.text]) : Spelled d (.object ms)

/-- What an object gives for a list of documents, which may be left out when there are none. -/
inductive Document.Listed : List Json → List Document → Prop
  | omitted : Listed [] []
  | array {items : List Json} {ds : List Document}
      (h : List.Forall₂ (fun v d => Document.Spelled d v) items ds) : Listed [.array items] ds

/-- An object with the fields of a trace record. -/
inductive TraceRecord.Spelled (r : TraceRecord) : Json → Prop
  | object {ms : List (String × Json)} (id : Json.under ["id", "Id"] ms = [.string r.id])
      (duration : Json.Gives .float (Json.under ["duration", "Duration"] ms) r.duration)
      (limitExceeded : Json.Gives .bool
        (Json.under ["limit_exceeded", "LimitExceeded", "limitExceeded"] ms) r.limitExceeded)
      (documents : Document.Listed (Json.under ["segments", "Segments"] ms) r.documents) :
      Spelled r (.object ms)

/-- An array of trace records, or an object that holds one under either of its names. -/
inductive Fixture.Spelled (rs : List TraceRecord) : Json → Prop
  | array {items : List Json} (h : List.Forall₂ (fun v r => TraceRecord.Spelled r v) items rs) :
      Spelled rs (.array items)
  | object {ms : List (String × Json)} {items : List Json}
      (hunder : Json.under ["Traces", "traces"] ms = [.array items])
      (h : List.Forall₂ (fun v r => TraceRecord.Spelled r v) items rs) : Spelled rs (.object ms)

/-! ### Documents and trace records -/

namespace Document

theorem apart_fields : fields.Pairwise Field.Apart := by
  simp [fields, Field.Apart, Field.ofReader]

theorem commute_fields : fields.Pairwise Field.Commute := by
  simp only [fields, List.pairwise_cons, List.forall_mem_cons, Field.commute_orNamed_left,
    Field.commute_orNamed_right, Field.commute_always_left, Field.commute_always_right]
  refine ⟨⟨Field.commute_ofReader fun _ _ _ => rfl, ?_⟩, ?_, .nil⟩ <;>
    exact List.forall_mem_nil _

/-- A document is read under any of the names of its fields. -/
theorem reads_spelled {d : Document} {v : Json} (h : d.Spelled v) : reader.Reads v d := by
  obtain @⟨ms, hid, htext⟩ := h
  refine reads_gathered apart_fields commute_fields ?_ fun depth _ => ?_
  · have hid' : Json.under ["id", "Id"] ms ≠ [] := by simp [hid]
    have htext' : Json.under ["document", "Document"] ms ≠ [] := by simp [htext]
    exact List.forall_mem_cons.mpr ⟨fun _ => hid', List.forall_mem_singleton.mpr fun _ => htext'⟩
  · exact .present hid rfl (.present htext rfl (.nil _))

end Document

namespace TraceRecord

theorem apart_fields : fields.Pairwise Field.Apart := by
  simp [fields, Field.Apart, Field.ofReader]

theorem commute_fields : fields.Pairwise Field.Commute := by
  simp only [fields, List.pairwise_cons, List.forall_mem_cons, Field.commute_orNamed_left,
    Field.commute_orNamed_right, Field.commute_always_left]
  repeat' apply And.intro
  all_goals first
    | exact Field.commute_ofReader fun _ _ _ => rfl
    | exact List.forall_mem_nil _
    | exact .nil

/-- A trace record with a finite duration is read under any of the names of its fields, with
documents or without. -/
theorem reads_spelled {r : TraceRecord} {v : Json} (hfinite : ∀ x ∈ r.duration, x.isFinite = true)
    (h : r.Spelled v) : reader.Reads v r := by
  obtain ⟨id, duration, limitExceeded, documents⟩ := r
  obtain @⟨ms, hid, hduration, hlimit, hdocuments⟩ := h
  refine reads_gathered apart_fields commute_fields ?_ fun depth hnesting => ?_
  · have hrequired : Json.under ["id", "Id"] ms ≠ [] := by simp [hid]
    refine List.forall_mem_cons.mpr ⟨fun _ => hrequired, ?_⟩
    simp [Field.ofReader, Field.orNamed]
  · have hfloat : ∀ x ∈ duration, Reader.float.Restores .float x :=
      fun x hx => restores_float (hfinite x hx)
    refine .present hid rfl (.given hduration (fun _ => rfl) hfloat
      (fun x hx => float_ne_null (hfinite x hx)) hnesting rfl
      (.given hlimit (fun _ => rfl) (fun b _ => restores_bool b) (by simp) hnesting rfl ?_))
    generalize hvalues : Json.under ["segments", "Segments"] ms = values at hdocuments
    cases hdocuments with
    | omitted => exact .absent hvalues (.nil _)
    | @array items _ hitems =>
        have hmem : .array items ∈ Json.under ["segments", "Segments"] ms := by simp [hvalues]
        have hread := Reads.list (hitems.imp fun _ _ h => Document.reads_spelled h) depth
          (Json.nesting_le_of_mem_under hmem hnesting)
        exact .present hvalues (Except.map_eq_ok.mpr ⟨documents, hread, rfl⟩) (.nil _)

end TraceRecord

/-! ### The forms that are written -/

theorem Document.spelled_toJson (d : Document) : d.Spelled d.toJson := .object rfl rfl

theorem TraceRecord.spelled_toJson (r : TraceRecord) : r.Spelled r.toJson := by
  refine .object rfl (Json.gives_ofOption r.duration) (Json.gives_ofOption r.limitExceeded) ?_
  refine .array (List.forall₂_map_left_iff.mpr (List.forall₂_same.mpr fun d _ => ?_))
  exact d.spelled_toJson

theorem Document.nesting_toJson (d : Document) : d.toJson.nesting = 1 := rfl

/-- A trace record holds its documents in an array. -/
theorem TraceRecord.nesting_toJson_le (r : TraceRecord) : r.toJson.nesting ≤ 3 := by
  have hfloat : ∀ x, (Json.float x).nesting = 0 := by
    intro x
    unfold Json.float
    split <;> rfl
  refine Json.nesting_object_le.mpr ⟨2, rfl, ?_⟩
  simp only [List.forall_mem_cons, List.not_mem_nil, false_implies, implies_true, and_true]
  refine ⟨by simp [Json.nesting], ?_, ?_, ?_⟩
  · cases r.duration <;> simp [Json.ofOption, Json.nesting, hfloat]
  · cases r.limitExceeded <;> simp [Json.ofOption, Json.nesting]
  · refine Json.nesting_array_le.mpr ⟨1, rfl, fun v hv => ?_⟩
    obtain ⟨d, -, rfl⟩ := List.mem_map.mp hv
    exact d.nesting_toJson.le

namespace Fixture

/-! ### Fixtures -/

theorem spelled_ofList (rs : List TraceRecord) : Spelled rs (.ofList TraceRecord.toJson rs) :=
  .array (List.forall₂_map_left_iff.mpr (List.forall₂_same.mpr fun r _ => r.spelled_toJson))

theorem apart_fields : fields.Pairwise Field.Apart := List.pairwise_singleton _ _

theorem commute_fields : fields.Pairwise Field.Commute := List.pairwise_singleton _ _

section

variable {rs : List TraceRecord} {v : Json}

/-- Trace records with finite durations are read from any array of their spellings. -/
theorem reads_records (hfinite : ∀ r ∈ rs, ∀ x ∈ r.duration, x.isFinite = true) {items : List Json}
    (h : List.Forall₂ (fun v r => TraceRecord.Spelled r v) items rs) :
    (Reader.list TraceRecord.reader).Reads (.array items) rs := by
  refine Reads.list ?_
  induction h with
  | nil => exact .nil
  | cons hitem _ ih =>
      rw [List.forall_mem_cons] at hfinite
      exact .cons (TraceRecord.reads_spelled hfinite.1 hitem) (ih hfinite.2)

/-- The object that holds an array is no array itself, so that the second shape is tried. -/
theorem reads_spelled (hfinite : ∀ r ∈ rs, ∀ x ∈ r.duration, x.isFinite = true)
    (h : Spelled rs v) : reader.Reads v rs := by
  cases h with
  | array hitems =>
      have hread : reader.Restores (fun _ => .array _) rs :=
        .either_first (reads_records hfinite hitems)
      exact hread
  | @object ms items hunder hitems =>
      have hobject : (Reader.object fields []).Reads (.object ms) rs := by
        refine reads_gathered_object apart_fields commute_fields ?_ fun depth hnesting => ?_
        · have hrequired : Json.under ["Traces", "traces"] ms ≠ [] := by simp [hunder]
          exact List.forall_mem_singleton.mpr fun _ => hrequired
        · have hmem : .array items ∈ Json.under ["Traces", "traces"] ms := by simp [hunder]
          have hread := reads_records hfinite hitems depth
            (Json.nesting_le_of_mem_under hmem hnesting)
          exact .present hunder (Except.map_eq_ok.mpr ⟨rs, hread, rfl⟩) (.nil rs)
      have hread : reader.Restores (fun _ => .object ms) rs := by
        refine .either_second hobject fun depth => ⟨.mismatched, ?_⟩
        cases depth <;> rfl
      exact hread

/-- The records are written with an array in an object in an array. -/
theorem nesting_written_le (rs : List TraceRecord) :
    (Json.ofList TraceRecord.toJson rs).nesting ≤ 4 := by
  refine Json.nesting_array_le.mpr ⟨3, rfl, fun v hv => ?_⟩
  obtain ⟨r, -, rfl⟩ := List.mem_map.mp hv
  exact r.nesting_toJson_le

/-- A text of a value that is read as records is a fixture of these. -/
theorem parse_of_reads {text : String} (htext : Json.Sheet.ofText text = ⟨.ofJson v, false⟩)
    (h : reader.Reads v rs) (hnesting : v.nesting ≤ maxNesting) : parse text = .ok rs := by
  have hread := h maxNesting hnesting
  simp only [parse, Reader.text, htext, hread]
  rfl

/-- An object that holds nothing under either name is of neither shape. -/
theorem reader_missing {ms : List (String × Json)} (hnone : Json.under ["Traces", "traces"] ms = [])
    (depth : Nat) : ∃ flaw, reader depth (.ofJson (.object ms)) = .error flaw := by
  obtain ⟨flaw, hobject⟩ : ∃ flaw,
      Reader.object fields [] depth (.ofJson (.object ms)) = .error flaw :=
    object_missing apart_fields List.mem_cons_self rfl hnone depth
  have hlist : ∃ flaw,
      Reader.list TraceRecord.reader depth (.ofJson (.object ms)) = .error flaw :=
    ⟨.mismatched, by cases depth <;> rfl⟩
  obtain ⟨flaw', hlist⟩ := hlist
  simp only [reader, either, hobject, hlist]
  cases (Draft.ofJson (.object ms)).take depth with
  | error flaw => exact ⟨flaw, rfl⟩
  | ok => exact ⟨.mismatched, rfl⟩

/-- An object that holds traces under neither name is refused. -/
theorem parse_missing {text : String} {ms : List (String × Json)} {trailing : Bool}
    (htext : Json.Sheet.ofText text = ⟨.ofJson (.object ms), trailing⟩)
    (hnone : Json.under ["Traces", "traces"] ms = []) : ∃ flaw, parse text = .error flaw := by
  obtain ⟨flaw, hread⟩ := reader_missing hnone maxNesting
  refine ⟨flaw, ?_⟩
  simp only [parse, Reader.text, htext, hread]
  rfl

end

end Fixture

/-! ### Stores of fixtures -/

/-- Of several trace records with one id, a store of them holds the last. -/
theorem Store.get?_ofRecords (rs : List TraceRecord) (id : TraceId) :
    (ofRecords rs).traces.get? id = ((rs.filter fun r => (⟨r.id⟩ : TraceId) = id).getLast?).map
      fun r => ⟨r.duration, r.limitExceeded.getD false, r.documents⟩ := by
  unfold ofRecords
  induction rs using List.reverseRecOn with
  | nil => rfl
  | append_singleton rs r ih =>
      rw [List.foldl_concat, List.filter_append]
      by_cases hr : (⟨r.id⟩ : TraceId) = id
      · subst hr
        simp [insert]
      · simp [insert, hr, Table.get?_insert_of_ne _ _ hr, ih]

/-! ### What becomes of fixtures -/

/-- What becomes of the fixtures of some trace records. -/
structure Fixture.Uniform (rs : List TraceRecord) : Prop where
  /-- The array that the records are written as is one of their spellings. -/
  written : Spelled rs (.ofList TraceRecord.toJson rs)
  /-- Whatever spells the records is read as the records, in their order. -/
  reads : ∀ v, Spelled rs v → reader.Reads v rs
  /-- So is every text of such a value, unless something in it that nobody asks for is nested too
  deeply. -/
  parses : ∀ v text, Spelled rs v → Json.Sheet.ofText text = ⟨.ofJson v, false⟩ →
    v.nesting ≤ maxNesting → parse text = .ok rs
  /-- The array that the records are written as is never nested too deeply. -/
  parses_written : ∀ text,
    Json.Sheet.ofText text = ⟨.ofJson (.ofList TraceRecord.toJson rs), false⟩ → parse text = .ok rs
  /-- An object that holds nothing under either name is refused. -/
  refuses : ∀ ms, Json.under ["Traces", "traces"] ms = [] →
    (∀ depth, ∃ flaw, reader depth (.ofJson (.object ms)) = .error flaw) ∧
      ∀ text trailing, Json.Sheet.ofText text = ⟨.ofJson (.object ms), trailing⟩ →
        ∃ flaw, parse text = .error flaw
  /-- A store of the records holds the last one of every id. -/
  stored : ∀ id, (Store.ofRecords rs).traces.get? id
    = ((rs.filter fun r => (⟨r.id⟩ : TraceId) = id).getLast?).map
      fun r => ⟨r.duration, r.limitExceeded.getD false, r.documents⟩

namespace Fixture

/-- All spellings of trace records with finite durations mean these records. -/
theorem uniform {rs : List TraceRecord}
    (hfinite : ∀ r ∈ rs, ∀ x ∈ r.duration, x.isFinite = true) : Uniform rs where
  written := spelled_ofList rs
  reads _ h := reads_spelled hfinite h
  parses _ _ h htext hnesting := parse_of_reads htext (reads_spelled hfinite h) hnesting
  parses_written _ htext := by
    refine parse_of_reads htext (reads_spelled hfinite (spelled_ofList rs)) ?_
    exact (nesting_written_le rs).trans (by decide)
  refuses _ hnone := ⟨reader_missing hnone, fun _ _ htext => parse_missing htext hnone⟩
  stored := Store.get?_ofRecords rs

namespace Sample

/-- Two traces, of which the first is there twice. -/
def records : List TraceRecord := [
  ⟨"1-a", some 0.5, none, [⟨"a", "\x7b\x7d"⟩]⟩,
  ⟨"1-b", none, some true, []⟩,
  ⟨"1-a", none, none, []⟩]

/-- The answer of a backend with these traces, and with fields that nobody knows. -/
def answer : Json := .object [
  ("NextToken", .null),
  ("traces", .array [
    .object [
      ("Segments", .array [
        .object [("Document", .string "\x7b\x7d"), ("size", .nat 2), ("id", .string "a")]]),
      ("LimitExceeded", .null),
      ("Id", .string "1-a"),
      ("Duration", .float 0.5)],
    .object [
      ("id", .string "1-b"),
      ("limitExceeded", .bool true),
      ("duration", .null),
      ("segments", .array [])],
    .object [("Id", .string "1-a"), ("region", .array [.null])]])]

theorem isFinite_records : ∀ r ∈ records, ∀ x ∈ r.duration, x.isFinite = true := by
  simp [records, Blueprint.Sample.isFinite_half]

theorem spelled_answer : Spelled records answer := by
  refine .object rfl (.cons ?_ (.cons ?_ (.cons ?_ .nil)))
  · exact .object rfl (.value 0.5) .null (.array (.cons (.object rfl rfl) .nil))
  · exact .object rfl .null (.value true) (.array .nil)
  · exact .object rfl .omitted .omitted .omitted

/-- An answer that holds its traces under a name that nobody knows. -/
def misnamed : Json := .object [("trace", .array [])]

theorem legible_answer : answer.Legible := by
  have hhalf : Json.float 0.5 = .number (.float 0.5) := if_pos Blueprint.Sample.isFinite_half
  simp [answer, hhalf, Blueprint.Sample.readsBack_half, Json.nat, Json.Number.readsBack_int]

end Sample

/-- Two traces in the answer of a backend, the same answer under a wrong name, and the later of two
records with one id. -/
theorem uniform_sample :
    (∀ r ∈ Sample.records, ∀ x ∈ r.duration, x.isFinite = true) ∧
      parse Sample.answer.compact = .ok Sample.records ∧
      (∃ flaw, parse Sample.misnamed.compact = .error flaw) ∧
      (Store.ofRecords Sample.records).traces.get? ⟨"1-a"⟩ = some ⟨none, false, []⟩ := by
  have h := uniform Sample.isFinite_records
  refine ⟨Sample.isFinite_records, ?_, ?_, h.stored ⟨"1-a"⟩⟩
  · exact h.parses _ _ Sample.spelled_answer (Json.Sheet.ofText_compact Sample.legible_answer)
      (by decide +kernel)
  · have hlegible : Sample.misnamed.Legible := by simp [Sample.misnamed]
    exact (h.refuses _ rfl).2 _ false (Json.Sheet.ofText_compact hlegible)

end Fixture

end CausalTrace
