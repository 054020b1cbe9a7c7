import CausalTrace.Backend.Store
import CausalTrace.Proofs.Backend.Lookup
import CausalTrace.Proofs.Trace.Content
import Mathlib

/-!
# Frozen stores

A store that neither fails nor puts ids off answers every question about a trace from what it holds,
and answers it in the same way for ever: of the store, a look-up changes nothing but the log.

## Main definitions

* `Lookup.Steady` — look-ups that always give the same answers
* `Store.Frozen`, `Store.answerTo` — a store that neither fails nor defers, and what it answers
* `Store.Serves` — a store with the traces of another

## Main statements

* `Store.trace_frozen` — a look-up in a frozen store
* `Store.Frozen.steady_serves` — a frozen store always answers from what it holds

## Design notes

Any number of rounds but zero gives the same answer, because nothing is left to ask for after the
first.
-/

namespace CausalTrace

/-- In states of a kind, every question is answered in the same way, and the state stays of that
kind. -/
def Lookup.Steady {σ : Type} (l : Lookup σ) (R : σ → Prop)
    (answers : TraceId → Except Failure Trace) : Prop :=
  ∀ id s, R s → ∃ s', l.trace id s = (answers id, s') ∧ R s'

/-- An answer that was given is the answer that is always given. -/
theorem Lookup.Steady.eq {σ : Type} {l : Lookup σ} {R : σ → Prop}
    {answers : TraceId → Except Failure Trace} (h : l.Steady R answers) {id : TraceId} {s s' : σ}
    {r : Except Failure Trace} (hs : R s) (ht : l.trace id s = (r, s')) :
    answers id = r ∧ R s' := by
  obtain ⟨s₁, heq, hs₁⟩ := h id s hs
  cases heq.symm.trans ht
  exact ⟨rfl, hs₁⟩

/-- The answers are those of a backend. -/
theorem Lookup.Steady.keyed {σ : Type} {l : Lookup σ} {R : σ → Prop}
    {answers : TraceId → Except Failure Trace} (h : l.Steady R answers) {s : σ} (hs : R s)
    {id : TraceId} {t : Trace} (ht : answers id = .ok t) : t.id = id := by
  obtain ⟨s', heq, -⟩ := h id s hs
  rw [ht] at heq
  exact (Lookup.trace_ok heq).1

namespace Store

/-- A store that neither fails nor puts ids off. -/
structure Frozen (s : Store) : Prop where
  steady : s.failure = none
  prompt : ∀ id, s.pending id = 0

/-- The trace that is held under an id, if it can be read and has segments. -/
def answerTo (s : Store) (id : TraceId) : Except Failure Trace :=
  match s.record? id with
  | none => .error (.traceNotFound id)
  | some r =>
    match r.trace with
    | .error e => .error (.unreadable id e)
    | .ok t => if t.segments.isEmpty then .error (.traceNotFound id) else .ok t

/-- A store that differs from another in its log only. -/
def Serves (s s' : Store) : Prop := ∃ requests, s' = { s with requests := requests }

theorem Serves.refl (s : Store) : Serves s s := ⟨s.requests, rfl⟩

theorem Serves.frozen {s s' : Store} (h : Serves s s') (hs : s.Frozen) : s'.Frozen := by
  obtain ⟨requests, rfl⟩ := h
  exact ⟨hs.steady, hs.prompt⟩

/-- A store answers alike whatever its log is. -/
theorem Serves.answerTo {s s' : Store} (h : Serves s s') (id : TraceId) :
    s'.answerTo id = s.answerTo id := by
  obtain ⟨requests, rfl⟩ := h
  rfl

theorem record?_id {s : Store} {id : TraceId} {r : TraceRecord} (h : s.record? id = some r) :
    (⟨r.id⟩ : TraceId) = id := by
  obtain ⟨e, -, rfl⟩ := Option.map_eq_some_iff.mp h
  rfl

/-- A store that does not fail logs a call and answers the ids one by one. -/
theorem batch_steady {s : Store} (h : s.failure = none) (ids : List TraceId) :
    s.batch ids = (.ok (answerAll { s with requests := s.requests ++ [ids] } ⟨[], []⟩ ids).1,
      (answerAll { s with requests := s.requests ++ [ids] } ⟨[], []⟩ ids).2) := by
  unfold batch
  rw [h]

/-- An id that is not put off is answered by the record that is held. -/
theorem answer_prompt {s : Store} {id : TraceId} (h : s.pending id = 0) (b : Batch) :
    s.answer b id = ({ b with records := b.records ++ (s.record? id).toList }, s) := by
  unfold answer
  rw [h]

/-- A call that asks for one trace, which is not put off. -/
theorem batch_prompt {s : Store} (h : s.failure = none) {id : TraceId} (hid : s.pending id = 0) :
    s.batch [id]
      = (.ok ⟨(s.record? id).toList, []⟩, { s with requests := s.requests ++ [[id]] }) := by
  have hlogged : pending { s with requests := s.requests ++ [[id]] } id = 0 := hid
  rw [batch_steady h, answerAll, answer_prompt hlogged]
  rfl

/-- A look-up of a trace that is not put off. -/
theorem trace_prompt {s : Store} (h : s.failure = none) {id : TraceId} (hid : s.pending id = 0)
    (n : Nat) :
    Lookup.trace ⟨backend, n + 1⟩ id s
      = (s.answerTo id, { s with requests := s.requests ++ [[id]] }) := by
  have hids : [id].eraseDups = [id] := by
    simp [List.eraseDups_cons]
  -- after the first round nothing is pending, and the other rounds do nothing
  have hrounds : ∀ (found : Table TraceId Trace) (s : Store),
      Lookup.rounds backend n [] found s = (.ok found, s) := by
    intro found s
    cases n <;> rfl
  have hcall : backend.batch [id] s
      = (.ok ⟨(s.record? id).toList, []⟩, { s with requests := s.requests ++ [[id]] }) :=
    batch_prompt h hid
  unfold Lookup.trace Lookup.traces answerTo
  rw [Action.bind_apply, hids, Lookup.rounds_cons, hcall]
  cases hr : s.record? id with
  | none =>
      simp only [Option.toList_none, Lookup.absorb, List.filter_nil, hrounds]
      rfl
  | some r =>
      have hid := record?_id hr
      simp only [Option.toList_some, Lookup.absorb, hid, Table.contains, Table.get?_nil,
        Option.isSome_none, Bool.false_eq_true, if_false]
      cases ht : r.trace with
      | error e => rfl
      | ok t =>
          simp only [List.filter_nil, hrounds, Table.get?_insert_self]
          split
          · rfl
          · rfl

/-- A look-up in a frozen store. -/
theorem trace_frozen {s : Store} (h : s.Frozen) (n : Nat) (id : TraceId) :
    Lookup.trace ⟨backend, n + 1⟩ id s
      = (s.answerTo id, { s with requests := s.requests ++ [[id]] }) :=
  trace_prompt h.steady (h.prompt id) n

/-- A frozen store always answers from what it holds. -/
theorem Frozen.steady_serves {s : Store} (hs : s.Frozen) (n : Nat) :
    Lookup.Steady ⟨backend, n + 1⟩ s.Serves s.answerTo := by
  intro id s' h
  have hlookup := trace_frozen (h.frozen hs) n id
  rw [h.answerTo] at hlookup
  obtain ⟨requests, rfl⟩ := h
  exact ⟨_, hlookup, _, rfl⟩

end Store

/-! ### Reading what is held -/

/-- What a store answers, when each document of a record holds a segment. -/
theorem Store.answerTo_of_segments {s : Store} {id : TraceId} {r : TraceRecord}
    {segments : List Segment} (hr : s.record? id = some r)
    (hsegments : r.documents.map (fun d => d.segment ⟨r.id⟩) = segments.map .ok)
    (hne : segments ≠ []) :
    s.answerTo id = .ok ⟨⟨r.id⟩, r.duration, r.limitExceeded.getD false, segments⟩ := by
  unfold Store.answerTo
  rw [hr]
  simp only [TraceRecord.trace_eq hsegments]
  rw [if_neg]
  simpa using hne

/-! ### A small store -/

namespace Store.Sample

/-- A document with a link to a child trace; the fields of the link stand in an array. -/
def documentA : Document := ⟨"a", "\x7b\"id\":\"a\",\"links\":[[\"1-b\",null,
  \x7b\"aws.xray.reserved.reference_type\":\"child\"\x7d]]\x7d"⟩

def documentB : Document := ⟨"b", "\x7b\"id\":\"b\",\"parent_id\":\"a\",\"links\":[[\"1-x\",null,
  \x7b\"aws.xray.reserved.reference_type\":\"child\"\x7d]]\x7d"⟩

def documentC : Document := ⟨"c", "\x7b\"id\":\"c\",\"links\":[[\"1-y\",null,
  \x7b\"aws.xray.reserved.reference_type\":\"child\"\x7d]]\x7d"⟩

def documentD : Document := ⟨"d", "\x7b\"id\":\"d\",\"links\":[[\"1-g\",null,
  \x7b\"aws.xray.reserved.reference_type\":\"child\"\x7d]]\x7d"⟩

def documentG : Document := ⟨"g", "\x7b\"id\":\"g\",\"links\":[[\"1-d\",null,
  \x7b\"aws.xray.reserved.reference_type\":\"child\"\x7d]]\x7d"⟩

/-- A store in which one trace links to a second and to a missing one, the second to another missing
one, and a third and a fourth to each other. -/
def store : Store := ofRecords [⟨"1-a", none, none, [documentA, documentB]⟩,
  ⟨"1-b", none, none, [documentC]⟩, ⟨"1-d", none, none, [documentD]⟩,
  ⟨"1-g", none, none, [documentG]⟩]

/-- What a document says that has an id, perhaps a parent, and a link to a child trace. -/
def content (id : String) (parent : Option String) (target : String) : WireSegment :=
  { id := some id, parent := parent,
    links := some [⟨some target, none, some [(LinkKind.attributeKey, .string "child")]⟩] }

/-- The draft of a link to a child trace. -/
def linkDraft (target : String) : Draft :=
  .array [.string (some target), .null, .object
    [(.text (some "aws.xray.reserved.reference_type"), .string (some "child"))] .closed] .closed

/-- The segment with an id, perhaps a parent, and a link to a child trace. -/
def segment (trace id : String) (parent : Option String) (target : String) : Segment :=
  (content id parent target).segment id ⟨trace⟩ []

/-- The first trace. -/
def caller : Trace :=
  ⟨⟨"1-a"⟩, none, false, [segment "1-a" "a" none "1-b", segment "1-a" "b" (some "a") "1-x"]⟩

/-- The second trace. -/
def callee : Trace := ⟨⟨"1-b"⟩, none, false, [segment "1-b" "c" none "1-y"]⟩

/-- The third trace. -/
def outward : Trace := ⟨⟨"1-d"⟩, none, false, [segment "1-d" "d" none "1-g"]⟩

/-- The fourth trace. -/
def homeward : Trace := ⟨⟨"1-g"⟩, none, false, [segment "1-g" "g" none "1-d"]⟩

theorem frozen_store : store.Frozen := ⟨rfl, fun _ => rfl⟩

/-- The draft of a document with an id, further members, and a link to a child trace. -/
def draft (id : String) (members : List (Key × Draft)) (target : String) : Draft :=
  .object ((.text (some "id"), .string (some id)) :: members
    ++ [(.text (some "links"), .array [linkDraft target] .closed)]) .closed

theorem sheet_documentA :
    Json.Sheet.ofText documentA.text = ⟨draft "a" [] "1-b", false⟩ := by
  unfold documentA draft linkDraft Json.Sheet.ofText
  simp only [String.reduceToList]
  cbv

theorem sheet_documentB : Json.Sheet.ofText documentB.text
    = ⟨draft "b" [(.text (some "parent_id"), .string (some "a"))] "1-x", false⟩ := by
  unfold documentB draft linkDraft Json.Sheet.ofText
  simp only [String.reduceToList]
  cbv

theorem sheet_documentC :
    Json.Sheet.ofText documentC.text = ⟨draft "c" [] "1-y", false⟩ := by
  unfold documentC draft linkDraft Json.Sheet.ofText
  simp only [String.reduceToList]
  cbv

theorem sheet_documentD :
    Json.Sheet.ofText documentD.text = ⟨draft "d" [] "1-g", false⟩ := by
  unfold documentD draft linkDraft Json.Sheet.ofText
  simp only [String.reduceToList]
  cbv

theorem sheet_documentG :
    Json.Sheet.ofText documentG.text = ⟨draft "g" [] "1-d", false⟩ := by
  unfold documentG draft linkDraft Json.Sheet.ofText
  simp only [String.reduceToList]
  cbv

theorem answerTo_caller : store.answerTo ⟨"1-a"⟩ = .ok caller := by
  have ha := Document.segment_eq (w := content "a" none "1-b") sheet_documentA rfl ⟨"1-a"⟩
  have hb := Document.segment_eq (w := content "b" (some "a") "1-x") sheet_documentB rfl ⟨"1-a"⟩
  have hsegments : [documentA.segment ⟨"1-a"⟩, documentB.segment ⟨"1-a"⟩]
      = caller.segments.map .ok := by
    rw [ha, hb]
    rfl
  exact answerTo_of_segments (r := ⟨"1-a", none, some false, [documentA, documentB]⟩) rfl
    hsegments (List.cons_ne_nil _ _)

theorem answerTo_callee : store.answerTo ⟨"1-b"⟩ = .ok callee :=
  answerTo_of_segments (r := ⟨"1-b", none, some false, [documentC]⟩) rfl
    (congrArg (fun s => [s])
      (Document.segment_eq (w := content "c" none "1-y") sheet_documentC rfl ⟨"1-b"⟩))
    (List.cons_ne_nil _ _)

theorem answerTo_outward : store.answerTo ⟨"1-d"⟩ = .ok outward :=
  answerTo_of_segments (r := ⟨"1-d", none, some false, [documentD]⟩) rfl
    (congrArg (fun s => [s])
      (Document.segment_eq (w := content "d" none "1-g") sheet_documentD rfl ⟨"1-d"⟩))
    (List.cons_ne_nil _ _)

theorem answerTo_homeward : store.answerTo ⟨"1-g"⟩ = .ok homeward :=
  answerTo_of_segments (r := ⟨"1-g", none, some false, [documentG]⟩) rfl
    (congrArg (fun s => [s])
      (Document.segment_eq (w := content "g" none "1-d") sheet_documentG rfl ⟨"1-g"⟩))
    (List.cons_ne_nil _ _)

theorem answerTo_missing : store.answerTo ⟨"1-x"⟩ = .error (.traceNotFound ⟨"1-x"⟩) := rfl

end Store.Sample

end CausalTrace
