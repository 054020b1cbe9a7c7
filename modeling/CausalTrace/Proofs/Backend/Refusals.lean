import CausalTrace.Proofs.Backend.Rounds
import CausalTrace.Proofs.Trace.Normalization

/-!
# Records that cannot be read

A record is refused because of its first document that holds no segment: its text cannot be read, or
a segment in it, however deep, has no id.  The documents behind that one do not matter, and neither
does where in the document the id is missing.

## Main definitions

* `WireSegment.Position.Nameless` — there is no id, here or further inside
* `Document.IsBad`, `Document.Refuses` — documents that hold no segment, and what they are refused
  with
* `Lookup.Unreadable` — the first record that counts and is refused

## Main statements

* `WireSegment.normalize_eq_error` — contents that are refused
* `TraceRecord.trace_eq_error` — records that are refused
* `TraceRecord.refusals` — records that are refused, and look-ups that end with one

## Design notes

That a content with all its ids is normalized follows from what normalization keeps: the segments
stand where the contents do, and each has the id of the content.
-/

namespace CausalTrace

/-! ### Contents -/

namespace WireSegment

namespace Position

/-- The content at a position, or one that is nested in it, has no id, or a blank one. -/
def Nameless (p : Position) : Prop :=
  ∃ path q, p.at? path = some q ∧ ∀ id ∈ q.content.id, Text.isBlank id = true

theorem Nameless.own {p : Position} (h : ∀ id ∈ p.content.id, Text.isBlank id = true) :
    p.Nameless := ⟨[], p, rfl, h⟩

/-- A content is nameless when one directly in it is. -/
theorem Nameless.nested {p q : Position} (hq : q ∈ p.nested) (h : q.Nameless) : p.Nameless := by
  obtain ⟨path, q', hq', hid⟩ := h
  obtain ⟨i, hi⟩ := List.getElem?_of_mem hq
  exact ⟨i :: path, q', by rw [at?, hi, Option.bind_some, hq'], hid⟩

end Position

/-- A content is refused because it has no id, or with what one directly in it is refused. -/
theorem refused_cases {document : String} {w : WireSegment} {inherited : TraceId}
    {e : DocumentError} (h : w.normalize document inherited = .error e) :
    ((∀ id ∈ w.id, Text.isBlank id = true) ∧ e = .missingId document) ∨
      ∃ v ∈ w.subsegments.getD [], v.normalize document (w.traceIn inherited) = .error e := by
  unfold normalize at h
  rw [fold_eq] at h
  cases hid : w.id.bind Text.nonBlank? with
  | none =>
      rw [hid] at h
      cases h
      exact .inl ⟨Text.bind_nonBlank?_eq_none.mp hid, rfl⟩
  | some id =>
      rw [hid] at h
      dsimp only at h
      rcases Except.bind_eq_error.mp h with h | ⟨_, _, ⟨⟩⟩
      rw [List.mapM_map] at h
      obtain ⟨before, v, after, hl, -, hv⟩ := Except.mapM_eq_error.mp h
      exact .inr ⟨v, by simp [hl], hv⟩

/-- A content that is refused is nameless, and the document is what is named. -/
theorem nameless_of_error {document : String} {e : DocumentError} (w : WireSegment) :
    ∀ (around : List WireSegment) {inherited : TraceId},
      w.normalize document inherited = .error e →
        Position.Nameless ⟨w, around⟩ ∧ e = .missingId document := by
  -- the contents around and the trace inherited change on the way in, and only the document stays
  induction w using induction with
  | step w ih =>
      intro around inherited h
      rcases refused_cases h with ⟨hid, rfl⟩ | ⟨v, hv, h⟩
      · exact ⟨.own hid, rfl⟩
      · obtain ⟨hnameless, rfl⟩ := ih v hv (w :: around) h
        exact ⟨.nested (List.mem_map.mpr ⟨v, hv, rfl⟩) hnameless, rfl⟩

/-- A content that is normalized has ids everywhere. -/
theorem not_nameless {document : String} {w : WireSegment} {inherited : TraceId} {s : Segment}
    (h : w.normalize document inherited = .ok s) : ¬ (Position.outermost w).Nameless := by
  rintro ⟨path, q, hq, hblank⟩
  have houtermost := (nearest_cons inherited w []).symm
  have hat := normalize_at (p := .outermost w) houtermost h path
  cases hs : s.at? path with
  | none =>
      rw [hq, hs] at hat
      cases hat
  | some s' =>
      rw [hq, hs] at hat
      cases hat with
      | some hbecomes =>
          obtain ⟨hid, hfilled⟩ := (hbecomes.id s'.id).mp rfl
          exact Bool.false_ne_true (hfilled.symm.trans (hblank _ hid))

/-- A content is refused if and only if an id is missing somewhere in it. -/
theorem normalize_eq_error {document : String} {w : WireSegment} {inherited : TraceId}
    {e : DocumentError} :
    w.normalize document inherited = .error e ↔
      (Position.outermost w).Nameless ∧ e = .missingId document := by
  refine ⟨nameless_of_error w [], ?_⟩
  rintro ⟨hnameless, rfl⟩
  cases h : w.normalize document inherited with
  | ok s => exact absurd hnameless (not_nameless h)
  | error e => rw [(nameless_of_error w [] h).2]

end WireSegment

/-! ### Documents and records -/

namespace Document

/-- The text of a document cannot be read, or somewhere in it an id is missing. -/
def IsBad (d : Document) : Prop :=
  (∃ flaw, d.content = .error flaw) ∨
    ∃ w, d.content = .ok w ∧ (WireSegment.Position.outermost w).Nameless

/-- What a bad document is refused with: its text comes before its ids. -/
inductive Refuses (d : Document) : DocumentError → Prop
  | text {flaw : Flaw} (hcontent : d.content = .error flaw) : Refuses d (.unreadable d.id flaw)
  | id {w : WireSegment} (hcontent : d.content = .ok w)
      (hnameless : (WireSegment.Position.outermost w).Nameless) : Refuses d (.missingId d.id)

/-- A document is refused with what it refuses. -/
theorem segment_eq_error {d : Document} {trace : TraceId} {e : DocumentError} :
    d.segment trace = .error e ↔ d.Refuses e := by
  unfold segment
  constructor
  · intro h
    split at h
    next flaw hcontent =>
      cases h
      exact .text hcontent
    next w hcontent =>
      obtain ⟨hnameless, rfl⟩ := WireSegment.normalize_eq_error.mp h
      exact .id hcontent hnameless
  · rintro (hcontent | ⟨hcontent, hnameless⟩)
    · rw [content] at hcontent
      rw [hcontent]
    · rw [content] at hcontent
      rw [hcontent]
      exact WireSegment.normalize_eq_error.mpr ⟨hnameless, rfl⟩

/-- Bad documents are those that hold no segment. -/
theorem isBad_iff {d : Document} : d.IsBad ↔ ∃ e, d.Refuses e := by
  constructor
  · rintro (⟨flaw, hcontent⟩ | ⟨w, hcontent, hnameless⟩)
    · exact ⟨_, .text hcontent⟩
    · exact ⟨_, .id hcontent hnameless⟩
  · rintro ⟨e, hcontent | ⟨hcontent, hnameless⟩⟩
    · exact .inl ⟨_, hcontent⟩
    · exact .inr ⟨_, hcontent, hnameless⟩

/-- A document that is not bad holds a segment, whatever trace it is in. -/
theorem not_isBad_iff {d : Document} (trace : TraceId) :
    ¬ d.IsBad ↔ ∃ s, d.segment trace = .ok s := by
  rw [isBad_iff]
  have hrefuses (e : DocumentError) : d.Refuses e ↔ d.segment trace = .error e :=
    segment_eq_error.symm
  simp only [hrefuses]
  cases d.segment trace <;> simp

end Document

namespace TraceRecord

/-- A record is refused because of its first bad document. -/
theorem trace_eq_error {r : TraceRecord} {e : DocumentError} :
    r.trace = .error e ↔ ∃ before d after, r.documents = before ++ d :: after ∧
      (∀ b ∈ before, ¬ b.IsBad) ∧ d.Refuses e := by
  have hrefuses (d : Document) : d.Refuses e ↔ d.segment ⟨r.id⟩ = .error e :=
    Document.segment_eq_error.symm
  simp only [Document.not_isBad_iff ⟨r.id⟩, hrefuses]
  rw [← Except.mapM_eq_error]
  unfold trace
  constructor
  · intro h
    rcases Except.bind_eq_error.mp h with h | ⟨_, _, ⟨⟩⟩
    exact h
  · exact fun h => Except.bind_eq_error.mpr (.inl h)

/-- A record is refused just when one of its documents is bad. -/
theorem refused_iff {r : TraceRecord} :
    (∃ e, r.trace = .error e) ↔ ∃ d ∈ r.documents, d.IsBad := by
  constructor
  · rintro ⟨e, h⟩
    obtain ⟨before, d, after, hdocuments, -, hd⟩ := trace_eq_error.mp h
    exact ⟨d, by simp [hdocuments], Document.isBad_iff.mpr ⟨e, hd⟩⟩
  · rintro ⟨d, hd, hbad⟩
    cases h : r.trace with
    | error e => exact ⟨e, rfl⟩
    | ok t =>
        obtain ⟨segments, hsegments, -⟩ := trace_eq_ok.mp h
        obtain ⟨s, -, hs⟩ := exists_of_mem_forall₂ hsegments hd
        exact absurd hbad ((Document.not_isBad_iff _).mpr ⟨s, hs⟩)

end TraceRecord

/-! ### Look-ups -/

namespace Lookup

/-- Among records that are handed out, the first that counts and cannot be read is of the trace, and
is refused with the error. -/
def Unreadable (records : List TraceRecord) (id : TraceId) (e : DocumentError) : Prop :=
  ∃ before r after, records = before ++ r :: after ∧ Legible before ∧
    (∀ q ∈ before, q.id ≠ r.id) ∧ id = ⟨r.id⟩ ∧ r.trace = .error e

/-- Records of which one cannot be read are not legible. -/
theorem Unreadable.not_legible {records : List TraceRecord} {id : TraceId} {e : DocumentError}
    (h : Unreadable records id e) : ¬ Legible records := by
  obtain ⟨before, r, after, rfl, -, hnew, -, htrace⟩ := h
  exact Lookup.not_legible hnew htrace

/-- There is only one such record. -/
theorem Unreadable.unique {records : List TraceRecord} {id id' : TraceId} {e e' : DocumentError}
    (h : Unreadable records id e) (h' : Unreadable records id' e') : id = id' ∧ e = e' := by
  obtain ⟨before, r, after, rfl, hlegible, hnew, rfl, htrace⟩ := h
  obtain ⟨before', r', after', heq, hlegible', hnew', rfl, htrace'⟩ := h'
  rcases List.append_eq_append_iff.mp heq with ⟨between, rfl, hbetween⟩ | ⟨between, rfl, hbetween⟩
  · cases between with
    | nil =>
        cases hbetween
        exact ⟨rfl, Except.error.inj (htrace.symm.trans htrace')⟩
    | cons q between =>
        cases hbetween
        exact absurd hlegible' (Lookup.not_legible hnew htrace)
  · cases between with
    | nil =>
        cases hbetween
        exact ⟨rfl, Except.error.inj (htrace.symm.trans htrace')⟩
    | cons q between =>
        cases hbetween
        exact absurd hlegible (Lookup.not_legible hnew' htrace')

/-- Calls lead to the refusal of a record if and only if they hand out one to refuse. -/
theorem Course.unreadable_iff {n : Nat} {ids : List TraceId} {calls : List Call}
    {r : Except Failure (Table TraceId Trace)} (h : Course n ids [] calls r) {id : TraceId}
    {e : DocumentError} : r = .error (.unreadable id e) ↔ Unreadable (served calls) id e := by
  have hgives : Gives calls r := h.gives
  constructor
  · rintro rfl
    cases hgives with
    | unreadable hserved hbefore hnew htrace =>
        exact ⟨_, _, _, hserved, hbefore, hnew, rfl, htrace⟩
  · intro hunreadable
    cases hgives with
    | @backend before asked e' hcalls =>
        -- the call that failed was made because nothing was to refuse before it
        have hlast : before.length < calls.length := by simp [hcalls]
        have hlegible : Legible (served before) := by
          by_contra hillegible
          refine h.goesOn before.length hlast (.inr (.inr (.inr ?_)))
          rwa [List.nil_append, hcalls, List.take_left]
        have hserved : served calls = served before := by
          simp [hcalls, served, Call.records, Except.toOption]
        exact absurd (hserved ▸ hlegible) hunreadable.not_legible
    | unreadable hserved hbefore hnew htrace =>
        obtain ⟨rfl, rfl⟩ := hunreadable.unique ⟨_, _, _, hserved, hbefore, hnew, rfl, htrace⟩
        rfl
    | found hfine => exact absurd (.inr hunreadable.not_legible) hfine

end Lookup

/-- A record is refused if and only if one of its documents is bad, and what it is refused with is
said by the first bad one.  A look-up ends with what the first record is refused with that counts
and cannot be read, under the id of the record. -/
theorem TraceRecord.refusals (r : TraceRecord) :
    ((∃ e, r.trace = .error e) ↔ ∃ d ∈ r.documents, d.IsBad) ∧
      (∀ e, r.trace = .error e ↔ ∃ before d after, r.documents = before ++ d :: after ∧
        (∀ b ∈ before, ¬ b.IsBad) ∧ d.Refuses e) ∧
      ∀ {σ : Type} (l : Lookup σ) (ids : List TraceId) (s : σ), ∃ calls answer s',
        l.traces ids s = (answer, s') ∧ l.backend.Answers s calls s' ∧
        (∀ log, l.recorded.traces ids (s, log) = (answer, (s', log ++ calls.map Call.asked))) ∧
        ∀ id e, answer = .error (.unreadable id e) ↔ Lookup.Unreadable (Lookup.served calls) id e
    := by
  refine ⟨refused_iff, fun e => trace_eq_error, fun l ids s => ?_⟩
  obtain ⟨calls, answer, s', hrun, hanswers, hrecord, hcourse⟩ := l.traces_proceeds ids s
  exact ⟨calls, answer, s', hrun, hanswers, hrecord, fun id e => hcourse.unreadable_iff⟩

end CausalTrace
