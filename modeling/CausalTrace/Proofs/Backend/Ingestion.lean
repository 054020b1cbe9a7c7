import CausalTrace.Proofs.Backend.History

/-!
# Ingestion

Documents are ingested into a trace one after the other.  A document whose id is there takes the
place of the first one with that id, and any other is put at the end.  So the documents of a trace
never move, and what stands at a place depends on what was ingested last and not on how it was cut
into batches.

## Main definitions

* `Store.documents` — the documents of a trace
* `Store.Ingested` — the documents of a trace before and after others were ingested
* `Store.Ingestion` — what becomes of a store

## Main statements

* `Store.getElem?_upsert` — what stands at a place after one document was ingested
* `Store.Ingested.unique` — nothing else can have become of the documents
* `Store.nodup_after` — documents stay distinct, whatever else is done with the store
* `Store.ingestion` — what becomes of a store when batches are ingested

## Design notes

Places are counted by `List.idxOf` in the list of ids, which gives the first place of an id.  A
trace may hold several documents with one id, when it was inserted with them; all but the first are
out of reach of ingestion.
-/

namespace CausalTrace

namespace Store

variable {l l' ds : List Document}

/-! ### One document -/

/-- What stands at a place: the document, if that is the first place of its id, and otherwise what
stood there before. -/
theorem getElem?_upsert (l : List Document) (d : Document) (i : Nat) :
    (upsert l d)[i]? = if i = ((upsert l d).map Document.id).idxOf d.id then some d else l[i]? := by
  induction l generalizing i with
  | nil => cases i <;> simp [upsert]
  | cons e rest ih =>
      unfold upsert
      by_cases he : e.id = d.id
      · cases i <;> simp [he]
      · cases i with
        | zero => simp [he]
        | succ i => simpa [he, List.idxOf_cons] using ih i

/-- A document with a new id comes to stand at the end; otherwise the ids stay as they are. -/
theorem map_id_upsert (l : List Document) (d : Document) :
    (upsert l d).map Document.id
      = if d.id ∈ l.map Document.id then l.map Document.id else l.map Document.id ++ [d.id] := by
  induction l with
  | nil => simp [upsert]
  | cons e rest ih =>
      unfold upsert
      by_cases he : e.id = d.id
      · simp [he]
      · rw [if_neg he, List.map_cons, ih]
        simp only [List.map_cons, List.mem_cons, Ne.symm he, false_or]
        split <;> simp

theorem mem_map_id_upsert {d : Document} {x : String} :
    x ∈ (upsert l d).map Document.id ↔ x ∈ l.map Document.id ∨ x = d.id := by
  rw [map_id_upsert]
  split
  next hmem => exact ⟨.inl, fun h => h.elim (fun hx => hx) fun heq => heq ▸ hmem⟩
  next => rw [List.mem_append, List.mem_singleton]

/-- Ids that are there keep their first places. -/
theorem idxOf_upsert {x : String} (hx : x ∈ l.map Document.id) (d : Document) :
    ((upsert l d).map Document.id).idxOf x = (l.map Document.id).idxOf x := by
  rw [map_id_upsert]
  split
  · rfl
  · exact List.idxOf_append_of_mem hx

/-! ### Several documents -/

/-- The documents of a trace before and after others were ingested. -/
structure Ingested (l ds l' : List Document) : Prop where
  /-- No document is removed or moved, and ids that were not there follow, once each and in the
  order of their first arrival. -/
  ids : l'.map Document.id = l.map Document.id
    ++ (ds.map Document.id).eraseDups.filter fun x => x ∉ l.map Document.id
  /-- At the first place of an id stands the last document that was ingested for it. -/
  latest : ∀ x ∈ ds.map Document.id,
    l'[(l'.map Document.id).idxOf x]? = (ds.filter fun d => d.id = x).getLast?
  /-- At all other places stands what stood there before. -/
  kept : ∀ i, (∀ x ∈ ds.map Document.id, i ≠ (l'.map Document.id).idxOf x) → l'[i]? = l[i]?

/-- Of several new ids each comes once, where it came first. -/
theorem filter_eraseDups_concat (known ids : List String) (id : String) :
    ((ids ++ [id]).eraseDups.filter fun x => x ∉ known)
      = (ids.eraseDups.filter fun x => x ∉ known)
        ++ if id ∈ known ∨ id ∈ ids then [] else [id] := by
  rw [List.eraseDups_append, List.filter_append]
  by_cases hids : id ∈ ids
  · simp [List.removeAll, hids]
  · by_cases hknown : id ∈ known <;> simp [List.removeAll, List.eraseDups_cons, hids, hknown]

namespace Ingested

theorem nil (l : List Document) : Ingested l [] l :=
  ⟨by simp, fun _ h => absurd h List.not_mem_nil, fun _ _ => rfl⟩

/-- The ids are those that were there, and those ingested. -/
theorem mem_ids (h : Ingested l ds l') {x : String} :
    x ∈ l'.map Document.id ↔ x ∈ l.map Document.id ∨ x ∈ ds.map Document.id := by
  rw [h.ids, List.mem_append, List.mem_filter, List.mem_eraseDups, decide_eq_true_eq]
  by_cases hx : x ∈ l.map Document.id <;> simp [hx]

/-- One more document. -/
theorem concat (h : Ingested l ds l') (d : Document) :
    Ingested l (ds ++ [d]) (upsert l' d) where
  ids := by
    rw [map_id_upsert, List.map_append, List.map_singleton, filter_eraseDups_concat,
      ← List.append_assoc, ← h.ids]
    simp only [h.mem_ids]
    split <;> simp
  latest x hx := by
    rw [getElem?_upsert, List.filter_append]
    by_cases hxd : x = d.id
    · simp [hxd]
    · have hds : x ∈ ds.map Document.id := by simpa [hxd] using hx
      have hx' : x ∈ l'.map Document.id := h.mem_ids.mpr (.inr hds)
      have hmem : x ∈ (upsert l' d).map Document.id := mem_map_id_upsert.mpr (.inl hx')
      rw [if_neg fun heq => hxd ((List.idxOf_inj hmem).mp heq), idxOf_upsert hx', h.latest x hds]
      simp [Ne.symm hxd]
  kept i hi := by
    have hd : i ≠ ((upsert l' d).map Document.id).idxOf d.id := hi d.id (by simp)
    rw [getElem?_upsert, if_neg hd]
    refine h.kept i fun x hx => ?_
    rw [← idxOf_upsert (h.mem_ids.mpr (.inr hx)) d]
    exact hi x (by simp only [List.map_append, List.mem_append]; exact .inl hx)

/-- Nothing else can have become of the documents. -/
theorem unique {l₁ l₂ : List Document} (h₁ : Ingested l ds l₁) (h₂ : Ingested l ds l₂) :
    l₁ = l₂ := by
  have hids : l₁.map Document.id = l₂.map Document.id := h₁.ids.trans h₂.ids.symm
  refine List.ext_getElem? fun i => ?_
  by_cases hi : ∃ x ∈ ds.map Document.id, i = (l₁.map Document.id).idxOf x
  · obtain ⟨x, hx, rfl⟩ := hi
    rw [h₁.latest x hx, hids, h₂.latest x hx]
  · have hnot : ∀ x ∈ ds.map Document.id, i ≠ (l₁.map Document.id).idxOf x :=
      fun x hx heq => hi ⟨x, hx, heq⟩
    rw [h₁.kept i hnot, h₂.kept i (hids ▸ hnot)]

/-- Documents that have been ingested are there as they are ingested again. -/
theorem again (h : Ingested l ds l') : Ingested l' ds l' where
  ids := by
    have hnone : ((ds.map Document.id).eraseDups.filter fun x => x ∉ l'.map Document.id) = [] := by
      refine List.filter_eq_nil_iff.mpr fun x hx => ?_
      have hmem : x ∈ l'.map Document.id := h.mem_ids.mpr (.inr (List.mem_eraseDups.mp hx))
      simpa using hmem
    rw [hnone, List.append_nil]
  latest := h.latest
  kept _ _ := rfl

/-- Distinct ids stay distinct. -/
theorem nodup (h : Ingested l ds l') (hl : (l.map Document.id).Nodup) :
    (l'.map Document.id).Nodup := by
  rw [h.ids, List.nodup_append]
  refine ⟨hl, (nodup_eraseDups _).filter _, fun x hx y hy heq => ?_⟩
  have hnot := (List.mem_filter.mp hy).2
  exact of_decide_eq_true hnot (heq ▸ hx)

end Ingested

/-- Documents are ingested one after the other. -/
theorem ingested_foldl (l ds : List Document) : Ingested l ds (ds.foldl upsert l) := by
  induction ds using List.reverseRecOn with
  | nil => exact .nil l
  | append_singleton ds d ih =>
      rw [List.foldl_concat]
      exact ih.concat d

/-! ### Stores -/

variable {s : Store} {trace : TraceId}

/-- The documents of a trace; a trace that is not there has none. -/
def documents (s : Store) (trace : TraceId) : List Document :=
  ((s.traces.get? trace).map Entry.documents).getD []

/-- What is held of a trace, with other documents; a trace that is not there comes to be there. -/
def entryWith (s : Store) (trace : TraceId) (documents : List Document) : Entry :=
  { (s.traces.get? trace).getD ⟨none, false, []⟩ with documents := documents }

/-- Ingestion changes what is held of its trace, and nothing else. -/
theorem ingest_fst (s : Store) (trace : TraceId) (ds : List Document) :
    (s.ingest trace ds).1 = { s with
      traces := s.traces.insert trace
        (s.entryWith trace (ds.foldl upsert (s.documents trace))) } := by
  unfold ingest entryWith documents
  cases s.traces.get? trace <;> rfl

/-- Documents are put among those of the trace one after the other. -/
theorem documents_ingest (s : Store) (trace : TraceId) (ds : List Document) :
    (s.ingest trace ds).1.documents trace = ds.foldl upsert (s.documents trace) := by
  rw [ingest_fst, documents, Table.get?_insert_self]
  rfl

/-- Other traces are held as before. -/
theorem get?_ingest_of_ne {other : TraceId} (h : other ≠ trace) (ds : List Document) :
    (s.ingest trace ds).1.traces.get? other = s.traces.get? other := by
  rw [ingest_fst]
  exact Table.get?_insert_of_ne _ _ h.symm

/-- Documents that are ingested after others might as well have been ingested with them. -/
theorem ingest_ingest (s : Store) (trace : TraceId) (ds ds' : List Document) :
    ((s.ingest trace ds).1.ingest trace ds').1 = (s.ingest trace (ds ++ ds')).1 := by
  rw [ingest_fst, documents_ingest, ← List.foldl_append, ingest_fst s, ingest_fst s]
  simp only [Table.insert_insert, entryWith, Table.get?_insert_self, Option.getD_some]

/-- The store after batches were ingested into a trace, one after the other. -/
def ingestAll (s : Store) (trace : TraceId) (batches : List (List Document)) : Store :=
  batches.foldl (fun s ds => (s.ingest trace ds).1) s

/-- Batches might as well have been ingested at once. -/
theorem ingestAll_eq {batches : List (List Document)} (hne : batches ≠ []) :
    s.ingestAll trace batches = (s.ingest trace batches.flatten).1 := by
  unfold ingestAll
  induction batches generalizing s with
  | nil => exact absurd rfl hne
  | cons ds rest ih =>
      cases rest with
      | nil => simp
      | cons ds' rest =>
          rw [List.foldl_cons, ih (List.cons_ne_nil _ _), ingest_ingest]
          rfl

/-- Batches are put among the documents of the trace one after the other. -/
theorem documents_ingestAll (s : Store) (trace : TraceId) (batches : List (List Document)) :
    (s.ingestAll trace batches).documents trace
      = batches.flatten.foldl upsert (s.documents trace) := by
  cases batches with
  | nil => rfl
  | cons ds rest => rw [ingestAll_eq (List.cons_ne_nil _ _), documents_ingest]

/-! ### Histories -/

/-- An operation other than the insertion of a trace keeps the documents of that trace distinct. -/
theorem nodup_perform {op : Operation} (hop : ∀ r, op = .insert r → (⟨r.id⟩ : TraceId) ≠ trace)
    (h : ((s.documents trace).map Document.id).Nodup) :
    (((op.perform s).documents trace).map Document.id).Nodup := by
  have hsame : ∀ {s' : Store}, s'.traces.get? trace = s.traces.get? trace →
      ((s'.documents trace).map Document.id).Nodup := by
    intro s' hs'
    unfold documents at h ⊢
    rwa [hs']
  -- most operations leave what is held of the trace as it is
  cases op with
  | insert r => exact hsame (Table.get?_insert_of_ne _ _ (hop r rfl))
  | ingest other ds =>
      by_cases hother : other = trace
      · subst hother
        rw [Operation.perform, documents_ingest]
        exact (ingested_foldl _ ds).nodup h
      · exact hsame (get?_ingest_of_ne (Ne.symm hother) ds)
  | setDuration other seconds | setLimitExceeded other limitExceeded =>
      unfold documents at h ⊢
      simp only [Operation.perform, setDuration, setLimitExceeded, Table.get?_modify]
      cases he : s.traces.get? trace with
      | none => simp
      | some e => split <;> simpa [he] using h
  | remove other =>
      by_cases hother : other = trace
      · simp [documents, Operation.perform, remove, Table.get?_erase, hother]
      · exact hsame ((Table.get?_erase _ _ _).trans (if_neg hother))
  | call ids =>
      refine hsame (congrArg (Table.get? · trace) ?_)
      cases hf : s.failure with
      | none => exact (batch_answered hf ids).2.1.traces
      | some message => exact congrArg (fun x => x.2.traces) (batch_failing hf ids)
  | _ => exact hsame rfl

/-- Documents stay distinct as long as their trace is not inserted, whatever else is done with the
store. -/
theorem nodup_after {ops : List Operation}
    (hops : ∀ r, .insert r ∈ ops → (⟨r.id⟩ : TraceId) ≠ trace)
    (h : ((s.documents trace).map Document.id).Nodup) :
    (((s.after ops).documents trace).map Document.id).Nodup := by
  induction ops generalizing s with
  | nil => exact h
  | cons op rest ih =>
      refine ih (fun r hr => hops r (List.mem_cons_of_mem op hr)) (nodup_perform ?_ h)
      exact fun r hr => hops r (hr ▸ List.mem_cons_self)

/-- What becomes of a store when batches are ingested into a trace. -/
structure Ingestion (s : Store) (trace : TraceId) (batches : List (List Document)) : Prop where
  /-- Documents are replaced where they stand or put at the end, and never moved. -/
  documents : Ingested (s.documents trace) batches.flatten
    ((s.ingestAll trace batches).documents trace)
  /-- How the documents are cut into batches makes no difference. -/
  cut : ∀ batches' : List (List Document), batches'.flatten = batches.flatten →
    (batches' = [] ↔ batches = []) → s.ingestAll trace batches' = s.ingestAll trace batches
  /-- To ingest a batch a second time changes nothing. -/
  again : ∀ ds, (((s.ingestAll trace batches).ingest trace ds).1.ingest trace ds).1
    = ((s.ingestAll trace batches).ingest trace ds).1
  /-- Every call gives the number of its documents. -/
  count : ∀ ds, ((s.ingestAll trace batches).ingest trace ds).2 = ds.length
  /-- Nothing but the documents of the trace is changed. -/
  rest : batches ≠ [] → s.ingestAll trace batches = { s with
    traces := s.traces.insert trace
      (s.entryWith trace ((s.ingestAll trace batches).documents trace)) }
  others : ∀ other, other ≠ trace →
    (s.ingestAll trace batches).traces.get? other = s.traces.get? other
  /-- A trace that is only ever filled by ingestion holds no two documents with one id, whatever
  else is done with the store. -/
  distinct : ∀ ops, (∀ r, .insert r ∈ ops → (⟨r.id⟩ : TraceId) ≠ trace) →
    s.traces.get? trace = none → (((s.after ops).documents trace).map Document.id).Nodup

/-- However many batches are ingested, every document is where its id came first, with the content
that came last. -/
theorem ingestion (s : Store) (trace : TraceId) (batches : List (List Document)) :
    s.Ingestion trace batches where
  documents := by
    rw [documents_ingestAll]
    exact ingested_foldl _ _
  cut batches' hflatten hempty := by
    by_cases hne : batches = []
    · rw [hne, hempty.mpr hne]
    · rw [ingestAll_eq hne, ingestAll_eq (hempty.not.mpr hne), hflatten]
  again ds := by
    generalize s.ingestAll trace batches = s'
    have hsame : (ds ++ ds).foldl upsert (s'.documents trace)
        = ds.foldl upsert (s'.documents trace) := by
      rw [List.foldl_append]
      exact (ingested_foldl _ ds).unique (ingested_foldl _ ds).again
    rw [ingest_ingest, ingest_fst, hsame, ingest_fst]
  count _ := rfl
  rest hne := by
    rw [documents_ingestAll, ingestAll_eq hne, ingest_fst]
  others other hother := by
    cases batches with
    | nil => rfl
    | cons ds rest =>
        rw [ingestAll_eq (List.cons_ne_nil _ _)]
        exact get?_ingest_of_ne hother _
  distinct ops hops hnone := nodup_after hops (by simp [Store.documents, hnone])

end Store

end CausalTrace
