import CausalTrace.Proofs.Backend.Coupling
import CausalTrace.Proofs.Backend.Frozen

/-!
# Documents in another order

A backend may hand the documents of a trace out in any order.  Two backends that differ in nothing
else are found to hold the same traces up to the order of their segments, as long as every document
can be read.

## Main definitions

* `TraceRecord.Reordered`, `Trace.Reordered` — records and traces that differ in the order only
* `TraceRecord.Staggered` — a record that can be read, with segments that start at different times
* `Store.Reordered` — stores that hold the documents of every trace in other orders

## Main statements

* `TraceRecord.Reordered.trace` — what is read of reordered records
* `Lookup.coupled_reordered` — look-ups of reordered records
* `Store.coupled_reordered` — reordered stores hand reordered records out
-/

namespace CausalTrace

/-- Two traces that differ in the order of their segments only. -/
structure Trace.Reordered (t t' : Trace) : Prop where
  id : t'.id = t.id
  duration : t'.duration = t.duration
  limitExceeded : t'.limitExceeded = t.limitExceeded
  segments : t'.segments.Perm t.segments

/-- The segments of a trace start at different times. -/
def Trace.Staggered (t : Trace) : Prop := (t.segments.map Segment.start).Nodup

/-! ### Records -/

namespace TraceRecord

/-- Two records that differ in the order of their documents only. -/
structure Reordered (r r' : TraceRecord) : Prop where
  id : r'.id = r.id
  duration : r'.duration = r.duration
  limitExceeded : r'.limitExceeded = r.limitExceeded
  documents : r'.documents.Perm r.documents

/-- All documents of a record can be read, and their segments start at different times. -/
def Staggered (r : TraceRecord) : Prop := ∃ t, r.trace = .ok t ∧ t.Staggered

/-- What is read of a record is read of the reordered one, in another order. -/
theorem Reordered.trace {r r' : TraceRecord} (h : r.Reordered r') {t : Trace}
    (ht : r.trace = .ok t) : ∃ t', r'.trace = .ok t' ∧ t.Reordered t' := by
  obtain ⟨segments, hread, rfl⟩ := trace_eq_ok.mp ht
  obtain ⟨segments', hread', hperm⟩ := List.perm_comp_forall₂ h.documents hread
  have hid : (⟨r'.id⟩ : TraceId) = ⟨r.id⟩ := congrArg TraceId.mk h.id
  refine ⟨_, trace_eq_ok.mpr ⟨segments', hid ▸ hread', rfl⟩, ?_⟩
  exact ⟨hid, h.duration, congrArg (·.getD false) h.limitExceeded, hperm⟩

end TraceRecord

/-! ### Look-ups -/

/-- From backends that hand out reordered records, reordered traces are looked up. -/
theorem Lookup.coupled_reordered {σ τ : Type} {R : σ → τ → Prop} {l : Lookup σ} {l' : Lookup τ}
    (hb : Backend.Coupled R (fun r r' => r.Reordered r' ∧ r.Staggered) l.backend l'.backend)
    (hrounds : l'.maxRounds = l.maxRounds) :
    Lookup.Coupled R (fun t t' => t.Reordered t' ∧ t.Staggered) l l' := by
  refine coupled_of_backend ?_ hb hrounds fun t t' h => ?_
  · rintro r r' ⟨hr, t, ht, hstart⟩
    obtain ⟨t', ht', hreordered⟩ := hr.trace ht
    rw [ht, ht']
    exact ⟨hr.id, .ok ⟨hreordered, hstart⟩⟩
  · rw [Bool.eq_iff_iff, List.isEmpty_iff_length_eq_zero, List.isEmpty_iff_length_eq_zero,
      h.1.segments.length_eq]

/-! ### Stores -/

namespace Store

/-- Two stores that answer alike and have been asked the same, and hold the documents of every trace
in other orders. -/
structure Reordered (s s' : Store) : Prop where
  records : ∀ id, Option.Rel (fun r r' => r.Reordered r' ∧ r.Staggered) (s.record? id)
    (s'.record? id)
  deferrals : s'.deferrals = s.deferrals
  failure : s'.failure = s.failure
  requests : s'.requests = s.requests

/-- Ids asked for one after the other are answered by reordered records, and leave reordered
stores. -/
theorem Reordered.answerAll {ids : List TraceId} :
    ∀ {s s' : Store} {b b' : Batch}, s.Reordered s' →
      b.Alike (fun r r' => r.Reordered r' ∧ r.Staggered) b' →
      (s.answerAll b ids).1.Alike (fun r r' => r.Reordered r' ∧ r.Staggered)
          (s'.answerAll b' ids).1 ∧
        (s.answerAll b ids).2.Reordered (s'.answerAll b' ids).2 := by
  induction ids with
  | nil => exact fun hs hb => ⟨hb, hs⟩
  | cons id rest ih =>
      intro s s' b b' hs hb
      have hpending : s'.pending id = s.pending id := by unfold pending; rw [hs.deferrals]
      unfold Store.answerAll answer
      rw [hpending]
      cases s.pending id with
      | zero =>
          refine ih hs { hb with records := List.rel_append hb.records ?_ }
          have hrecord := hs.records id
          generalize s.record? id = x at hrecord ⊢
          generalize s'.record? id = y at hrecord ⊢
          cases hrecord with
          | none => exact .nil
          | some h => exact .cons h .nil
      | succ n =>
          exact ih { hs with deferrals := by simp only [hs.deferrals] }
            { hb with unprocessed := by simp only [hb.unprocessed] }

/-- A store that fails logs a call, and answers it with its failure. -/
theorem batch_failing {s : Store} {message : String} (h : s.failure = some message)
    (ids : List TraceId) :
    s.batch ids = (.error ⟨message, none⟩, { s with requests := s.requests ++ [ids] }) := by
  unfold batch
  rw [h]

/-- Reordered stores hand reordered records out. -/
theorem coupled_reordered :
    Backend.Coupled Reordered (fun r r' => r.Reordered r' ∧ r.Staggered) backend backend := by
  intro ids s s' hs
  have hlogged : Reordered { s with requests := s.requests ++ [ids] }
      { s' with requests := s'.requests ++ [ids] } :=
    { hs with requests := by simp only [hs.requests] }
  cases hf : s.failure with
  | some message =>
      simp only [backend, batch_failing hf, batch_failing (hs.failure.trans hf)]
      exact ⟨.error _, hlogged⟩
  | none =>
      simp only [backend, batch_steady hf, batch_steady (hs.failure.trans hf)]
      have hempty : Batch.Alike (fun r r' => r.Reordered r' ∧ r.Staggered) ⟨[], []⟩ ⟨[], []⟩ :=
        ⟨.nil, rfl⟩
      obtain ⟨hbatch, hleft⟩ := hlogged.answerAll hempty
      exact ⟨.ok hbatch, hleft⟩

end Store

end CausalTrace
