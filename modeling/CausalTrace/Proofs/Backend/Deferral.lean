import CausalTrace.Proofs.Backend.Frozen
import CausalTrace.Proofs.Table

/-!
# Looking traces up while they are put off

A store reports an id as unprocessed as often as it was told to, and a look-up asks again for the
ids that are.  Together they come to this: a trace is found if it is put off less often than calls
are made, call after call asks for the ids that are still put off, and every call wears the
counters of the ids it asks for down by one.

## Main definitions

* `Store.held?`, `Store.Legible` — the trace that is held under an id, and whether it can be read
* `Store.roundsFor` — the number of calls until no id of a list is put off any more
* `Store.Worn` — a store in which some ids have been asked for a number of times

## Main statements

* `Store.Worn.trans` — one more call before a number of calls
* `Store.rounds_deferred` — what a number of rounds gives and leaves
* `Store.found_through_deferrals` — a look-up in a store that puts ids off

## Design notes

The rounds are described by induction on their number, for any list of distinct ids of which none
has been found yet.  In the rounds after the first, the ids are those that the first call was put
off on, and the counters are those that it left, so that the `r`-th call of the rest is the
`r + 1`-th of all.
-/

namespace CausalTrace.Store

/-! ### What is held -/

/-- The trace that is held under an id, if it can be read. -/
def held? (s : Store) (id : TraceId) : Option Trace :=
  (s.record? id).bind fun r => r.trace.toOption

/-- What is held under an id, if anything is, can be read. -/
def Legible (s : Store) (id : TraceId) : Prop :=
  ∀ r, s.record? id = some r → ∃ t, r.trace = .ok t

/-- The number of calls until no id of a list is put off any more: one more than the most often
that one is, and none if there is no id. -/
def roundsFor (s : Store) (ids : List TraceId) : Nat :=
  (ids.map fun id => s.pending id + 1).foldr max 0

variable {s s' s₁ s₂ : Store} {ids : List TraceId}

/-- What is held depends on the traces of a store only. -/
theorem held?_congr (h : s'.traces = s.traces) (id : TraceId) : s'.held? id = s.held? id := by
  unfold held? record?
  rw [h]

theorem Legible.congr {id : TraceId} (hid : s.Legible id) (h : s'.traces = s.traces) :
    s'.Legible id := by
  unfold Legible record? at hid ⊢
  rwa [h]

/-- A further round is due when an id is put off that often. -/
theorem lt_roundsFor_iff {r : Nat} : r < s.roundsFor ids ↔ ∃ id ∈ ids, r ≤ s.pending id := by
  induction ids with
  | nil => simp [roundsFor]
  | cons id rest ih =>
      have hcons : s.roundsFor (id :: rest) = max (s.pending id + 1) (s.roundsFor rest) := rfl
      rw [hcons, lt_max_iff, ih, List.exists_mem_cons_iff, Nat.lt_succ_iff]

/-- The number of rounds depends on which ids are asked for, and not on their order. -/
theorem roundsFor_congr {ids' : List TraceId} (h : ∀ id, id ∈ ids ↔ id ∈ ids') :
    s.roundsFor ids = s.roundsFor ids' := by
  refine eq_of_forall_lt_iff fun r => ?_
  simp only [lt_roundsFor_iff, h]

/-! ### Counters -/

/-- What is left of a store in which every id has been asked for so many times: its counter has gone
down as often, or to zero. -/
structure Worn (s : Store) (times : TraceId → Nat) (s' : Store) : Prop where
  pending : ∀ id, s'.pending id = s.pending id - times id
  untouched : ∀ id, times id = 0 → s'.deferrals.get? id = s.deferrals.get? id
  traces : s'.traces = s.traces
  failure : s'.failure = s.failure

namespace Worn

variable {times more : TraceId → Nat}

theorem refl (s : Store) : Worn s (fun _ => 0) s :=
  ⟨fun _ => rfl, fun _ _ => rfl, rfl, rfl⟩

/-- Ids that are asked for some times and then more times. -/
theorem trans (h₁ : Worn s times s₁) (h₂ : Worn s₁ more s₂) :
    Worn s (fun id => times id + more id) s₂ where
  pending id := by rw [h₂.pending, h₁.pending, Nat.sub_sub]
  untouched id hid := by
    obtain ⟨htimes, hmore⟩ := Nat.add_eq_zero_iff.mp hid
    rw [h₂.untouched id hmore, h₁.untouched id htimes]
  traces := h₂.traces.trans h₁.traces
  failure := h₂.failure.trans h₁.failure

/-- Further times do not count once a counter is at zero. -/
theorem congr (h : Worn s times s') (hsame : ∀ id, s.pending id - times id = s.pending id - more id)
    (hzero : ∀ id, more id = 0 → times id = 0) : Worn s more s' where
  pending id := by rw [h.pending, hsame]
  untouched id hid := h.untouched id (hzero id hid)
  traces := h.traces
  failure := h.failure

end Worn

/-! ### One call -/

/-- The ids of a list that are put off `r` times or more. -/
def putOff (s : Store) (r : Nat) (ids : List TraceId) : List TraceId :=
  ids.filter fun id => r ≤ s.pending id

/-- The ids of a list that are not put off any more. -/
def due (s : Store) (ids : List TraceId) : List TraceId := ids.filter fun id => s.pending id = 0

theorem mem_putOff {r : Nat} {id : TraceId} :
    id ∈ s.putOff r ids ↔ id ∈ ids ∧ r ≤ s.pending id := by
  simp [putOff]

theorem mem_due {id : TraceId} : id ∈ s.due ids ↔ id ∈ ids ∧ s.pending id = 0 := by
  simp [due]

/-- An id that is asked for once is answered, or its counter goes down. -/
theorem answer_worn (s : Store) (b : Batch) (id : TraceId) :
    Worn s (fun i => [id].count i) (s.answer b id).2 ∧
      (s.answer b id).2.requests = s.requests := by
  unfold answer
  split
  next n hid =>
    refine ⟨⟨fun i => ?_, fun i hi => ?_, rfl, rfl⟩, rfl⟩
    · by_cases heq : id = i
      · subst heq
        simp only [List.count_singleton_self, hid]
        unfold pending
        rw [Table.get?_insert_self]
        rfl
      · rw [List.count_singleton, if_neg (by simpa using heq)]
        unfold pending
        rw [Table.get?_insert_of_ne _ _ heq]
        rfl
    · exact Table.get?_insert_of_ne _ _ fun heq => by simp [heq] at hi
  next hid =>
    refine ⟨⟨fun i => ?_, fun _ _ => rfl, rfl, rfl⟩, rfl⟩
    by_cases heq : id = i
    · subst heq
      rw [hid, Nat.zero_sub]
    · rw [List.count_singleton, if_neg (by simpa using heq), Nat.sub_zero]

/-- A call wears the counters of the ids that it asks for. -/
theorem answerAll_worn :
    ∀ (ids : List TraceId) (s : Store) (b : Batch),
      Worn s (fun i => ids.count i) (s.answerAll b ids).2 ∧
        (s.answerAll b ids).2.requests = s.requests := by
  intro ids
  induction ids with
  | nil => exact fun s b => ⟨Worn.refl s, rfl⟩
  | cons id rest ih =>
      intro s b
      obtain ⟨hfirst, hlog⟩ := answer_worn s b id
      obtain ⟨hrest, hlogs⟩ := ih (s.answer b id).2 (s.answer b id).1
      refine ⟨(hfirst.trans hrest).congr (fun i => ?_) fun i hi => ?_, hlogs.trans hlog⟩
      · rw [← List.count_append, List.singleton_append]
      · rwa [← List.count_append, List.singleton_append]

/-- A call hands out what is held under the ids that are not put off, and puts off the others. -/
theorem answerAll_nodup :
    ∀ {ids : List TraceId} (s : Store) (b : Batch), ids.Nodup →
      (s.answerAll b ids).1
        = ⟨b.records ++ (s.due ids).filterMap s.record?, b.unprocessed ++ s.putOff 1 ids⟩ := by
  intro ids
  induction ids with
  | nil => exact fun s b _ => by simp [answerAll, due, putOff]
  | cons id rest ih =>
      intro s b hnodup
      obtain ⟨hid, hrest⟩ := List.nodup_cons.mp hnodup
      have hworn := (answer_worn s b id).1
      -- the counters of the other ids are as before
      have hsame : ∀ i ∈ rest, (s.answer b id).2.pending i = s.pending i := by
        intro i hi
        have hne : id ≠ i := fun heq => hid (heq ▸ hi)
        rw [hworn.pending, List.count_singleton, if_neg (by simpa using hne), Nat.sub_zero]
      have hdue : (s.answer b id).2.due rest = s.due rest :=
        List.filter_congr fun i hi => by rw [hsame i hi]
      have hputOff : (s.answer b id).2.putOff 1 rest = s.putOff 1 rest :=
        List.filter_congr fun i hi => by rw [hsame i hi]
      have hrecord : (s.answer b id).2.record? = s.record? := by
        funext i
        unfold record?
        rw [hworn.traces]
      have hall : (s.answerAll b (id :: rest)).1
          = ((s.answer b id).2.answerAll (s.answer b id).1 rest).1 := rfl
      rw [hall, ih _ _ hrest, hdue, hputOff, hrecord]
      unfold answer
      cases hp : s.pending id with
      | zero =>
          cases hr : s.record? id <;> simp [due, putOff, hp, hr]
      | succ n => simp [due, putOff, hp]

/-- A call that asks for distinct ids. -/
theorem batch_deferred {s : Store} (hsteady : s.failure = none) {ids : List TraceId}
    (hnodup : ids.Nodup) :
    ∃ s', backend.batch ids s
        = (.ok ⟨(s.due ids).filterMap s.record?, s.putOff 1 ids⟩, s') ∧
      Worn s (fun i => ids.count i) s' ∧ s'.requests = s.requests ++ [ids] := by
  let logged : Store := { s with requests := s.requests ++ [ids] }
  obtain ⟨hworn, hlog⟩ := answerAll_worn ids logged ⟨[], []⟩
  have hcall : backend.batch ids s = (.ok (logged.answerAll ⟨[], []⟩ ids).1,
      (logged.answerAll ⟨[], []⟩ ids).2) := batch_steady hsteady ids
  rw [answerAll_nodup logged ⟨[], []⟩ hnodup] at hcall
  -- the counters of the store are not changed by logging the call
  exact ⟨_, hcall, ⟨hworn.pending, hworn.untouched, hworn.traces, hworn.failure⟩, hlog⟩

/-! ### Rounds -/

/-- The records of distinct ids, of which none has been found yet, read one after the other. -/
theorem absorb_records :
    ∀ {ids : List TraceId} {found : Table TraceId Trace}, ids.Nodup →
      (∀ id ∈ ids, s.Legible id) → (∀ id ∈ ids, found.get? id = none) →
      ∃ found', Lookup.absorb found (ids.filterMap s.record?) = .ok found' ∧
        (found.Sorted → found'.Sorted) ∧
        ∀ id, found'.get? id = if id ∈ ids then s.held? id else found.get? id := by
  intro ids
  induction ids with
  | nil => exact fun _ _ _ => ⟨_, rfl, id, fun _ => by simp⟩
  | cons i rest ih =>
      intro found hnodup hlegible hnone
      obtain ⟨hi, hrest⟩ := List.nodup_cons.mp hnodup
      have hlegible' : ∀ id ∈ rest, s.Legible id :=
        fun id hid => hlegible id (List.mem_cons_of_mem _ hid)
      cases hr : s.record? i with
      | none =>
          obtain ⟨found', hfound', hsorted, hget⟩ :=
            ih hrest hlegible' fun id hid => hnone id (List.mem_cons_of_mem _ hid)
          refine ⟨found', by rw [List.filterMap_cons_none hr, hfound'], hsorted, fun id => ?_⟩
          rw [hget]
          -- an id without a record is left out, and nothing is held under it either
          by_cases heq : id = i
          · subst heq
            have hheld : s.held? id = none := by simp [held?, hr]
            simp [hi, hheld, hnone id List.mem_cons_self]
          · simp [heq]
      | some r =>
          have hid := record?_id hr
          obtain ⟨t, ht⟩ := hlegible i List.mem_cons_self r hr
          -- ids are distinct, so that the trace that was just read hides no later one
          have hne : ∀ id ∈ rest, (found.insert i t).get? id = none := by
            intro id hmem
            have hne : i ≠ id := fun heq => hi (heq ▸ hmem)
            rw [Table.get?_insert_of_ne _ _ hne]
            exact hnone id (List.mem_cons_of_mem _ hmem)
          obtain ⟨found', hfound', hsorted, hget⟩ := ih hrest hlegible' hne
          refine ⟨found', ?_, fun h => hsorted (h.insert i t), fun id => ?_⟩
          · rw [List.filterMap_cons_some hr, Lookup.absorb, hid, ht]
            simp only [Table.contains, hnone i List.mem_cons_self, Option.isSome_none,
              Bool.false_eq_true, if_false]
            exact hfound'
          · rw [hget, Table.get?_insert]
            by_cases heq : id = i
            · subst heq
              have hheld : s.held? id = some t := by simp [held?, hr, ht, Except.toOption]
              simp [hi, hheld]
            · simp [heq, Ne.symm heq]

/-- After a call there is one round less to go. -/
theorem roundsFor_worn {times : TraceId → Nat} (h : Worn s times s')
    (hone : ∀ id ∈ ids, times id = 1) (hne : ids ≠ []) :
    s.roundsFor ids = s'.roundsFor (s.putOff 1 ids) + 1 := by
  refine eq_of_forall_lt_iff fun r => ?_
  cases r with
  | zero =>
      obtain ⟨id, hid⟩ := List.exists_mem_of_ne_nil ids hne
      exact iff_of_true (lt_roundsFor_iff.mpr ⟨id, hid, Nat.zero_le _⟩) (Nat.succ_pos _)
  | succ r =>
      rw [Nat.succ_lt_succ_iff, lt_roundsFor_iff, lt_roundsFor_iff]
      constructor
      · rintro ⟨id, hid, hle⟩
        refine ⟨id, mem_putOff.mpr ⟨hid, by omega⟩, ?_⟩
        rw [h.pending, hone id hid]
        omega
      · rintro ⟨id, hmem, hle⟩
        obtain ⟨hid, hpos⟩ := mem_putOff.mp hmem
        rw [h.pending, hone id hid] at hle
        exact ⟨id, hid, by omega⟩

/-- The ids that a later call is put off on, as those of a call one earlier. -/
theorem putOff_worn {times : TraceId → Nat} (h : Worn s times s') (hone : ∀ id ∈ ids, times id = 1)
    (r : Nat) : s'.putOff r (s.putOff 1 ids) = s.putOff (r + 1) ids := by
  unfold putOff
  rw [List.filter_filter]
  refine List.filter_congr fun id hid => ?_
  rw [h.pending, hone id hid, ← Bool.decide_and, decide_eq_decide]
  omega

/-- A round that is answered, and whose records can be read, is followed by the other rounds. -/
theorem rounds_succ {n : Nat} {ids : List TraceId} {found found₁ : Table TraceId Trace} {b : Batch}
    (hne : ids ≠ []) (hcall : backend.batch ids s = (.ok b, s₁))
    (hfound : Lookup.absorb found b.records = .ok found₁) :
    Lookup.rounds backend (n + 1) ids found s
      = Lookup.rounds backend n (b.unprocessed.filter fun id => !found₁.contains id) found₁ s₁ := by
  obtain ⟨first, others, rfl⟩ := List.exists_cons_of_ne_nil hne
  rw [Lookup.rounds_cons, hcall]
  simp only [hfound]

/-- What a number of rounds gives and leaves, for distinct ids of which none has been found yet. -/
theorem rounds_deferred :
    ∀ (n : Nat) {ids : List TraceId} {s : Store} {found : Table TraceId Trace}, ids.Nodup →
      s.failure = none → (∀ id ∈ ids, s.Legible id) → (∀ id ∈ ids, found.get? id = none) →
      ∃ found' s', Lookup.rounds backend n ids found s = (.ok found', s') ∧
        (found.Sorted → found'.Sorted) ∧
        (∀ id, found'.get? id
          = if id ∈ ids ∧ s.pending id < n then s.held? id else found.get? id) ∧
        Worn s (fun id => if id ∈ ids then n else 0) s' ∧
        s'.requests = s.requests
          ++ (List.range (min n (s.roundsFor ids))).map fun r => s.putOff r ids := by
  intro n
  induction n with
  | zero =>
      intro ids s found _ _ _ _
      refine ⟨found, s, rfl, id, fun _ => by simp, (Worn.refl s).congr ?_ ?_, by simp⟩ <;> simp
  | succ n ih =>
      intro ids s found hnodup hsteady hlegible hnone
      cases hids : ids with
      | nil => exact ⟨found, s, rfl, id, fun _ => by simp, by simpa using Worn.refl s,
          by simp [roundsFor]⟩
      | cons first others =>
          rw [← hids]
          have hne : ids ≠ [] := by simp [hids]
          obtain ⟨s₁, hcall, hworn, hlog⟩ := batch_deferred hsteady hnodup
          have hdue : (s.due ids).Nodup := hnodup.filter _
          have hleft : (s.putOff 1 ids).Nodup := hnodup.filter _
          have hone : ∀ i ∈ ids, ids.count i = 1 :=
            fun i hi => List.count_eq_one_of_mem hnodup hi
          -- the records of the call
          obtain ⟨found₁, hfound₁, hsorted₁, hget₁⟩ :=
            absorb_records hdue (fun i hi => hlegible i (mem_due.mp hi).1)
              fun i hi => hnone i (mem_due.mp hi).1
          have hunfound : ∀ i ∈ s.putOff 1 ids, found₁.get? i = none := by
            intro i hi
            obtain ⟨hmem, hpos⟩ := mem_putOff.mp hi
            rw [hget₁, if_neg fun hdue => by have := (mem_due.mp hdue).2; omega]
            exact hnone i hmem
          -- the rest of the rounds
          obtain ⟨found', s', hrounds, hsorted, hget, hrest, hlogs⟩ :=
            ih hleft (hworn.failure.trans hsteady)
              (fun i hi => (hlegible i (mem_putOff.mp hi).1).congr hworn.traces) hunfound
          refine ⟨found', s', ?_, fun h => hsorted (hsorted₁ h), fun i => ?_, ?_, ?_⟩
          · have hpending : (s.putOff 1 ids).filter (fun i => !found₁.contains i)
                = s.putOff 1 ids :=
              List.filter_eq_self.mpr fun i hi => by simp [Table.contains, hunfound i hi]
            rw [rounds_succ hne hcall hfound₁, hpending, hrounds]
          · simp only [hget, hget₁, held?_congr hworn.traces, hworn.pending, mem_putOff, mem_due]
            by_cases hi : i ∈ ids
            · rw [hone i hi]
              by_cases hp : s.pending i = 0
              · simp [hi, hp]
              · have hlt : s.pending i - 1 < n ↔ s.pending i < n + 1 := by omega
                simp [hi, hp, hlt, Nat.one_le_iff_ne_zero]
            · simp [hi]
          · refine (hworn.trans hrest).congr (fun i => ?_) fun i hi => ?_
            · by_cases hi : i ∈ ids
              · by_cases hp : 1 ≤ s.pending i
                · simp only [hone i hi, mem_putOff, hi, hp, and_self, if_true]
                  omega
                · omega
              · simp [hi, mem_putOff, List.count_eq_zero_of_not_mem hi]
            · have hmem : i ∉ ids := fun hmem => by simp [hmem] at hi
              simp [hmem, mem_putOff, List.count_eq_zero_of_not_mem hmem]
          · rw [hlogs, hlog, roundsFor_worn hworn hone hne, Nat.succ_min_succ,
              List.range_succ_eq_map, List.map_cons, List.map_map]
            have hfirst : s.putOff 0 ids = ids := List.filter_eq_self.mpr fun _ _ => by simp
            rw [hfirst, List.append_assoc, List.singleton_append]
            exact congrArg (s.requests ++ ids :: ·)
              (List.map_congr_left fun r _ => putOff_worn hworn hone r)

/-! ### Look-ups -/

/-- A look-up of several traces. -/
theorem traces_deferred {s : Store} (hsteady : s.failure = none) {ids : List TraceId}
    (hlegible : ∀ id ∈ ids, s.Legible id) (n : Nat) :
    ∃ found s', (Lookup.traces ⟨backend, n⟩ ids).run s = (.ok found, s') ∧ found.Sorted ∧
      (∀ id, found.get? id = if id ∈ ids ∧ s.pending id < n then s.held? id else none) ∧
      Worn s (fun id => if id ∈ ids then n else 0) s' ∧
      s'.requests = s.requests
        ++ (List.range (min n (s.roundsFor ids))).map fun r => s.putOff r ids.eraseDups := by
  have hmem : ∀ id, id ∈ ids.eraseDups ↔ id ∈ ids := fun id => List.mem_eraseDups
  obtain ⟨found, s', hrounds, hsorted, hget, hworn, hlogs⟩ :=
    rounds_deferred n (nodup_eraseDups ids) hsteady
      (fun id hid => hlegible id ((hmem id).mp hid)) fun id _ => Table.get?_nil id
  simp only [hmem, roundsFor_congr hmem] at hget hworn hlogs
  exact ⟨found, s', hrounds, hsorted List.Pairwise.nil, hget, hworn, hlogs⟩

/-- A look-up of one trace that can be read: it is answered from what is held, unless it is put off
too often. -/
theorem trace_deferred {s : Store} (hsteady : s.failure = none) {id : TraceId}
    (hlegible : s.Legible id) (n : Nat) :
    ((Lookup.trace ⟨backend, n⟩ id).run s).1
      = if s.pending id < n then s.answerTo id else .error (.traceNotFound id) := by
  have hread : ∀ i ∈ [id], s.Legible i := fun i hi => List.mem_singleton.mp hi ▸ hlegible
  obtain ⟨found, s', hrun, -, hget, -⟩ := traces_deferred hsteady hread n
  have hfound := hget id
  simp only [List.mem_singleton, true_and] at hfound
  unfold Action.run at hrun ⊢
  rw [Lookup.trace, Action.bind_apply, hrun]
  by_cases hp : s.pending id < n
  · rw [if_pos hp] at hfound ⊢
    simp only [hfound]
    unfold held? answerTo
    cases hr : s.record? id with
    | none => rfl
    | some r =>
        obtain ⟨t, ht⟩ := hlegible r hr
        simp only [Option.bind_some, ht, Except.toOption]
        split <;> rfl
  · rw [if_neg hp] at hfound ⊢
    simp only [hfound]
    rfl

/-- A legible trace is answered from what is held, and missing if it holds no document. -/
theorem answerTo_legible {s : Store} {id : TraceId} (h : s.Legible id) :
    (s.answerTo id = .error (.traceNotFound id) ↔
        s.traces.get? id = none ∨ ∃ e, s.traces.get? id = some e ∧ e.documents = []) ∧
      ∀ t, s.answerTo id = .ok t ↔ s.held? id = some t ∧ t.segments ≠ [] := by
  unfold answerTo held?
  cases he : s.traces.get? id with
  | none =>
      have hr : s.record? id = none := by simp [record?, he]
      simp [hr]
  | some e =>
      have hr : s.record? id = some ⟨id.text, e.duration, some e.limitExceeded, e.documents⟩ := by
        simp [record?, he]
      obtain ⟨t, ht⟩ := h _ hr
      obtain ⟨segments, hdocuments, rfl⟩ := TraceRecord.trace_eq_ok.mp ht
      have hempty : segments = [] ↔ e.documents = [] := by
        rw [← List.length_eq_zero_iff, ← List.length_eq_zero_iff, hdocuments.length_eq]
      simp only [hr, ht, Option.bind_some, Except.toOption, Option.some.injEq]
      by_cases hnil : segments = []
      · refine ⟨iff_of_true (by simp [hnil]) (.inr ⟨e, rfl, hempty.mp hnil⟩), fun t => ?_⟩
        refine iff_of_false (by simp [hnil]) ?_
        rintro ⟨rfl, hne⟩
        exact hne hnil
      · refine ⟨iff_of_false (by simp [hnil]) ?_, fun t => ?_⟩
        · rintro (hnone | ⟨e', he', hdocuments'⟩)
          · cases hnone
          · cases he'
            exact hnil (hempty.mpr hdocuments')
        · rw [if_neg (by simpa using hnil), Except.ok.injEq]
          refine ⟨?_, And.left⟩
          rintro rfl
          exact ⟨rfl, hnil⟩

/-- What is answered can be read, and is held. -/
theorem legible_of_answerTo {s : Store} {id : TraceId} {t : Trace} (h : s.answerTo id = .ok t) :
    s.Legible id ∧ s.held? id = some t := by
  unfold answerTo at h
  cases hr : s.record? id with
  | none => simp [hr] at h
  | some r =>
      cases ht : r.trace with
      | error e => simp [hr, ht] at h
      | ok u =>
          simp only [hr, ht] at h
          split at h
          · cases h
          · cases h
            refine ⟨fun r' hr' => ⟨t, ?_⟩, by simp [held?, hr, ht, Except.toOption]⟩
            cases hr.symm.trans hr'
            exact ht

/-- A look-up in a store that puts ids off, whose documents can be read: the traces that it gives,
the calls that it makes, and the counters that it leaves; and a look-up of a single trace. -/
theorem found_through_deferrals {s : Store} (hsteady : s.failure = none) {ids : List TraceId}
    (hlegible : ∀ id ∈ ids, s.Legible id) (n : Nat) :
    (∃ found s', (Lookup.traces ⟨backend, n⟩ ids).run s = (.ok found, s') ∧ found.Sorted ∧
        (∀ id, found.get? id = if id ∈ ids ∧ s.pending id < n then s.held? id else none) ∧
        Worn s (fun id => if id ∈ ids then n else 0) s' ∧
        s'.requests = s.requests
          ++ (List.range (min n (s.roundsFor ids))).map fun r => s.putOff r ids.eraseDups) ∧
      ∀ id ∈ ids,
        (((Lookup.trace ⟨backend, n⟩ id).run s).1 = .error (.traceNotFound id) ↔
          s.traces.get? id = none ∨ (∃ e, s.traces.get? id = some e ∧ e.documents = []) ∨
            n ≤ s.pending id) ∧
        ∀ t, ((Lookup.trace ⟨backend, n⟩ id).run s).1 = .ok t ↔
          s.held? id = some t ∧ t.segments ≠ [] ∧ s.pending id < n := by
  refine ⟨traces_deferred hsteady hlegible n, fun id hid => ?_⟩
  obtain ⟨hmissing, hfound⟩ := answerTo_legible (hlegible id hid)
  rw [trace_deferred hsteady (hlegible id hid)]
  by_cases hp : s.pending id < n
  · simp only [hp, if_true, hmissing, hfound, Nat.not_le.mpr hp, or_false, and_true, true_and]
    exact fun _ => trivial
  · simp [hp, Nat.le_of_not_lt hp]

namespace Sample

/-- The small store, with its first trace put off twice, a missing one once, and another one longer
than anyone asks. -/
def lateStore : Store := ((store.defer ⟨"1-a"⟩ 2).defer ⟨"1-x"⟩ 1).defer ⟨"1-b"⟩ 9

theorem legible_lateStore : ∀ id ∈ [(⟨"1-a"⟩ : TraceId), ⟨"1-x"⟩, ⟨"1-b"⟩, ⟨"1-a"⟩],
    lateStore.Legible id := by
  have ha : lateStore.Legible ⟨"1-a"⟩ := (legible_of_answerTo answerTo_caller).1
  have hb : lateStore.Legible ⟨"1-b"⟩ := (legible_of_answerTo answerTo_callee).1
  have hx : lateStore.Legible ⟨"1-x"⟩ := fun r hr => by cases hr
  simp only [List.mem_cons, List.not_mem_nil, or_false]
  rintro id (rfl | rfl | rfl | rfl)
  · exact ha
  · exact hx
  · exact hb
  · exact ha

end Sample

/-- Four calls for three traces, one of which is found in the third. -/
theorem found_through_deferrals_sample :
    let ids : List TraceId := [⟨"1-a"⟩, ⟨"1-x"⟩, ⟨"1-b"⟩, ⟨"1-a"⟩]
    Sample.lateStore.failure = none ∧ (∀ id ∈ ids, Sample.lateStore.Legible id) ∧
      (∃ found s', (Lookup.traces ⟨backend, 4⟩ ids).run Sample.lateStore = (.ok found, s') ∧
        found.get? ⟨"1-a"⟩ = some Sample.caller ∧ found.get? ⟨"1-b"⟩ = none ∧
        s'.pending ⟨"1-b"⟩ = 5 ∧
        s'.requests = [[⟨"1-a"⟩, ⟨"1-x"⟩, ⟨"1-b"⟩], [⟨"1-a"⟩, ⟨"1-x"⟩, ⟨"1-b"⟩],
          [⟨"1-a"⟩, ⟨"1-b"⟩], [⟨"1-b"⟩]]) ∧
      ((Lookup.trace ⟨backend, 4⟩ ⟨"1-b"⟩).run Sample.lateStore).1
        = .error (.traceNotFound ⟨"1-b"⟩) := by
  intro ids
  obtain ⟨⟨found, s', hrun, -, hget, hworn, hlog⟩, htrace⟩ :=
    found_through_deferrals (s := Sample.lateStore) rfl Sample.legible_lateStore 4
  have hheld : Sample.lateStore.held? ⟨"1-a"⟩ = some Sample.caller :=
    (legible_of_answerTo Sample.answerTo_caller).2
  refine ⟨rfl, Sample.legible_lateStore, ⟨found, s', hrun, ?_, ?_, ?_, hlog⟩,
    (htrace ⟨"1-b"⟩ (by decide)).1.mpr (.inr (.inr (by decide)))⟩
  · rw [hget, if_pos (by decide), hheld]
  · rw [hget, if_neg (by decide)]
  · rw [hworn.pending]
    rfl

end CausalTrace.Store
