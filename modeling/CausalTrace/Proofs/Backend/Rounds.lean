import CausalTrace.Proofs.Backend.Coupling
import CausalTrace.Proofs.Table

/-!
# The calls of a look-up

A look-up asks again for what the backend puts off.  Nothing is assumed of the backend: it may
answer with traces that nobody asked for, with several records of one trace, or put off what it
serves in the same answer, and it may answer differently every time.  Whatever it does, the calls
that are made and the result that they lead to are determined by its answers alone.

## Main definitions

* `Call`, `Backend.Answers` — calls made one after the other, with their answers
* `Lookup.firstOf` — the record of a trace that counts
* `Lookup.due` — the ids that are to be asked for next
* `Lookup.Over` — when no further call is made
* `Lookup.Gives` — the result of calls
* `Lookup.Course` — the calls of a look-up, from the first on or after others

## Main statements

* `Lookup.absorb_reflects` — reading the records of one answer
* `Lookup.rounds_course` — the rounds that are left
* `Lookup.course_of_traces` — every look-up, in whatever backend

## Design notes

The table of traces found is no part of a course.  It is what the first records of all answers say
(`Reflects`), which is the invariant of the rounds; what is found, what is due and what fails can
then be said of the answers without it.
-/

namespace CausalTrace

/-! ### Calls -/

/-- A call to a backend, and its answer. -/
structure Call where
  asked : List TraceId
  answer : Except BackendError Batch

namespace Call

/-- The records that a call hands out. -/
def records (c : Call) : List TraceRecord := c.answer.toOption.elim [] Batch.records

/-- The ids that a call puts off. -/
def unprocessed (c : Call) : List TraceId := c.answer.toOption.elim [] Batch.unprocessed

end Call

/-- Calls made one after the other, from one state of the backend to another. -/
inductive Backend.Answers {σ : Type} (b : Backend σ) : σ → List Call → σ → Prop
  | nil (s : σ) : Answers b s [] s
  | cons {s s₁ s' : σ} {ids : List TraceId} {answer : Except BackendError Batch}
      {rest : List Call} :
      b.batch ids s = (answer, s₁) → Answers b s₁ rest s' → Answers b s (⟨ids, answer⟩ :: rest) s'

namespace Lookup

/-! ### What calls lead to -/

/-- The records that calls hand out, in order. -/
def served (calls : List Call) : List TraceRecord := calls.flatMap Call.records

/-- The first record of a trace. -/
def firstOf (records : List TraceRecord) (id : TraceId) : Option TraceRecord :=
  records.find? fun r => r.id = id.text

/-- Every first record can be read; the others need not. -/
def Legible (records : List TraceRecord) : Prop :=
  ∀ id r, firstOf records id = some r → ∃ t, r.trace = .ok t

/-- The ids that are to be asked for: before any call those that are looked up, without repeats, and
then those that the last call puts off, unless a call has served them. -/
def due (ids : List TraceId) (calls : List Call) : List TraceId :=
  match calls.getLast? with
  | none => ids.eraseDups
  | some c => c.unprocessed.filter fun id => (firstOf (served calls) id).isNone

/-- A call has failed, or a first record cannot be read. -/
def Spoiled (calls : List Call) : Prop :=
  (∃ c ∈ calls, ∃ e, c.answer = .error e) ∨ ¬ Legible (served calls)

/-- No further call is made: there is nothing to ask for, as many calls as may be have been made, or
something has gone wrong. -/
def Over (n : Nat) (ids : List TraceId) (calls : List Call) : Prop :=
  due ids calls = [] ∨ calls.length = n ∨ Spoiled calls

/-- The result of calls. -/
inductive Gives (calls : List Call) : Except Failure (Table TraceId Trace) → Prop
  | backend {before : List Call} {asked : List TraceId} {e : BackendError}
      (hcalls : calls = before ++ [⟨asked, .error e⟩]) : Gives calls (.error (.backend e))
  /-- A record of a trace of which there was none before cannot be read, and all others before it
  could, as far as they count. -/
  | unreadable {before after : List TraceRecord} {r : TraceRecord} {e : DocumentError}
      (hserved : served calls = before ++ r :: after) (hbefore : Legible before)
      (hnew : ∀ q ∈ before, q.id ≠ r.id) (htrace : r.trace = .error e) :
      Gives calls (.error (.unreadable ⟨r.id⟩ e))
  /-- Every trace that was served is found, asked for or not, and is what its first record says. -/
  | found {found : Table TraceId Trace} (hfine : ¬ Spoiled calls) (hsorted : found.Sorted)
      (hkeyed : Keyed found)
      (hget : ∀ id, found.get? id = (firstOf (served calls) id).bind fun r => r.trace.toOption) :
      Gives calls (.ok found)

/-- The calls of a look-up that come after others, and the result of all. -/
structure Course (n : Nat) (ids : List TraceId) (before calls : List Call)
    (r : Except Failure (Table TraceId Trace)) : Prop where
  bounded : (before ++ calls).length ≤ n
  asks : ∀ k c, calls[k]? = some c → c.asked = due ids (before ++ calls.take k)
  /-- As long as calls are made, none of the reasons to stop is there. -/
  goesOn : ∀ k < calls.length, ¬ Over n ids (before ++ calls.take k)
  ends : Over n ids (before ++ calls)
  gives : Gives (before ++ calls) r

/-! ### Records that count -/

section

variable {records : List TraceRecord} {r : TraceRecord} {id : TraceId}

/-- The first record is among those handed out first, if there is one. -/
theorem firstOf_append (records records' : List TraceRecord) (id : TraceId) :
    firstOf (records ++ records') id = (firstOf records id).or (firstOf records' id) :=
  List.find?_append

theorem firstOf_eq_none : firstOf records id = none ↔ ∀ r ∈ records, r.id ≠ id.text := by
  simp [firstOf]

theorem id_of_firstOf (h : firstOf records id = some r) : (⟨r.id⟩ : TraceId) = id := by
  have hid : r.id = id.text := by simpa using List.find?_some h
  rw [hid]

theorem firstOf_singleton (r : TraceRecord) (id : TraceId) :
    firstOf [r] id = if (⟨r.id⟩ : TraceId) = id then some r else none := by
  obtain ⟨text⟩ := id
  simp [firstOf, List.find?_singleton]

/-- A further record of a trace does not count. -/
theorem firstOf_concat_known (h : firstOf records ⟨r.id⟩ ≠ none) (id : TraceId) :
    firstOf (records ++ [r]) id = firstOf records id := by
  rw [firstOf_append, firstOf_singleton]
  split_ifs with hid
  · obtain ⟨q, hq⟩ := Option.ne_none_iff_exists'.mp h
    rw [← hid, hq, Option.some_or]
  · rw [Option.or_none]

/-- A record of a trace of which there was none counts. -/
theorem firstOf_concat_new (h : firstOf records ⟨r.id⟩ = none) (id : TraceId) :
    firstOf (records ++ [r]) id
      = if (⟨r.id⟩ : TraceId) = id then some r else firstOf records id := by
  rw [firstOf_append, firstOf_singleton]
  split_ifs with hid
  · rw [← hid, h, Option.none_or]
  · rw [Option.or_none]

end

/-- A record of a trace of which there was none before must be read. -/
theorem not_legible {before after : List TraceRecord} {r : TraceRecord} {e : DocumentError}
    (hnew : ∀ q ∈ before, q.id ≠ r.id) (htrace : r.trace = .error e) :
    ¬ Legible (before ++ r :: after) := by
  intro h
  have hfirst : firstOf (before ++ r :: after) ⟨r.id⟩ = some r := by
    rw [firstOf_append, firstOf_eq_none.mpr hnew, Option.none_or]
    simp [firstOf]
  obtain ⟨t, ht⟩ := h _ r hfirst
  cases ht.symm.trans htrace

/-- A table holds what the first records of traces say. -/
structure Reflects (records : List TraceRecord) (found : Table TraceId Trace) : Prop where
  legible : Legible records
  sorted : found.Sorted
  get? : ∀ id, found.get? id = (firstOf records id).bind fun r => r.trace.toOption

namespace Reflects

variable {records : List TraceRecord} {found : Table TraceId Trace} {r : TraceRecord}

theorem nil : Reflects [] [] where
  legible _ _ h := by cases h
  sorted := .nil
  get? _ := rfl

theorem contains_iff (h : Reflects records found) {id : TraceId} :
    found.contains id = true ↔ firstOf records id ≠ none := by
  unfold Table.contains
  rw [h.get?]
  cases hfirst : firstOf records id with
  | none => simp
  | some r =>
      obtain ⟨t, ht⟩ := h.legible id r hfirst
      simp [ht, Except.toOption]

theorem keyed (h : Reflects records found) : Keyed found := by
  intro id t ht
  rw [h.get?] at ht
  obtain ⟨r, hfirst, htrace⟩ := Option.bind_eq_some_iff.mp ht
  obtain ⟨u, hu⟩ := h.legible id r hfirst
  rw [hu] at htrace
  cases htrace
  rw [TraceRecord.trace_id hu, id_of_firstOf hfirst]

/-- A further record of a trace that is known changes nothing. -/
theorem known (h : Reflects records found) (hr : firstOf records ⟨r.id⟩ ≠ none) :
    Reflects (records ++ [r]) found := by
  refine ⟨fun id q hq => ?_, h.sorted, fun id => ?_⟩
  · rw [firstOf_concat_known hr] at hq
    exact h.legible id q hq
  · rw [firstOf_concat_known hr, h.get?]

/-- The first record of a trace is read into the table. -/
theorem new (h : Reflects records found) (hr : firstOf records ⟨r.id⟩ = none) {t : Trace}
    (ht : r.trace = .ok t) : Reflects (records ++ [r]) (found.insert ⟨r.id⟩ t) := by
  refine ⟨fun id q hq => ?_, h.sorted.insert _ _, fun id => ?_⟩
  · rw [firstOf_concat_new hr] at hq
    split_ifs at hq with hid
    · cases hq
      exact ⟨t, ht⟩
    · exact h.legible id q hq
  · rw [Table.get?_insert, firstOf_concat_new hr]
    split_ifs with hid
    · simp [ht, Except.toOption]
    · exact h.get? id

end Reflects

/-- The records of an answer are read one after the other, up to the first that counts and cannot be
read. -/
theorem absorb_reflects (records : List TraceRecord) :
    ∀ {seen : List TraceRecord} {found : Table TraceId Trace}, Reflects seen found →
      (∃ found', absorb found records = .ok found' ∧ Reflects (seen ++ records) found') ∨
      ∃ before r after e, records = before ++ r :: after ∧ Legible (seen ++ before) ∧
        (∀ q ∈ seen ++ before, q.id ≠ r.id) ∧ r.trace = .error e ∧
        absorb found records = .error (.unreadable ⟨r.id⟩ e) := by
  induction records with
  | nil =>
      intro seen found h
      exact .inl ⟨found, rfl, by rwa [List.append_nil]⟩
  | cons r rest ih =>
      intro seen found h
      -- the rest is read after this record, however it was treated
      have hrest : ∀ {found₁}, Reflects (seen ++ [r]) found₁ →
          absorb found (r :: rest) = absorb found₁ rest →
          (∃ found', absorb found (r :: rest) = .ok found' ∧
              Reflects (seen ++ r :: rest) found') ∨
            ∃ before q after e, r :: rest = before ++ q :: after ∧ Legible (seen ++ before) ∧
              (∀ p ∈ seen ++ before, p.id ≠ q.id) ∧ q.trace = .error e ∧
              absorb found (r :: rest) = .error (.unreadable ⟨q.id⟩ e) := by
        intro found₁ h₁ heq
        rw [heq]
        rcases ih h₁ with ⟨found', hfound', h'⟩ | ⟨before, q, after, e, rfl, hlegible, hnew, hq, he⟩
        · exact .inl ⟨found', hfound', by rwa [List.append_assoc] at h'⟩
        · rw [List.append_assoc] at hlegible hnew
          exact .inr ⟨r :: before, q, after, e, rfl, hlegible, hnew, hq, he⟩
      by_cases hr : firstOf seen ⟨r.id⟩ = none
      · have hcontains : found.contains ⟨r.id⟩ = false :=
          Bool.eq_false_iff.mpr fun hc => h.contains_iff.mp hc hr
        cases ht : r.trace with
        | error e =>
            refine .inr ⟨[], r, rest, e, rfl, ?_, ?_, ht, ?_⟩
            · rw [List.append_nil]
              exact h.legible
            · rw [List.append_nil]
              exact firstOf_eq_none.mp hr
            · simp [absorb, hcontains, ht]
        | ok t => exact hrest (h.new hr ht) (by simp [absorb, hcontains, ht])
      · have hcontains : found.contains ⟨r.id⟩ = true := h.contains_iff.mpr hr
        exact hrest (h.known hr) (by simp [absorb, hcontains])

/-! ### Courses -/

section

variable {n : Nat} {ids : List TraceId} {before calls : List Call} {c : Call}
  {r : Except Failure (Table TraceId Trace)}

/-- No call is made any more. -/
theorem Course.last (hlength : before.length ≤ n) (hover : Over n ids before)
    (hgives : Gives before r) : Course n ids before [] r where
  bounded := by rwa [List.append_nil]
  asks k c h := by simp at h
  goesOn k hk := by simp at hk
  ends := by rwa [List.append_nil]
  gives := by rwa [List.append_nil]

/-- A call is made, and then others. -/
theorem Course.cons (hgoesOn : ¬ Over n ids before) (hasked : c.asked = due ids before)
    (h : Course n ids (before ++ [c]) calls r) : Course n ids before (c :: calls) r where
  bounded := by simpa using h.bounded
  asks k c' hk := by
    cases k with
    | zero =>
        cases hk
        rw [List.take_zero, List.append_nil, hasked]
    | succ k =>
        rw [List.take_succ_cons, ← List.singleton_append, ← List.append_assoc]
        exact h.asks k c' hk
  goesOn k hk := by
    cases k with
    | zero => rwa [List.take_zero, List.append_nil]
    | succ k =>
        rw [List.take_succ_cons, ← List.singleton_append, ← List.append_assoc]
        exact h.goesOn k (Nat.lt_of_succ_lt_succ hk)
  ends := by simpa using h.ends
  gives := by simpa using h.gives

/-- After a call those ids are due that it puts off and that no call has served. -/
theorem due_concat (ids : List TraceId) (before : List Call) (c : Call) :
    due ids (before ++ [c])
      = c.unprocessed.filter fun id => (firstOf (served (before ++ [c])) id).isNone := by
  unfold due
  rw [List.getLast?_concat]

/-- A trace that a call has served is not asked for again. -/
theorem firstOf_of_mem_due {id : TraceId} (h : id ∈ due ids calls) :
    firstOf (served calls) id = none := by
  unfold due at h
  split at h
  next hlast =>
    rw [List.getLast?_eq_none_iff.mp hlast]
    rfl
  next => simpa using (List.mem_filter.mp h).2

end

/-- Calls that were all answered, with records that could be read, are not spoiled. -/
theorem Reflects.not_spoiled {calls : List Call} {found : Table TraceId Trace}
    (h : Reflects (served calls) found) (hanswered : ∀ c ∈ calls, ∃ b, c.answer = .ok b) :
    ¬ Spoiled calls := by
  rintro (⟨c, hc, e, he⟩ | hillegible)
  · obtain ⟨b, hb⟩ := hanswered c hc
    cases hb.symm.trans he
  · exact hillegible h.legible

variable {σ : Type}

/-- A recorded call is logged with the ids that it asks for. -/
theorem recorded_batch {backend : Backend σ} {asked : List TraceId} {s s' : σ}
    {answer : Except BackendError Batch} (h : backend.batch asked s = (answer, s'))
    (log : List (List TraceId)) :
    backend.recorded.batch asked (s, log) = (answer, (s', log ++ [asked])) := by
  unfold Backend.recorded
  simp only [h]

/-- A round with something to ask for. -/
theorem rounds_succ (backend : Backend σ) (m : Nat) {pending : List TraceId} (hne : pending ≠ [])
    (found : Table TraceId Trace) (s : σ) :
    rounds backend (m + 1) pending found s = match backend.batch pending s with
      | (.error e, s') => (.error (.backend e), s')
      | (.ok b, s') =>
        match absorb found b.records with
        | .error e => (.error e, s')
        | .ok found' =>
          rounds backend m (b.unprocessed.filter fun id => !found'.contains id) found' s' := by
  obtain ⟨first, others, rfl⟩ := List.exists_cons_of_ne_nil hne
  exact rounds_cons backend m first others found s

/-- The rounds that are left after some calls make the calls of a course, no other ones, and give
its result. -/
def Proceeds (backend : Backend σ) (n m : Nat) (ids : List TraceId) (before : List Call)
    (found : Table TraceId Trace) (s : σ) : Prop :=
  ∃ calls r s', rounds backend m (due ids before) found s = (r, s') ∧
    backend.Answers s calls s' ∧
    (∀ log, rounds backend.recorded m (due ids before) found (s, log)
      = (r, (s', log ++ calls.map Call.asked))) ∧
    Course n ids before calls r

section

variable {backend : Backend σ} {n m : Nat} {ids : List TraceId} {before : List Call}
  {found : Table TraceId Trace} {s s₁ : σ}

theorem served_concat (before : List Call) (asked : List TraceId) (b : Batch) :
    served (before ++ [⟨asked, .ok b⟩]) = served before ++ b.records := by
  simp [served, Call.records, Except.toOption]

/-- There is nothing left to do. -/
theorem Proceeds.ended (hlength : before.length ≤ n) (hover : Over n ids before)
    (hrun : ∀ {τ : Type} (b : Backend τ) s, rounds b m (due ids before) found s = (.ok found, s))
    (hfound : Reflects (served before) found) (hfine : ¬ Spoiled before) :
    Proceeds backend n m ids before found s := by
  refine ⟨[], .ok found, s, hrun _ _, .nil s, fun log => ?_, ?_⟩
  · rw [hrun, List.map_nil, List.append_nil]
  · exact .last hlength hover (.found hfine hfound.sorted hfound.keyed hfound.get?)

/-- The next call fails. -/
theorem Proceeds.failed {e : BackendError} (hlength : before.length < n)
    (hgoesOn : ¬ Over n ids before)
    (hcall : backend.batch (due ids before) s = (.error e, s₁)) :
    Proceeds backend n (m + 1) ids before found s := by
  have hne : due ids before ≠ [] := fun h => hgoesOn (.inl h)
  refine ⟨[⟨due ids before, .error e⟩], .error (.backend e), s₁, ?_, .cons hcall (.nil s₁),
    fun log => ?_, .cons hgoesOn rfl (.last ?_ (.inr (.inr (.inl ?_))) (.backend rfl))⟩
  · rw [rounds_succ _ _ hne, hcall]
  · rw [rounds_succ _ _ hne, recorded_batch hcall]
    rfl
  · simpa [Nat.succ_le_iff] using hlength
  · exact ⟨_, List.mem_concat_self, e, rfl⟩

/-- The next call hands out a record that cannot be read. -/
theorem Proceeds.unreadable {b : Batch} (hlength : before.length < n)
    (hgoesOn : ¬ Over n ids before) (hcall : backend.batch (due ids before) s = (.ok b, s₁))
    {front back : List TraceRecord} {r : TraceRecord} {e : DocumentError}
    (hrecords : b.records = front ++ r :: back) (hlegible : Legible (served before ++ front))
    (hnew : ∀ q ∈ served before ++ front, q.id ≠ r.id) (htrace : r.trace = .error e)
    (habsorb : absorb found b.records = .error (.unreadable ⟨r.id⟩ e)) :
    Proceeds backend n (m + 1) ids before found s := by
  have hne : due ids before ≠ [] := fun h => hgoesOn (.inl h)
  have hserved : served (before ++ [⟨due ids before, .ok b⟩])
      = (served before ++ front) ++ r :: back := by
    rw [served_concat, hrecords, List.append_assoc]
  have hspoiled : ¬ Legible (served (before ++ [⟨due ids before, .ok b⟩])) :=
    hserved ▸ not_legible hnew htrace
  refine ⟨[⟨due ids before, .ok b⟩], .error (.unreadable ⟨r.id⟩ e), s₁, ?_,
    .cons hcall (.nil s₁), fun log => ?_,
    .cons hgoesOn rfl (.last ?_ (.inr (.inr (.inr hspoiled)))
      (.unreadable hserved hlegible hnew htrace))⟩
  · rw [rounds_succ _ _ hne, hcall]
    simp only [habsorb]
  · rw [rounds_succ _ _ hne, recorded_batch hcall]
    simp only [habsorb]
    rfl
  · simpa [Nat.succ_le_iff] using hlength

/-- The next call is answered, and the other rounds follow. -/
theorem Proceeds.answered {b : Batch} {found' : Table TraceId Trace} (hgoesOn : ¬ Over n ids before)
    (hcall : backend.batch (due ids before) s = (.ok b, s₁))
    (habsorb : absorb found b.records = .ok found')
    (hfound' : Reflects (served (before ++ [⟨due ids before, .ok b⟩])) found')
    (h : Proceeds backend n m ids (before ++ [⟨due ids before, .ok b⟩]) found' s₁) :
    Proceeds backend n (m + 1) ids before found s := by
  have hne : due ids before ≠ [] := fun h => hgoesOn (.inl h)
  -- what is asked for next is what is due after this call
  have hdue : (b.unprocessed.filter fun id => !found'.contains id)
      = due ids (before ++ [⟨due ids before, .ok b⟩]) := by
    rw [due_concat]
    refine List.filter_congr fun id _ => ?_
    rw [Bool.eq_iff_iff, Bool.not_eq_true', Bool.eq_false_iff, ne_eq, hfound'.contains_iff,
      not_not, Option.isNone_iff_eq_none]
  obtain ⟨calls, r, s', hrun, hanswers, hrecord, hcourse⟩ := h
  rw [← hdue] at hrun hrecord
  refine ⟨⟨due ids before, .ok b⟩ :: calls, r, s', ?_, .cons hcall hanswers, fun log => ?_,
    .cons hgoesOn rfl hcourse⟩
  · rw [rounds_succ _ _ hne, hcall]
    simp only [habsorb, hrun]
  · rw [rounds_succ _ _ hne, recorded_batch hcall]
    simp only [habsorb, hrecord]
    simp

end

/-- The rounds that are left after calls that were all answered. -/
theorem rounds_course (backend : Backend σ) (ids : List TraceId) :
    ∀ (m : Nat) {before : List Call} {found : Table TraceId Trace} (s : σ),
      Reflects (served before) found → (∀ c ∈ before, ∃ b, c.answer = .ok b) →
      Proceeds backend (before.length + m) m ids before found s := by
  intro m
  induction m with
  | zero =>
      intro before found s hfound hanswered
      exact .ended le_rfl (.inr (.inl rfl)) (fun _ _ => rfl) hfound (hfound.not_spoiled hanswered)
  | succ m ih =>
      intro before found s hfound hanswered
      have hfine := hfound.not_spoiled hanswered
      have hlength : before.length < before.length + (m + 1) := by omega
      by_cases hdue : due ids before = []
      · exact .ended hlength.le (.inl hdue) (fun _ _ => by rw [hdue]; rfl) hfound hfine
      -- none of the three reasons to stop holds
      · have hgoesOn : ¬ Over (before.length + (m + 1)) ids before := by
          rintro (hnil | hall | hspoiled)
          · exact hdue hnil
          · exact hlength.ne hall
          · exact hfine hspoiled
        rcases hcall : backend.batch (due ids before) s with ⟨e | b, s₁⟩
        · exact .failed hlength hgoesOn hcall
        · rcases absorb_reflects b.records hfound with
            ⟨found', habsorb, hfound'⟩ | ⟨front, r, back, e, hrecords, hlegible, hnew, htrace, he⟩
          · rw [← served_concat before (due ids before)] at hfound'
            have hrest := ih s₁ hfound' fun c hc => by
              rcases List.mem_append.mp hc with hc | hc
              · exact hanswered c hc
              · exact ⟨b, by rw [List.mem_singleton.mp hc]⟩
            rw [List.length_append, List.length_singleton, Nat.add_assoc, Nat.add_comm 1] at hrest
            exact .answered hgoesOn hcall habsorb hfound' hrest
          · exact .unreadable hlength hgoesOn hcall hrecords hlegible hnew htrace he

/-- A look-up makes all its rounds, with nothing found before. -/
theorem traces_proceeds (l : Lookup σ) (ids : List TraceId) (s : σ) :
    Proceeds l.backend l.maxRounds l.maxRounds ids [] [] s := by
  have hrounds : Proceeds l.backend (0 + l.maxRounds) l.maxRounds ids [] [] s :=
    rounds_course l.backend ids l.maxRounds s Reflects.nil fun _ h => absurd h List.not_mem_nil
  rwa [Nat.zero_add] at hrounds

/-- The trace with an id among those that were found, if it has segments. -/
def pick (id : TraceId) (found : Table TraceId Trace) : Except Failure Trace :=
  match (found.get? id).filter fun t => !t.segments.isEmpty with
  | some t => .ok t
  | none => .error (.traceNotFound id)

/-- A single trace is picked from a look-up of its id alone. -/
theorem trace_eq_pick (l : Lookup σ) (id : TraceId) (s : σ) :
    l.trace id s = ((l.traces [id] s).1.bind (pick id), (l.traces [id] s).2) := by
  unfold trace pick
  rw [Action.bind_apply]
  rcases l.traces [id] s with ⟨e | found, s'⟩
  · rfl
  · cases hget : found.get? id with
    | none => simp [hget, Except.bind, Action.fail]
    | some t =>
        by_cases ht : t.segments = []
        · simp [hget, ht, Option.filter, Except.bind, Action.fail]
        · simp [hget, ht, Option.filter, Except.bind]

/-- A look-up in any backend: the calls that it makes, and what comes of them. -/
theorem course_of_traces (l : Lookup σ) (ids : List TraceId) (s : σ) :
    ∃ calls r s', l.traces ids s = (r, s') ∧ l.backend.Answers s calls s' ∧
      (∀ log, l.recorded.traces ids (s, log) = (r, (s', log ++ calls.map Call.asked))) ∧
      Course l.maxRounds ids [] calls r ∧
      (∀ k c, calls[k]? = some c →
        ∀ id ∈ c.asked, firstOf (served (calls.take k)) id = none) ∧
      ∀ id, ids = [id] → l.trace id s = (r.bind (pick id), s') := by
  obtain ⟨calls, r, s', hrun, hanswers, hrecord, hcourse⟩ := l.traces_proceeds ids s
  refine ⟨calls, r, s', hrun, hanswers, hrecord, hcourse, fun k c hk id hid => ?_, ?_⟩
  · rw [hcourse.asks k c hk] at hid
    exact firstOf_of_mem_due hid
  · rintro id rfl
    have htraces : l.traces [id] s = (r, s') := hrun
    rw [trace_eq_pick, htraces]

namespace Sample

/-- A backend that hands out what nobody asked for, and a second record of a trace, which cannot be
read; and that puts off what it has just served, and what nobody asked for. -/
def contrary : Backend Nat where
  batch _ n := (.ok ⟨[⟨"1-x", none, none, []⟩, ⟨"1-a", none, none, []⟩,
    ⟨"1-a", none, none, [⟨"a", "?"⟩]⟩], [⟨"1-b"⟩, ⟨"1-a"⟩, ⟨"1-c"⟩]⟩, n + 1)

end Sample

example : (Lookup.recorded ⟨Sample.contrary, 3⟩).traces [⟨"1-a"⟩, ⟨"1-b"⟩, ⟨"1-a"⟩] (0, [])
    = (.ok [(⟨"1-a"⟩, ⟨⟨"1-a"⟩, none, false, []⟩), (⟨"1-x"⟩, ⟨⟨"1-x"⟩, none, false, []⟩)],
      (3, [[⟨"1-a"⟩, ⟨"1-b"⟩], [⟨"1-b"⟩, ⟨"1-c"⟩], [⟨"1-b"⟩, ⟨"1-c"⟩]])) := rfl

end Lookup

end CausalTrace
