import CausalTrace.Backend.Lookup

/-!
# What a look-up gives

The laws of computations, and what is known of a trace that a look-up has given, or of the failure
that it has ended with, whatever the backend answers.

## Main statements

* `Action.bind_eq_ok`, `Action.bind_eq_error` — a computation followed by another, taken apart
* `Lookup.trace_ok` — a trace that is found has the id asked for, and segments
* `Lookup.trace_error` — the three failures of a look-up

## Design notes

The table that `Lookup.rounds` fills may be any at the start; what is carried through the rounds is
that every trace in it stands under its own id (`Lookup.Keyed`).
-/

namespace CausalTrace

/-! ### Computations -/

namespace Action

variable {σ α β : Type}

theorem bind_apply (x : Action σ α) (f : α → Action σ β) (s : σ) :
    (x >>= f) s = match x s with
      | (.ok a, s') => f a s'
      | (.error e, s') => (.error e, s') := rfl

@[simp] theorem pure_apply (a : α) (s : σ) : (pure a : Action σ α) s = (.ok a, s) := rfl

/-- A computation in two parts succeeds when both do, the second from the state that the first
leaves. -/
theorem bind_eq_ok {x : Action σ α} {f : α → Action σ β} {s s' : σ} {b : β} :
    (x >>= f) s = (.ok b, s') ↔ ∃ a s₁, x s = (.ok a, s₁) ∧ f a s₁ = (.ok b, s') := by
  rw [bind_apply]
  obtain ⟨r, s₁⟩ := x s
  cases r with
  | error e => simp
  | ok a => exact ⟨fun h => ⟨a, s₁, rfl, h⟩, fun ⟨_, _, hx, h⟩ => by cases hx; exact h⟩

/-- It fails when its first part does, or else the second. -/
theorem bind_eq_error {x : Action σ α} {f : α → Action σ β} {s s' : σ} {e : Failure} :
    (x >>= f) s = (.error e, s') ↔
      x s = (.error e, s') ∨ ∃ a s₁, x s = (.ok a, s₁) ∧ f a s₁ = (.error e, s') := by
  rw [bind_apply]
  obtain ⟨r, s₁⟩ := x s
  cases r with
  | error e => simp
  | ok a =>
      refine ⟨fun h => .inr ⟨a, s₁, rfl, h⟩, ?_⟩
      rintro (hx | ⟨_, _, hx, h⟩)
      · cases hx
      · cases hx
        exact h

end Action

/-! ### Look-ups in any backend -/

theorem nodup_eraseDups {α : Type} [DecidableEq α] (items : List α) : items.eraseDups.Nodup := by
  induction hn : items.length using Nat.strongRecOn generalizing items with
  | _ n ih =>
      cases items with
      | nil => simp
      | cons a rest =>
          -- the items that differ from the first one are fewer, but not a tail of the list
          have hshorter : (rest.filter fun b => !b == a).length < n := by
            have := List.length_filter_le (fun b => !b == a) rest
            rw [← hn, List.length_cons]
            omega
          rw [List.eraseDups_cons, List.nodup_cons]
          refine ⟨fun hmem => ?_, ih _ hshorter _ rfl⟩
          have hfilter := (List.mem_filter.mp (List.mem_eraseDups.mp hmem)).2
          simp at hfilter

namespace Table

variable {κ α : Type} [DecidableEq κ]

theorem get?_insert [LT κ] [DecidableLT κ] (t : Table κ α) (k j : κ) (v : α) :
    (t.insert k v).get? j = if k = j then some v else t.get? j := by
  by_cases h : k = j
  · subst h
    rw [get?_insert_self, if_pos rfl]
  · rw [get?_insert_of_ne t v h, if_neg h]

end Table

/-- A record that can be read gives a trace under its own id. -/
theorem TraceRecord.trace_id {r : TraceRecord} {t : Trace} (h : r.trace = .ok t) :
    t.id = ⟨r.id⟩ := by
  unfold TraceRecord.trace at h
  cases hs : r.documents.mapM fun d => d.segment ⟨r.id⟩ with
  | error e =>
      rw [hs] at h
      cases h
  | ok segments =>
      rw [hs] at h
      cases h
      rfl

namespace Lookup

variable {σ : Type}

/-- Every trace of a table stands under its own id. -/
def Keyed (found : Table TraceId Trace) : Prop :=
  ∀ id t, found.get? id = some t → t.id = id

/-- Reading records keeps traces under their own ids. -/
theorem keyed_absorb {records : List TraceRecord} :
    ∀ {found found' : Table TraceId Trace}, Keyed found →
      absorb found records = .ok found' → Keyed found' := by
  induction records with
  | nil =>
      intro found found' hk h
      cases h
      exact hk
  | cons r rest ih =>
      intro found found' hk h
      rw [absorb] at h
      split at h
      · exact ih hk h
      · cases hr : r.trace with
        | error e =>
            rw [hr] at h
            cases h
        | ok t =>
            rw [hr] at h
            refine ih ?_ h
            intro id u hu
            rw [Table.get?_insert] at hu
            split at hu
            · next hid =>
                cases hu
                rw [TraceRecord.trace_id hr, hid]
            · exact hk id u hu

/-- A failure that reading records ends with is one of a document. -/
theorem absorb_error {records : List TraceRecord} :
    ∀ {found : Table TraceId Trace} {e : Failure}, absorb found records = .error e →
      ∃ id cause, e = .unreadable id cause := by
  induction records with
  | nil =>
      intro found e h
      cases h
  | cons r rest ih =>
      intro found e h
      rw [absorb] at h
      split at h
      · exact ih h
      · cases hr : r.trace with
        | error cause =>
            rw [hr] at h
            cases h
            exact ⟨_, _, rfl⟩
        | ok t =>
            rw [hr] at h
            exact ih h

/-- One round: a call, and the records of its answer read. -/
theorem rounds_cons (backend : Backend σ) (n : Nat) (id : TraceId) (rest : List TraceId)
    (found : Table TraceId Trace) (s : σ) :
    rounds backend (n + 1) (id :: rest) found s =
      match backend.batch (id :: rest) s with
      | (.error e, s') => (.error (.backend e), s')
      | (.ok b, s') =>
        match absorb found b.records with
        | .error e => (.error e, s')
        | .ok found' =>
          rounds backend n (b.unprocessed.filter fun id => !found'.contains id) found' s' := rfl

/-- So do all rounds of a look-up. -/
theorem keyed_rounds (backend : Backend σ) :
    ∀ (n : Nat) {pending : List TraceId} {found found' : Table TraceId Trace} {s s' : σ},
      Keyed found → rounds backend n pending found s = (.ok found', s') → Keyed found' := by
  intro n
  induction n with
  | zero =>
      intro pending found found' s s' hk h
      cases h
      exact hk
  | succ n ih =>
      intro pending found found' s s' hk h
      cases pending with
      | nil =>
          cases h
          exact hk
      | cons id rest =>
          rw [rounds_cons] at h
          rcases hcall : backend.batch (id :: rest) s with ⟨answer, s₁⟩
          rw [hcall] at h
          cases answer with
          | error e => cases h
          | ok b =>
              cases hb : absorb found b.records with
              | error e => simp [hb] at h
              | ok found₁ =>
                  simp only [hb] at h
                  exact ih (keyed_absorb hk hb) h

/-- A failure of the rounds is one of the backend or of a document. -/
theorem rounds_error (backend : Backend σ) :
    ∀ (n : Nat) {pending : List TraceId} {found : Table TraceId Trace} {e : Failure} {s s' : σ},
      rounds backend n pending found s = (.error e, s') →
        (∃ cause, e = .backend cause) ∨ ∃ id cause, e = .unreadable id cause := by
  intro n
  induction n with
  | zero =>
      intro pending found e s s' h
      cases h
  | succ n ih =>
      intro pending found e s s' h
      cases pending with
      | nil => cases h
      | cons id rest =>
          rw [rounds_cons] at h
          rcases hcall : backend.batch (id :: rest) s with ⟨answer, s₁⟩
          rw [hcall] at h
          cases answer with
          | error cause =>
              cases h
              exact .inl ⟨_, rfl⟩
          | ok b =>
              cases hb : absorb found b.records with
              | error e' =>
                  simp only [hb, Prod.mk.injEq, Except.error.injEq] at h
                  obtain ⟨rfl, -⟩ := h
                  exact .inr (absorb_error hb)
              | ok found₁ =>
                  simp only [hb] at h
                  exact ih h

/-- A trace that a look-up gives has the id asked for, and segments. -/
theorem trace_ok {l : Lookup σ} {id : TraceId} {t : Trace} {s s' : σ}
    (h : l.trace id s = (.ok t, s')) : t.id = id ∧ t.segments ≠ [] := by
  rw [trace, Action.bind_eq_ok] at h
  obtain ⟨found, s₁, hf, h⟩ := h
  have hk : Keyed found := keyed_rounds l.backend l.maxRounds (by intro id t ht; cases ht) hf
  cases hg : found.get? id with
  | none =>
      simp only [hg] at h
      cases h
  | some u =>
      simp only [hg] at h
      split at h
      · cases h
      · next hne =>
          cases h
          exact ⟨hk id t hg, by simpa using hne⟩

/-- A look-up fails because the backend does, because a document cannot be read, or because the
trace asked for is not there. -/
theorem trace_error {l : Lookup σ} {id : TraceId} {e : Failure} {s s' : σ}
    (h : l.trace id s = (.error e, s')) :
    e = .traceNotFound id ∨ (∃ cause, e = .backend cause) ∨ ∃ i cause, e = .unreadable i cause := by
  rw [trace, Action.bind_eq_error] at h
  rcases h with h | ⟨found, s₁, -, h⟩
  · exact .inr (rounds_error l.backend l.maxRounds h)
  · left
    cases hg : found.get? id with
    | none =>
        simp only [hg] at h
        cases h
        rfl
    | some t =>
        simp only [hg] at h
        split at h
        · cases h
          rfl
        · cases h

end Lookup

end CausalTrace
