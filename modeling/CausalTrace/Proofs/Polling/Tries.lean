import CausalTrace.Polling.Run

/-!
# The attempts of a run

How polling ends is decided by its last attempt.  The states in which attempts are made are noted
next to the state, and a run is described by them: all attempts but the last are in vain, and the
last one is accepted, or fails for good, or is in vain as well.

The value that is accepted need not be handed on by the loop: a check that keeps what it accepts
knows it in the end.

## Main definitions

* `Clock.noted`, `Job.noted` — a note of the states in which attempts are made
* `Job.keeping` — a note of the value that is accepted
* `Job.InVain` — an attempt that is to be followed by another
* `Polling.tried` — the states in which a run makes its attempts
* `Polling.Concluded` — how polling ends after its attempts

## Main statements

* `Polling.round_noted` — a round concludes the run, or makes one attempt in vain
* `Polling.run_concluded` — every run is concluded by its attempts
* `Polling.run_of_accepted`, `Polling.run_of_failed` — runs of one attempt
* `Polling.run_of_retried` — a run whose first attempt fails for a time
* `Polling.run_keeping` — the value that is kept is the value that polling ends with
-/

namespace CausalTrace

variable {σ ε α : Type}

/-! ### Notes -/

/-- A clock beside notes, which it leaves as they are. -/
def Clock.noted {ν : Type} (clock : Clock σ) : Clock (σ × ν) where
  now s :=
    let (now, state) := clock.now s.1
    (now, (state, s.2))
  sleep span s := (clock.sleep span s.1, s.2)

/-- A job that notes the states in which it is tried. -/
def Job.noted (job : Job σ ε α) : Job (σ × List σ) ε α where
  produce s :=
    let (result, state) := job.produce s.1
    (result, (state, s.2 ++ [s.1]))
  isTransient := job.isTransient
  message := job.message
  check x s :=
    let (against, state) := job.check x s.1
    (against, (state, s.2))

@[simp] theorem Job.noted_produce (job : Job σ ε α) (s : σ) (notes : List σ) :
    job.noted.produce (s, notes)
      = ((job.produce s).1, ((job.produce s).2, notes ++ [s])) := rfl

@[simp] theorem Job.noted_check (job : Job σ ε α) (x : α) (s : σ) (notes : List σ) :
    job.noted.check x (s, notes) = ((job.check x s).1, ((job.check x s).2, notes)) := rfl

@[simp] theorem Job.noted_isTransient (job : Job σ ε α) :
    job.noted.isTransient = job.isTransient := rfl

@[simp] theorem Job.noted_message (job : Job σ ε α) : job.noted.message = job.message := rfl

/-- A report with notes in the state. -/
def Report.noted (r : Report σ ε α) (notes : List σ) : Report (σ × List σ) ε α :=
  ⟨r.outcome, r.events, (r.state, notes)⟩

/-- An attempt in a state comes to nothing, and another is to be made. -/
inductive Job.InVain (job : Job σ ε α) (s : σ) : Prop
  | transient (e : ε) (s₁ : σ) : job.produce s = (.error e, s₁) → job.isTransient e = true →
      InVain job s
  | rejected (x : α) (reason : String) (s₁ s₂ : σ) : job.produce s = (.ok x, s₁) →
      job.check x s₁ = (some reason, s₂) → InVain job s

namespace Polling

/-- The states in which a run makes its attempts, in order. -/
def tried (clock : Clock σ) (policy : Policy) (job : Job σ ε α) (s : σ) : List σ :=
  (run clock.noted policy job.noted (s, [])).state.2

/-- How polling ends after attempts in some states, and in which state. -/
inductive Concluded (job : Job σ ε α) (deadline : Option Nat) :
    List σ → Outcome ε α → σ → Prop
  /-- The value of the last attempt is accepted. -/
  | accepted {front : List σ} {s s₁ s₂ : σ} {x : α} : (∀ u ∈ front, job.InVain u) →
      job.produce s = (.ok x, s₁) → job.check x s₁ = (none, s₂) →
      Concluded job deadline (front ++ [s]) (.accepted x) s₂
  /-- The last attempt fails for good. -/
  | failed {front : List σ} {s s₁ : σ} {e : ε} : (∀ u ∈ front, job.InVain u) →
      job.produce s = (.error e, s₁) → job.isTransient e = false →
      Concluded job deadline (front ++ [s]) (.failed e) s₁
  /-- The deadline has come. -/
  | timedOut {states : List σ} {s : σ} : deadline ≠ none → states ≠ [] →
      (∀ u ∈ states, job.InVain u) → Concluded job deadline states .timedOut s
  /-- As many attempts have been made as can be counted. -/
  | exhausted {states : List σ} {s : σ} : states.length = maxAttempts →
      (∀ u ∈ states, job.InVain u) → Concluded job deadline states .exhausted s

/-! ### One round -/

section

variable {ν : Type} (clock : Clock σ) (policy : Policy) (deadline : Option Nat) (t : Tally) (s : σ)
  (notes : ν)

theorem isLate_noted : isLate clock.noted deadline t (s, notes)
    = ((isLate clock deadline t s).1, ((isLate clock deadline t s).2, notes)) := by
  unfold isLate
  cases deadline with
  | none => rfl
  | some d =>
      simp only
      split <;> rfl

theorem waitAfter_noted (number : Nat) : waitAfter clock.noted policy deadline number (s, notes)
    = ((waitAfter clock policy deadline number s).1,
        ((waitAfter clock policy deadline number s).2, notes)) := by
  unfold waitAfter
  cases deadline <;> rfl

end

section

variable (clock : Clock σ) (policy : Policy) {deadline : Option Nat} (job : Job σ ε α) {t : Tally}
  (s : σ)

/-- An attempt is made as without notes, and its state is noted. -/
theorem attempt_noted (notes : List σ) : attempt job.noted t (s, notes)
    = ((attempt job t s).1, ((attempt job t s).2, notes ++ [s])) := by
  unfold attempt
  simp only [Job.noted_produce, Job.noted_isTransient, Job.noted_message]
  rcases job.produce s with ⟨e | x, s₁⟩
  · cases he : job.isTransient e <;> simp [he]
  · simp only [Job.noted_check]
    rcases job.check x s₁ with ⟨_ | reason, s₂⟩ <;> rfl

/-- The deadline comes only if there is one, and after the first attempt. -/
theorem isLate_eq_true {s₁ : σ} (h : isLate clock deadline t s = (true, s₁)) :
    deadline ≠ none ∧ t.attempts ≠ 0 := by
  unfold isLate at h
  cases deadline with
  | none => cases h
  | some d =>
      refine ⟨by simp, fun hfirst => ?_⟩
      simp [hfirst] at h

/-- An attempt is accepted when its value is. -/
theorem attempt_of_accepted {x : α} {s₁ s₂ : σ} (hproduce : job.produce s = (.ok x, s₁))
    (hcheck : job.check x s₁ = (none, s₂)) : attempt job t s = (.accepted x, s₂) := by
  unfold attempt
  simp only [hproduce, hcheck]

/-- A failure that is no matter of time ends polling. -/
theorem attempt_of_failed {e : ε} {s₁ : σ} (hproduce : job.produce s = (.error e, s₁))
    (he : job.isTransient e = false) : attempt job t s = (.failed e, s₁) := by
  unfold attempt
  simp only [hproduce, he, Bool.false_eq_true, if_false]

/-- A failure that may cure itself is counted. -/
theorem attempt_of_transient {e : ε} {s₁ : σ} (hproduce : job.produce s = (.error e, s₁))
    (he : job.isTransient e = true) : attempt job t s
      = (.again ⟨t.attempts + 1, t.rejections, t.transients + 1⟩
          (.transient (t.attempts + 1) (job.message e)), s₁) := by
  unfold attempt
  simp only [hproduce, he, if_true]

/-- So is a value that is not accepted. -/
theorem attempt_of_rejected {x : α} {reason : String} {s₁ s₂ : σ}
    (hproduce : job.produce s = (.ok x, s₁)) (hcheck : job.check x s₁ = (some reason, s₂)) :
    attempt job t s = (.again ⟨t.attempts + 1, t.rejections + 1, t.transients⟩
      (.rejected (t.attempts + 1) reason), s₂) := by
  unfold attempt
  simp only [hproduce, hcheck]

/-- An attempt is accepted, or fails for good, or is in vain and counted. -/
theorem attempt_spec :
    (∃ x s₁ s₂, job.produce s = (.ok x, s₁) ∧ job.check x s₁ = (none, s₂) ∧
      attempt job t s = (.accepted x, s₂)) ∨
    (∃ e s₁, job.produce s = (.error e, s₁) ∧ job.isTransient e = false ∧
      attempt job t s = (.failed e, s₁)) ∨
    ∃ t' why s₁, job.InVain s ∧ t'.attempts = t.attempts + 1 ∧
      attempt job t s = (.again t' why, s₁) := by
  rcases hproduce : job.produce s with ⟨e | x, s₁⟩
  · cases he : job.isTransient e with
    | false => exact .inr (.inl ⟨e, s₁, rfl, he, attempt_of_failed job s hproduce he⟩)
    | true =>
        exact .inr (.inr ⟨_, _, s₁, .transient e s₁ hproduce he, rfl,
          attempt_of_transient job s hproduce he⟩)
  · rcases hcheck : job.check x s₁ with ⟨_ | reason, s₂⟩
    · exact .inl ⟨x, s₁, s₂, rfl, hcheck, attempt_of_accepted job s hproduce hcheck⟩
    · exact .inr (.inr ⟨_, _, s₂, .rejected x reason s₁ s₂ hproduce hcheck, rfl,
        attempt_of_rejected job s hproduce hcheck⟩)

variable (deadline) {notes : List σ} (hnotes : ∀ u ∈ notes, job.InVain u)
  (hlength : notes.length = t.attempts)

include hnotes hlength in
/-- A round concludes the run, or makes one attempt in vain. -/
theorem round_noted :
    (∃ report states, round clock policy deadline job t s = .over report ∧
      round clock.noted policy deadline job.noted t (s, notes) = .over (report.noted states) ∧
      Concluded job deadline states report.outcome report.state) ∨
    ∃ events t' delay s' s₁, round clock policy deadline job t s = .next events t' delay s' ∧
      round clock.noted policy deadline job.noted t (s, notes)
        = .next events t' delay (s', notes ++ [s₁]) ∧
      job.InVain s₁ ∧ t'.attempts = t.attempts + 1 := by
  unfold round
  rw [isLate_noted]
  rcases hlate : isLate clock deadline t s with ⟨_ | _, s₁⟩
  · simp only [Bool.false_eq_true, if_false, attempt_noted]
    rcases attempt_spec job s₁ (t := t) with ⟨x, s₂, s₃, hproduce, hcheck, hattempt⟩ |
      ⟨e, s₂, hproduce, he, hattempt⟩ | ⟨t', why, s₂, hvain, ht', hattempt⟩
    · rw [hattempt]
      exact .inl ⟨_, notes ++ [s₁], rfl, rfl, .accepted hnotes hproduce hcheck⟩
    · rw [hattempt]
      exact .inl ⟨_, notes ++ [s₁], rfl, rfl, .failed hnotes hproduce he⟩
    · simp only [hattempt, waitAfter_noted]
      exact .inr ⟨_, t', _, _, s₁, rfl, rfl, hvain, ht'⟩
  · obtain ⟨hdeadline, hattempts⟩ := isLate_eq_true clock s hlate
    refine .inl ⟨_, notes, rfl, rfl, .timedOut hdeadline ?_ hnotes⟩
    rintro rfl
    exact hattempts hlength.symm

end

/-! ### All rounds -/

section

variable (clock : Clock σ) (policy : Policy) (deadline : Option Nat) (job : Job σ ε α)

/-- The rounds that are left are concluded by their attempts, and those before. -/
theorem attempts_concluded : ∀ (left : Nat) {t : Tally} {notes : List σ} (s : σ),
    (∀ u ∈ notes, job.InVain u) → notes.length = t.attempts → t.attempts + left = maxAttempts →
    ∃ states, attempts clock.noted policy deadline job.noted left t (s, notes)
        = (attempts clock policy deadline job left t s).noted states ∧
      Concluded job deadline states (attempts clock policy deadline job left t s).outcome
        (attempts clock policy deadline job left t s).state := by
  intro left
  induction left with
  | zero =>
      intro t notes s hnotes hlength hleft
      unfold attempts
      rw [isLate_noted]
      rcases hlate : isLate clock deadline t s with ⟨_ | _, s₁⟩
      · exact ⟨notes, rfl, .exhausted (hlength.trans hleft) hnotes⟩
      · obtain ⟨hdeadline, hattempts⟩ := isLate_eq_true clock s hlate
        refine ⟨notes, rfl, .timedOut hdeadline ?_ hnotes⟩
        rintro rfl
        exact hattempts hlength.symm
  | succ left ih =>
      intro t notes s hnotes hlength hleft
      unfold attempts
      rcases round_noted clock policy deadline job s hnotes hlength with
        ⟨report, states, hround, hnoted, hconcluded⟩ |
        ⟨events, t', delay, s', s₁, hround, hnoted, hvain, ht'⟩
      · rw [hround, hnoted]
        exact ⟨states, rfl, hconcluded⟩
      -- the state of the attempt goes to the notes, which stay as many as the attempts
      · have hnotes' : ∀ u ∈ notes ++ [s₁], job.InVain u := by
          simpa [or_imp, forall_and] using ⟨hnotes, hvain⟩
        have hlength' : (notes ++ [s₁]).length = t'.attempts := by simp [hlength, ht']
        obtain ⟨states, hrest, hconcluded⟩ :=
          ih (clock.sleep delay s') hnotes' hlength' (by omega)
        have hsleep : clock.noted.sleep delay (s', notes ++ [s₁])
            = (clock.sleep delay s', notes ++ [s₁]) := rfl
        rw [hround, hnoted]
        simp only [hsleep, hrest]
        exact ⟨states, rfl, hconcluded⟩

/-- Every run is concluded by the attempts that it makes; noting them changes nothing else. -/
theorem run_concluded (s : σ) :
    run clock.noted policy job.noted (s, [])
        = (run clock policy job s).noted (tried clock policy job s) ∧
      Concluded job (policy.timeout.deadline? (clock.now s).1) (tried clock policy job s)
        (run clock policy job s).outcome (run clock policy job s).state := by
  have hnone : ∀ u ∈ ([] : List σ), job.InVain u := by simp
  obtain ⟨states, hnoted, hconcluded⟩ := attempts_concluded clock policy
    (policy.timeout.deadline? (clock.now s).1) job maxAttempts (t := .none) (clock.now s).2 hnone
    rfl (Nat.zero_add _)
  have hrun : run clock.noted policy job.noted (s, [])
      = (run clock policy job s).noted states := hnoted
  have htried : tried clock policy job s = states := congrArg (fun r => r.state.2) hrun
  rw [htried]
  exact ⟨hrun, hconcluded⟩

end

/-! ### The first attempt -/

section

variable {clock : Clock σ} {policy : Policy} {deadline : Option Nat} {job : Job σ ε α}
  {s s₁ s₂ : σ}

/-- The first attempt is made in any case. -/
theorem isLate_first : isLate clock deadline .none s = (false, s) := by
  unfold isLate
  cases deadline <;> rfl

/-- A run that is over after its first round. -/
theorem run_of_over {report : Report σ ε α}
    (h : round clock policy (policy.timeout.deadline? (clock.now s).1) job .none (clock.now s).2
      = .over report) : run clock policy job s = report := by
  have hmany : maxAttempts = 0xFFFFFFFE + 1 := rfl
  unfold run
  simp only [hmany]
  rw [attempts, h]

/-- A value that is accepted at once is the only one that is produced. -/
theorem run_of_accepted {x : α} (hproduce : job.produce (clock.now s).2 = (.ok x, s₁))
    (hcheck : job.check x s₁ = (none, s₂)) :
    run clock policy job s = ⟨.accepted x, [.attempt 1, .accepted 1], s₂⟩ := by
  apply run_of_over
  unfold round
  rw [isLate_first]
  simp only [Bool.false_eq_true, if_false, attempt_of_accepted job _ hproduce hcheck]
  rfl

/-- No other attempt follows one that fails at once and for good. -/
theorem run_of_failed {e : ε} (hproduce : job.produce (clock.now s).2 = (.error e, s₁))
    (he : job.isTransient e = false) :
    run clock policy job s = ⟨.failed e, [.attempt 1], s₁⟩ := by
  apply run_of_over
  unfold round
  rw [isLate_first]
  simp only [Bool.false_eq_true, if_false, attempt_of_failed job _ hproduce he]
  rfl

end

/-! ### The last attempt -/

section

variable {job : Job σ ε α} {deadline : Option Nat} {states : List σ} {outcome : Outcome ε α}
  {final : σ}

/-- An attempt in vain is neither accepted nor fails for good. -/
theorem not_inVain_of_accepted {s s₁ : σ} {x : α} (hproduce : job.produce s = (.ok x, s₁))
    (hcheck : (job.check x s₁).1 = none) : ¬ job.InVain s := by
  intro h
  cases h with
  | transient e s₂ he _ => cases hproduce.symm.trans he
  | rejected y reason s₂ s₃ hy hreason =>
      cases hproduce.symm.trans hy
      simp [hreason] at hcheck

/-- A last attempt that is not in vain ends polling. -/
theorem Concluded.last (h : Concluded job deadline states outcome final) {s : σ}
    (hlast : states.getLast? = some s) (hvain : ¬ job.InVain s) :
    (∃ x s₁, job.produce s = (.ok x, s₁) ∧ outcome = .accepted x) ∨
      ∃ e s₁, job.produce s = (.error e, s₁) ∧ outcome = .failed e := by
  cases h with
  | accepted _ hproduce _ =>
      rw [List.getLast?_concat] at hlast
      cases hlast
      exact .inl ⟨_, _, hproduce, rfl⟩
  | failed _ hproduce _ =>
      rw [List.getLast?_concat] at hlast
      cases hlast
      exact .inr ⟨_, _, hproduce, rfl⟩
  | timedOut _ _ hstates => exact absurd (hstates s (List.mem_of_getLast? hlast)) hvain
  | exhausted _ hstates => exact absurd (hstates s (List.mem_of_getLast? hlast)) hvain

/-- A value is accepted just when the last attempt had it and it passed the check. -/
theorem Concluded.accepted_iff (h : Concluded job deadline states outcome final) (x : α) :
    outcome = .accepted x ↔ ∃ s s₁, states.getLast? = some s ∧ job.produce s = (.ok x, s₁) ∧
      (job.check x s₁).1 = none := by
  constructor
  · rintro rfl
    cases h with
    | accepted _ hproduce hcheck =>
        exact ⟨_, _, List.getLast?_concat, hproduce, congrArg Prod.fst hcheck⟩
  · rintro ⟨s, s₁, hlast, hproduce, hcheck⟩
    rcases h.last hlast (not_inVain_of_accepted hproduce hcheck) with
      ⟨y, s₂, hy, hout⟩ | ⟨e, s₂, he, -⟩
    · cases hproduce.symm.trans hy
      exact hout
    · cases hproduce.symm.trans he

end

/-! ### Keeping what is accepted -/

end Polling

/-- The value that polling ends with, if one is accepted. -/
def Outcome.value? : Outcome ε α → Option α
  | .accepted x => some x
  | _ => none

/-- A job whose check keeps the value that it accepts. -/
def Job.keeping (job : Job σ ε α) : Job (σ × Option α) ε α where
  produce s :=
    let (result, state) := job.produce s.1
    (result, (state, s.2))
  isTransient := job.isTransient
  message := job.message
  check x s :=
    let (against, state) := job.check x s.1
    (against, (state, if against.isNone then some x else s.2))

@[simp] theorem Job.keeping_produce (job : Job σ ε α) (s : σ) (kept : Option α) :
    job.keeping.produce (s, kept) = ((job.produce s).1, ((job.produce s).2, kept)) := rfl

@[simp] theorem Job.keeping_check (job : Job σ ε α) (x : α) (s : σ) (kept : Option α) :
    job.keeping.check x (s, kept) = ((job.check x s).1,
      ((job.check x s).2, if (job.check x s).1.isNone then some x else kept)) := rfl

@[simp] theorem Job.keeping_isTransient (job : Job σ ε α) :
    job.keeping.isTransient = job.isTransient := rfl

@[simp] theorem Job.keeping_message (job : Job σ ε α) : job.keeping.message = job.message := rfl

/-- A report with the value that is accepted in the state. -/
def Report.keep (r : Report σ ε α) : Report (σ × Option α) ε α :=
  ⟨r.outcome, r.events, (r.state, r.outcome.value?)⟩

namespace Polling

/-- The value that an attempt accepts. -/
def Attempt.value? : Attempt ε α → Option α
  | .accepted x => some x
  | _ => none

/-- A round with the value that is accepted in the state; there is none before the last round. -/
def Round.keep : Round σ ε α → Round (σ × Option α) ε α
  | .over report => .over report.keep
  | .next events t delay s => .next events t delay (s, none)

section

variable (clock : Clock σ) (policy : Policy) (deadline : Option Nat) (job : Job σ ε α)

/-- An attempt keeps the value that it accepts. -/
theorem attempt_keeping (t : Tally) (s : σ) : attempt job.keeping t (s, none)
    = ((attempt job t s).1, ((attempt job t s).2, (attempt job t s).1.value?)) := by
  unfold attempt
  simp only [Job.keeping_produce, Job.keeping_isTransient, Job.keeping_message]
  rcases job.produce s with ⟨e | x, s₁⟩
  · cases he : job.isTransient e <;> simp [he, Attempt.value?]
  · simp only [Job.keeping_check]
    rcases job.check x s₁ with ⟨_ | reason, s₂⟩ <;> rfl

/-- A round keeps the value that its attempt accepts. -/
theorem round_keeping (t : Tally) (s : σ) :
    round clock.noted policy deadline job.keeping t (s, none)
      = (round clock policy deadline job t s).keep := by
  unfold round
  rw [isLate_noted]
  rcases isLate clock deadline t s with ⟨_ | _, s₁⟩
  · simp only [Bool.false_eq_true, if_false, attempt_keeping]
    rcases attempt job t s₁ with ⟨x | e | ⟨t', why⟩, s₂⟩
    · rfl
    · rfl
    · simp only [Attempt.value?, waitAfter_noted]
      rfl
  · rfl

/-- The rounds that are left keep the value that one of them accepts. -/
theorem attempts_keeping : ∀ (left : Nat) (t : Tally) (s : σ),
    attempts clock.noted policy deadline job.keeping left t (s, none)
      = (attempts clock policy deadline job left t s).keep := by
  intro left
  induction left with
  | zero =>
      intro t s
      unfold attempts
      rw [isLate_noted]
      rcases isLate clock deadline t s with ⟨_ | _, s₁⟩ <;> rfl
  | succ left ih =>
      intro t s
      unfold attempts
      rw [round_keeping]
      rcases round clock policy deadline job t s with report | ⟨events, t', delay, s'⟩
      · rfl
      · exact congrArg (Report.after · events) (ih t' (clock.sleep delay s'))

/-- Keeping the value that is accepted changes nothing else; in the end the value that is kept is
the value that polling ends with. -/
theorem run_keeping (s : σ) :
    run clock.noted policy job.keeping (s, none) = (run clock policy job s).keep :=
  attempts_keeping clock policy _ job maxAttempts .none (clock.now s).2

end

end Polling

end CausalTrace
