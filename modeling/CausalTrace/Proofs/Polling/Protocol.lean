import CausalTrace.Proofs.Polling.Course

/-!
# The protocol of polling

What can be read off every course: how its attempts are numbered, what is reported when the time is
up, and which values are checked.

## Main definitions

* `Polling.Protocol` — what holds of a run

## Main statements

* `Polling.Course.numbers` — attempts are numbered one after the other
* `Polling.Course.timedOut_counts` — what is reported when the time is up
* `Polling.Course.checks` — every value is checked once, and in order
* `Polling.protocol_of_run` — every run keeps the protocol

## Design notes

Each statement is for a course after any events, so that it can be carried from the rest of a course
to the whole by one round.
-/

namespace CausalTrace

variable {σ ε α : Type}

/-- The value that is produced, if there is one. -/
def Act.value? : Act ε α → Option α
  | .produced (.ok x) => some x
  | _ => none

/-- The value that is checked. -/
def Act.checked? : Act ε α → Option α
  | .checked x _ => some x
  | _ => none

namespace Polling

variable {policy : Policy} {job : Job σ ε α} {deadline : Option Nat} {before events : List Event}
  {acts : List (Act ε α)} {outcome : Outcome ε α}

/-! ### Parts of a round -/

/-- Nothing is produced or checked before an attempt. -/
theorem Begins.checks (h : Begins deadline before acts) :
    acts.filterMap Act.checked? = acts.filterMap Act.value? := by
  cases h <;> rfl

/-- Nothing is produced or checked while a wait is chosen. -/
theorem Waits.checks {number delay : Nat} (h : Waits policy deadline number acts delay) :
    acts.filterMap Act.checked? = acts.filterMap Act.value? := by
  cases h <;> rfl

/-- In a fruitless attempt what is produced is checked. -/
theorem Fruitless.checks {number : Nat} {why : Event} (h : Fruitless job number acts why) :
    acts.filterMap Act.checked? = acts.filterMap Act.value? := by
  cases h <;> rfl

theorem Fruitless.isAttempt {number : Nat} {why : Event} (h : Fruitless job number acts why) :
    why.isAttempt = false := by
  cases h <;> rfl

theorem Fruitless.attempt? {number : Nat} {why : Event} (h : Fruitless job number acts why) :
    why.attempt? = none := by
  cases h <;> rfl

/-- A fruitless attempt counts as rejected or as transient. -/
theorem Fruitless.countP_why {number : Nat} {why : Event} (h : Fruitless job number acts why)
    (before : List Event) (n delay : Nat) :
    (before ++ [.attempt n, why, .backoff n delay]).countP Event.isRejected
        + (before ++ [.attempt n, why, .backoff n delay]).countP Event.isTransient
      = before.countP Event.isRejected + before.countP Event.isTransient + 1 := by
  cases h <;>
    simp [List.countP_append, List.countP_cons, Event.isRejected, Event.isTransient] <;> omega

theorem Fruitless.ne_timedOut {number : Nat} {why : Event} (h : Fruitless job number acts why)
    (a r t : Nat) : .timedOut a r t ≠ why := by
  cases h <;> simp

/-! ### Courses -/

/-- The first attempt is made in any case. -/
theorem Course.first (h : Course policy job deadline [] acts events outcome) :
    ∃ rest, events = .attempt 1 :: rest := by
  cases h with
  | timedOut d now _ hlater _ => exact absurd hlater (Nat.lt_irrefl 0)
  | accepted x _ => exact ⟨_, rfl⟩
  | failed e _ _ => exact ⟨_, rfl⟩
  | again _ _ _ _ => exact ⟨_, rfl⟩
  | exhausted hmany _ => exact absurd hmany (by decide)

/-- Attempts are numbered one after the other. -/
theorem Course.numbers (h : Course policy job deadline before acts events outcome) :
    events.filterMap Event.attempt?
      = List.range' (nextNumber before) (events.countP Event.isAttempt) := by
  induction h with
  | timedOut d now _ _ _ => rfl
  | accepted x _ => rfl
  | failed e _ _ => rfl
  | exhausted _ _ => rfl
  | @again before events start tried wait acts why delay outcome _ htried _ _ ih =>
      have hcount : (Event.attempt (nextNumber before) :: why
            :: .backoff (nextNumber before) delay :: events).countP Event.isAttempt
          = events.countP Event.isAttempt + 1 := by
        rw [List.countP_cons_of_pos rfl, List.countP_cons_of_neg (by simp [htried.isAttempt]),
          List.countP_cons_of_neg (by simp [Event.isAttempt])]
      have hnumbers : (Event.attempt (nextNumber before) :: why
            :: .backoff (nextNumber before) delay :: events).filterMap Event.attempt?
          = nextNumber before :: events.filterMap Event.attempt? := by
        rw [List.filterMap_cons, List.filterMap_cons, htried.attempt?]
        rfl
      have hnext : nextNumber (before ++ [Event.attempt (nextNumber before), why,
          .backoff (nextNumber before) delay]) = nextNumber before + 1 :=
        congrArg (· + 1) (htried.countP_isAttempt _ _ _)
      rw [hcount, hnumbers, ih, hnext, List.range'_succ]

/-- What is reported when the time is up: there is a deadline, and the numbers are those of the
events, as long as every attempt before was rejected or transient. -/
theorem Course.timedOut_counts (h : Course policy job deadline before acts events outcome)
    (hbefore : before.countP Event.isRejected + before.countP Event.isTransient
      = before.countP Event.isAttempt) {a r t : Nat} (hmem : .timedOut a r t ∈ events) :
    deadline ≠ none ∧ a = (before ++ events).countP Event.isAttempt ∧
      r = (before ++ events).countP Event.isRejected ∧
      t = (before ++ events).countP Event.isTransient ∧ r + t = a := by
  induction h with
  | timedOut d now hd _ _ =>
      cases List.mem_singleton.mp hmem
      simp [hd, hbefore, Event.isAttempt, Event.isRejected, Event.isTransient]
  | accepted x _ => simp at hmem
  | failed e _ _ => simp at hmem
  | exhausted _ _ => simp at hmem
  | @again before events start tried wait acts why delay outcome _ htried _ _ ih =>
      have hrest : .timedOut a r t ∈ events := by
        simpa [htried.ne_timedOut a r t] using hmem
      have hround : (before ++ [Event.attempt (nextNumber before), why,
            .backoff (nextNumber before) delay]) ++ events
          = before ++ .attempt (nextNumber before) :: why
            :: .backoff (nextNumber before) delay :: events := by simp
      rw [← hround]
      refine ih ?_ hrest
      rw [htried.countP_why, htried.countP_isAttempt, hbefore]

/-- Attempts are used up only when as many have been made as can be counted. -/
theorem Course.exhausted_counts (h : Course policy job deadline before acts events outcome)
    (hout : outcome = .exhausted) : (before ++ events).countP Event.isAttempt = maxAttempts := by
  induction h with
  | timedOut d now _ _ _ => cases hout
  | accepted x _ => cases hout
  | failed e _ _ => cases hout
  | exhausted hmany _ => rw [List.append_nil, hmany]
  | again _ _ _ _ ih => simpa using ih hout

/-- Every value that is produced is checked once, and in order, and nothing else is. -/
theorem Course.checks (h : Course policy job deadline before acts events outcome) :
    acts.filterMap Act.checked? = acts.filterMap Act.value? := by
  induction h with
  | timedOut d now _ _ _ => rfl
  | accepted x hstart =>
      rw [List.filterMap_append, List.filterMap_append, hstart.checks]
      rfl
  | failed e hstart _ =>
      rw [List.filterMap_append, List.filterMap_append, hstart.checks]
      rfl
  | exhausted _ hstart => exact hstart.checks
  | again hstart htried hwait _ ih =>
      simp only [List.filterMap_append, hstart.checks, htried.checks, hwait.checks,
        List.filterMap_cons_none (show Act.checked? (.slept _) = none from rfl),
        List.filterMap_cons_none (show Act.value? (.slept _) = none from rfl), ih]

/-! ### Runs -/

/-- What holds of a run: what it does, what it reports, and how it ends. -/
structure Protocol (policy : Policy) (job : Job σ ε α) (deadline : Option Nat)
    (acts : List (Act ε α)) (events : List Event) (outcome : Outcome ε α) : Prop where
  /-- Rounds follow each other until a value is accepted, no value is to be expected, or the time is
  up. -/
  course : Course policy job deadline [] acts events outcome
  /-- The first attempt is made in any case. -/
  first : ∃ rest, events = .attempt 1 :: rest
  numbers : events.filterMap Event.attempt? = List.range' 1 (events.countP Event.isAttempt)
  /-- The time is up only if there is a deadline, and what is reported then are the numbers of
  attempts, of those rejected, and of those transient. -/
  timedOut : ∀ {a r t : Nat}, .timedOut a r t ∈ events → deadline ≠ none ∧
    a = events.countP Event.isAttempt ∧ r = events.countP Event.isRejected ∧
    t = events.countP Event.isTransient ∧ r + t = a
  /-- The values that are produced are checked, each of them once and in order. -/
  checks : acts.filterMap Act.checked? = acts.filterMap Act.value?
  /-- Attempts are used up only when as many have been made as can be counted. -/
  exhausted : outcome = .exhausted → events.countP Event.isAttempt = maxAttempts

/-- A course from the start keeps the protocol. -/
theorem Course.protocol (h : Course policy job deadline [] acts events outcome) :
    Protocol policy job deadline acts events outcome where
  course := h
  first := h.first
  numbers := h.numbers
  timedOut := h.timedOut_counts rfl
  checks := h.checks
  exhausted := h.exhausted_counts

/-- Every run keeps the protocol, in whatever state it starts and whatever was done before.  What it
does is what is recorded when it is recorded, which changes nothing else. -/
theorem protocol_of_run (clock : Clock σ) (policy : Policy) (job : Job σ ε α) (s : σ) :
    ∃ acts : List (Act ε α),
      Protocol policy job (policy.timeout.deadline? (clock.now s).1) acts
          (run clock policy job s).events (run clock policy job s).outcome ∧
        ∀ log, run clock.recorded policy job.recorded (s, log)
          = (run clock policy job s).recorded (log ++ .read (clock.now s).1 :: acts) := by
  obtain ⟨acts, hcourse, hrecord⟩ := run_course clock policy job s
  exact ⟨acts, hcourse.protocol, hrecord⟩

end Polling

end CausalTrace
