import CausalTrace.Polling.Run

/-!
# The course of polling

What polling does, in order: when it reads the clock, what is produced and checked, how long it
sleeps, and what it reports meanwhile.  All of this is recorded in the state, next to what the state
was before, and described by a relation that knows nothing of the loop and its tally.

## Main definitions

* `Act`, `Clock.recorded`, `Job.recorded` — what polling does, recorded
* `Polling.Course` — the ways in which polling goes on after events
* `Polling.Tally.Counts` — a tally counts events

## Main statements

* `Polling.round_cases` — one round ends a course or prolongs it
* `Polling.run_course` — polling takes a course, and does the same when it is recorded

## Design notes

A course refers to the events before it and not to the tally, so that numbers of attempts, and what
is reported when the time is up, are numbers of events by definition.  The tally is what the loop
keeps of the events, which every round respects.
-/

namespace CausalTrace

variable {σ ε α : Type}

/-! ### Recording -/

/-- What polling does. -/
inductive Act (ε α : Type)
  /-- The clock is read. -/
  | read (now : Nat)
  | produced (result : Except ε α)
  /-- A value is checked; the reason against it is given, if there is one. -/
  | checked (value : α) (against : Option String)
  | slept (span : Nat)

/-- A clock with a record of its use. -/
def Clock.recorded (clock : Clock σ) : Clock (σ × List (Act ε α)) where
  now s :=
    let (now, state) := clock.now s.1
    (now, (state, s.2 ++ [.read now]))
  sleep span s := (clock.sleep span s.1, s.2 ++ [.slept span])

@[simp] theorem Clock.recorded_now (clock : Clock σ) (s : σ) (log : List (Act ε α)) :
    clock.recorded.now (s, log)
      = ((clock.now s).1, ((clock.now s).2, log ++ [.read (clock.now s).1])) := rfl

@[simp] theorem Clock.recorded_sleep (clock : Clock σ) (span : Nat) (s : σ)
    (log : List (Act ε α)) :
    clock.recorded.sleep span (s, log) = (clock.sleep span s, log ++ [.slept span]) := rfl

/-- A job with a record of what is produced and checked. -/
def Job.recorded (job : Job σ ε α) : Job (σ × List (Act ε α)) ε α where
  produce s :=
    let (result, state) := job.produce s.1
    (result, (state, s.2 ++ [.produced result]))
  isTransient := job.isTransient
  message := job.message
  check x s :=
    let (against, state) := job.check x s.1
    (against, (state, s.2 ++ [.checked x against]))

@[simp] theorem Job.recorded_produce (job : Job σ ε α) (s : σ) (log : List (Act ε α)) :
    job.recorded.produce (s, log)
      = ((job.produce s).1, ((job.produce s).2, log ++ [.produced (job.produce s).1])) := rfl

@[simp] theorem Job.recorded_check (job : Job σ ε α) (x : α) (s : σ) (log : List (Act ε α)) :
    job.recorded.check x (s, log)
      = ((job.check x s).1, ((job.check x s).2, log ++ [.checked x (job.check x s).1])) := rfl

@[simp] theorem Job.recorded_isTransient (job : Job σ ε α) :
    job.recorded.isTransient = job.isTransient := rfl

@[simp] theorem Job.recorded_message (job : Job σ ε α) :
    job.recorded.message = job.message := rfl

/-- A report with a record in the state. -/
def Report.recorded (r : Report σ ε α) (acts : List (Act ε α)) :
    Report (σ × List (Act ε α)) ε α :=
  ⟨r.outcome, r.events, (r.state, acts)⟩

/-! ### Counting events -/

namespace Event

/-- The number of an attempt that begins. -/
def attempt? : Event → Option Nat
  | .attempt number => some number
  | _ => none

def isAttempt : Event → Bool
  | .attempt _ => true
  | _ => false

def isRejected : Event → Bool
  | .rejected .. => true
  | _ => false

def isTransient : Event → Bool
  | .transient .. => true
  | _ => false

end Event

namespace Polling

/-- The number of the attempt that comes after events. -/
def nextNumber (before : List Event) : Nat := before.countP Event.isAttempt + 1

/-- A tally counts the events of each kind. -/
structure Tally.Counts (t : Tally) (events : List Event) : Prop where
  attempts : t.attempts = events.countP Event.isAttempt
  rejections : t.rejections = events.countP Event.isRejected
  transients : t.transients = events.countP Event.isTransient

/-! ### Courses -/

section

variable (policy : Policy) (job : Job σ ε α) (deadline : Option Nat)

/-- What is done before an attempt that is made: the clock is read, unless it is the first attempt
or there is no deadline, and the deadline has not come. -/
inductive Begins (before : List Event) : List (Act ε α) → Prop
  | first : before.countP Event.isAttempt = 0 → Begins before []
  | unlimited : deadline = none → Begins before []
  | early (d now : Nat) : deadline = some d → 0 < before.countP Event.isAttempt → now < d →
      Begins before [.read now]

/-- What is done in an attempt that is to be followed by another, and the event that says why. -/
inductive Fruitless (number : Nat) : List (Act ε α) → Event → Prop
  | rejected (x : α) (reason : String) :
      Fruitless number [.produced (.ok x), .checked x (some reason)] (.rejected number reason)
  | transient (e : ε) : job.isTransient e = true →
      Fruitless number [.produced (.error e)] (.transient number (job.message e))

/-- What is done to choose the wait after an attempt, and the wait: that of the policy, cut to the
time that is left. -/
inductive Waits (number : Nat) : List (Act ε α) → Nat → Prop
  | full : deadline = none → Waits number [] (policy.delay number)
  | cut (d now : Nat) : deadline = some d →
      Waits number [.read now] (min (policy.delay number) (d - now))

/-- The ways in which polling goes on after events: what it does, what it reports, and how it
ends. -/
inductive Course : List Event → List (Act ε α) → List Event → Outcome ε α → Prop
  /-- The deadline has come. -/
  | timedOut {before : List Event} (d now : Nat) : deadline = some d →
      0 < before.countP Event.isAttempt → d ≤ now →
      Course before [.read now] [.timedOut (before.countP Event.isAttempt)
        (before.countP Event.isRejected) (before.countP Event.isTransient)] .timedOut
  /-- A value is accepted. -/
  | accepted {before : List Event} {start : List (Act ε α)} (x : α) :
      Begins deadline before start →
      Course before (start ++ [.produced (.ok x), .checked x none])
        [.attempt (nextNumber before), .accepted (nextNumber before)] (.accepted x)
  /-- No value is had, and none is to be expected. -/
  | failed {before : List Event} {start : List (Act ε α)} (e : ε) :
      Begins deadline before start → job.isTransient e = false →
      Course before (start ++ [.produced (.error e)]) [.attempt (nextNumber before)] (.failed e)
  /-- An attempt comes to nothing, and polling goes on after a wait. -/
  | again {before events : List Event} {start tried wait acts : List (Act ε α)} {why : Event}
      {delay : Nat} {outcome : Outcome ε α} : Begins deadline before start →
      Fruitless job (nextNumber before) tried why →
      Waits policy deadline (nextNumber before) wait delay →
      Course (before ++ [.attempt (nextNumber before), why, .backoff (nextNumber before) delay])
        acts events outcome →
      Course before (start ++ tried ++ wait ++ .slept delay :: acts)
        (.attempt (nextNumber before) :: why :: .backoff (nextNumber before) delay :: events)
        outcome
  /-- Another attempt is due, whose number does not fit into 32 bits. -/
  | exhausted {before : List Event} {start : List (Act ε α)} :
      before.countP Event.isAttempt = maxAttempts → Begins deadline before start →
      Course before start [] .exhausted

end

/-- A fruitless attempt counts as one. -/
theorem Fruitless.countP_isAttempt {job : Job σ ε α} {number : Nat} {tried : List (Act ε α)}
    {why : Event} (h : Fruitless job number tried why) (before : List Event) (n delay : Nat) :
    (before ++ [.attempt n, why, .backoff n delay]).countP Event.isAttempt
      = before.countP Event.isAttempt + 1 := by
  cases h <;> simp [List.countP_append, List.countP_cons, Event.isAttempt]

/-! ### One round -/

section

variable (clock : Clock σ) (policy : Policy) (deadline : Option Nat) (job : Job σ ε α)
  {before : List Event} {t : Tally}

/-- The deadline has come, or an attempt is made. -/
theorem isLate_cases (ht : t.Counts before) (s : σ) :
    (∃ d now s₁, deadline = some d ∧ 0 < before.countP Event.isAttempt ∧ d ≤ now ∧
      isLate clock deadline t s = (true, s₁) ∧
      ∀ log : List (Act ε α),
        isLate clock.recorded deadline t (s, log) = (true, (s₁, log ++ [.read now]))) ∨
    ∃ s₁, ∃ start : List (Act ε α), Begins deadline before start ∧
      isLate clock deadline t s = (false, s₁) ∧
      ∀ log, isLate clock.recorded deadline t (s, log) = (false, (s₁, log ++ start)) := by
  unfold isLate
  cases hd : deadline with
  | none => exact .inr ⟨s, [], .unlimited rfl, rfl, fun log => by simp⟩
  | some d =>
      rw [ht.attempts]
      by_cases hfirst : before.countP Event.isAttempt = 0
      · exact .inr ⟨s, [], .first hfirst, by simp [hfirst], fun log => by simp [hfirst]⟩
      · have hlater : 0 < before.countP Event.isAttempt := Nat.pos_of_ne_zero hfirst
        by_cases hnow : d ≤ (clock.now s).1
        · exact .inl ⟨d, _, (clock.now s).2, rfl, hlater, hnow, by simp [hfirst, hnow],
            fun log => by simp [hfirst, hnow]⟩
        · exact .inr ⟨(clock.now s).2, _, .early d _ rfl hlater (Nat.not_le.mp hnow),
            by simp [hfirst, hnow], fun log => by simp [hfirst, hnow]⟩

/-- The wait after an attempt. -/
theorem waitAfter_cases (number : Nat) (s : σ) :
    ∃ delay s₁, ∃ wait : List (Act ε α), Waits policy deadline number wait delay ∧
      waitAfter clock policy deadline number s = (delay, s₁) ∧
      ∀ log, waitAfter clock.recorded policy deadline number (s, log)
        = (delay, (s₁, log ++ wait)) := by
  unfold waitAfter
  cases deadline with
  | none => exact ⟨_, s, [], .full rfl, rfl, fun log => by simp⟩
  | some d => exact ⟨_, _, _, .cut d (clock.now s).1 rfl, rfl, fun log => rfl⟩

/-- An attempt ends polling, or comes to nothing. -/
theorem attempt_cases (ht : t.Counts before) (s : σ) :
    (∃ x s₁, attempt job t s = (.accepted x, s₁) ∧
      ∀ log, attempt job.recorded t (s, log)
        = (.accepted x, (s₁, log ++ [.produced (.ok x), .checked x none]))) ∨
    (∃ e s₁, job.isTransient e = false ∧ attempt job t s = (.failed e, s₁) ∧
      ∀ log, attempt job.recorded t (s, log)
        = (.failed e, (s₁, log ++ [.produced (.error e)]))) ∨
    ∃ t' why s₁ tried, Fruitless job (nextNumber before) tried why ∧
      (∀ delay, t'.Counts
        (before ++ [.attempt (nextNumber before), why, .backoff (nextNumber before) delay])) ∧
      attempt job t s = (.again t' why, s₁) ∧
      ∀ log, attempt job.recorded t (s, log) = (.again t' why, (s₁, log ++ tried)) := by
  have hnumber : t.attempts + 1 = nextNumber before := congrArg (· + 1) ht.attempts
  unfold attempt
  simp only [Job.recorded_produce, Job.recorded_isTransient, Job.recorded_message, hnumber]
  rcases hproduce : job.produce s with ⟨e | x, s₁⟩
  · cases he : job.isTransient e with
    | false =>
        exact .inr (.inl ⟨e, s₁, he, by simp [he], fun log => by simp [he]⟩)
    | true =>
        refine .inr (.inr ⟨⟨nextNumber before, t.rejections, t.transients + 1⟩, _, s₁, _,
          .transient e he, fun delay => ⟨?_, ?_, ?_⟩, by simp [he], fun log => by simp [he]⟩)
        · simp [List.countP_append, List.countP_cons, Event.isAttempt, nextNumber]
        · simp [List.countP_append, Event.isRejected, ht.rejections]
        · simp [List.countP_append, List.countP_cons, Event.isTransient, ht.transients]
  · simp only
    rcases hcheck : job.check x s₁ with ⟨_ | reason, s₂⟩
    · exact .inl ⟨x, s₂, rfl, fun log => by simp [hcheck]⟩
    · refine .inr (.inr ⟨⟨nextNumber before, t.rejections + 1, t.transients⟩, _, s₂, _,
        .rejected x reason, fun delay => ⟨?_, ?_, ?_⟩, rfl, fun log => by simp [hcheck]⟩)
      · simp [List.countP_append, List.countP_cons, Event.isAttempt, nextNumber]
      · simp [List.countP_append, List.countP_cons, Event.isRejected, ht.rejections]
      · simp [List.countP_append, Event.isTransient, ht.transients]

/-- One round ends the course, or prolongs it by a fruitless attempt and a wait. -/
theorem round_cases (ht : t.Counts before) (s : σ) :
    (∃ report, ∃ acts : List (Act ε α), round clock policy deadline job t s = .over report ∧
      Course policy job deadline before acts report.events report.outcome ∧
      ∀ log, round clock.recorded policy deadline job.recorded t (s, log)
        = .over (report.recorded (log ++ acts))) ∨
    ∃ why delay t' s', ∃ start tried wait : List (Act ε α), Begins deadline before start ∧
      Fruitless job (nextNumber before) tried why ∧
      Waits policy deadline (nextNumber before) wait delay ∧
      t'.Counts
        (before ++ [.attempt (nextNumber before), why, .backoff (nextNumber before) delay]) ∧
      round clock policy deadline job t s
        = .next [.attempt (nextNumber before), why, .backoff (nextNumber before) delay] t' delay
            s' ∧
      ∀ log, round clock.recorded policy deadline job.recorded t (s, log)
        = .next [.attempt (nextNumber before), why, .backoff (nextNumber before) delay] t' delay
            (s', log ++ (start ++ tried ++ wait)) := by
  have hnumber : t.attempts + 1 = nextNumber before := congrArg (· + 1) ht.attempts
  unfold round
  rcases isLate_cases clock deadline ht s with
    ⟨d, now, s₁, hd, hlater, hnow, hlate, hlate'⟩ | ⟨s₁, start, hstart, hlate, hlate'⟩
  · refine .inl ⟨_, _, by rw [hlate]; rfl, ?_, fun log => by rw [hlate']; rfl⟩
    rw [ht.attempts, ht.rejections, ht.transients]
    exact .timedOut d now hd hlater hnow
  · simp only [hlate, hlate', hnumber, Bool.false_eq_true, if_false]
    rcases attempt_cases job ht s₁ with ⟨x, s₂, hx, hx'⟩ | ⟨e, s₂, he, hfail, hfail'⟩ |
      ⟨t', why, s₂, tried, htried, ht', hagain, hagain'⟩
    · refine .inl ⟨_, _, by rw [hx], .accepted x hstart, fun log => ?_⟩
      rw [hx', List.append_assoc]
      rfl
    · refine .inl ⟨_, _, by rw [hfail], .failed e hstart he, fun log => ?_⟩
      rw [hfail', List.append_assoc]
      rfl
    · obtain ⟨delay, s₃, wait, hwait, hdelay, hdelay'⟩ :=
        waitAfter_cases clock policy deadline (nextNumber before) s₂
      refine .inr ⟨why, delay, t', s₃, start, tried, wait, hstart, htried, hwait, ht' delay,
        ?_, fun log => ?_⟩
      · simp only [hagain, hdelay]
      · simp only [hagain', hdelay', List.append_assoc]

/-! ### All rounds -/

/-- The rounds that are left take a course. -/
theorem attempts_course : ∀ (left : Nat) {t : Tally} {before : List Event}, t.Counts before →
    t.attempts + left = maxAttempts → ∀ s : σ, ∃ acts : List (Act ε α),
      Course policy job deadline before acts (attempts clock policy deadline job left t s).events
          (attempts clock policy deadline job left t s).outcome ∧
        ∀ log, attempts clock.recorded policy deadline job.recorded left t (s, log)
          = (attempts clock policy deadline job left t s).recorded (log ++ acts) := by
  intro left
  induction left with
  | zero =>
      intro t before ht hleft s
      unfold attempts
      rcases isLate_cases (ε := ε) (α := α) clock deadline ht s with
        ⟨d, now, s₁, hd, hlater, hnow, hlate, hlate'⟩ | ⟨s₁, start, hstart, hlate, hlate'⟩
      · refine ⟨[.read now], ?_, fun log => ?_⟩
        · simp only [hlate, if_true, ht.attempts, ht.rejections, ht.transients]
          exact .timedOut d now hd hlater hnow
        · rw [hlate, hlate']
          rfl
      · refine ⟨start, ?_, fun log => ?_⟩
        · simp only [hlate, Bool.false_eq_true, if_false]
          exact .exhausted (ht.attempts.symm.trans hleft) hstart
        · rw [hlate, hlate']
          rfl
  | succ left ih =>
      intro t before ht hleft s
      unfold attempts
      rcases round_cases clock policy deadline job ht s with
        ⟨report, acts, hover, hcourse, hover'⟩ |
        ⟨why, delay, t', s', start, tried, wait, hstart, htried, hwait, ht', hnext, hnext'⟩
      · refine ⟨acts, ?_, fun log => ?_⟩
        · rw [hover]
          exact hcourse
        · rw [hover, hover']
      -- the tally and the rounds that are left always make up the same number
      · have hleft' : t'.attempts + left = maxAttempts := by
          rw [ht'.attempts, htried.countP_isAttempt, ← ht.attempts, ← hleft]
          omega
        obtain ⟨acts, hcourse, hrecord⟩ := ih ht' hleft' (clock.sleep delay s')
        refine ⟨start ++ tried ++ wait ++ .slept delay :: acts, ?_, fun log => ?_⟩
        · rw [hnext]
          exact .again hstart htried hwait hcourse
        · have hsleep : (clock.recorded.sleep delay (s', log ++ (start ++ tried ++ wait))
              : σ × List (Act ε α))
              = (clock.sleep delay s', log ++ (start ++ tried ++ wait) ++ [.slept delay]) := rfl
          rw [hnext, hnext']
          simp only [hsleep, hrecord]
          simp [Report.after, Report.recorded]

/-- Polling takes a course from the start, whatever was recorded before, and does the same when it
is recorded. -/
theorem run_course (s : σ) :
    ∃ acts : List (Act ε α),
      Course policy job (policy.timeout.deadline? (clock.now s).1) [] acts
          (run clock policy job s).events (run clock policy job s).outcome ∧
        ∀ log, run clock.recorded policy job.recorded (s, log)
          = (run clock policy job s).recorded (log ++ .read (clock.now s).1 :: acts) := by
  have hnone : Tally.none.Counts [] := ⟨rfl, rfl, rfl⟩
  obtain ⟨acts, hcourse, hrecord⟩ := attempts_course clock policy
    (policy.timeout.deadline? (clock.now s).1) job maxAttempts hnone (Nat.zero_add _)
    (clock.now s).2
  refine ⟨acts, hcourse, fun log => ?_⟩
  have hnow : (clock.recorded.now (s, log) : Nat × σ × List (Act ε α))
      = ((clock.now s).1, ((clock.now s).2, log ++ [.read (clock.now s).1])) := rfl
  unfold run
  simp only [hnow, hrecord, List.append_assoc, List.singleton_append]

end

end Polling

end CausalTrace
