import CausalTrace.Polling.Policy

/-!
# Polling

Produces a value again and again until it is accepted, the time is up, or producing it fails for
good.  Failures that may cure themselves count like values that are not accepted.

## Main definitions

* `Clock` — reading the time, and sleeping
* `Job` — producing a value and checking it
* `Event`, `Outcome`, `Report` — what polling reports, and how it ends
* `Polling.round` — one attempt, with what is decided before and after it
* `Polling.attempts`, `Polling.run` — the loop

## Design notes

The clock, the source of the values and the check all live in one state, so that what they do to
each other between attempts can be said.  The loop recurses on the number of attempts that are left;
attempts are counted in 32 bits, which bounds it.  A round sleeps not by itself but says how long to
sleep, so that the loop can also be run by a program that really waits.

Events carry no times: how long polling has taken so far would be told to whoever watches it only,
and no decision of the loop depends on it.
-/

namespace CausalTrace

/-- A clock that is part of a state: moments and spans are in nanoseconds. -/
structure Clock (σ : Type) where
  now : σ → Nat × σ
  sleep : Nat → σ → σ

/-- Decides about a value: none accepts it, otherwise the reason why not. -/
abbrev Check (σ α : Type) := α → σ → Option String × σ

namespace Check

variable {σ α : Type}

/-- Accepts the values for which a predicate holds. -/
def ofPredicate (holds : α → σ → Bool × σ) : Check σ α := fun x s =>
  let (b, s') := holds x s
  (if b then none else some "predicate returned false", s')

/-- Accepts the values for which an assertion gives no reason against. -/
def ofAssertion (against : α → σ → Option String × σ) : Check σ α := against

end Check

/-- What is polled. -/
structure Job (σ ε α : Type) where
  produce : σ → Except ε α × σ
  /-- Whether a failure may cure itself. -/
  isTransient : ε → Bool
  message : ε → String
  check : Check σ α

/-- A report of the polling loop; attempts are counted from one on. -/
inductive Event
  | attempt (number : Nat)
  /-- The value was not accepted. -/
  | rejected (number : Nat) (reason : String)
  /-- No value was had, which may cure itself. -/
  | transient (number : Nat) (message : String)
  /-- The next attempt waits this long. -/
  | backoff (number delay : Nat)
  | accepted (number : Nat)
  | timedOut (attempts rejections transients : Nat)
  deriving DecidableEq, Repr

/-- How polling ends. -/
inductive Outcome (ε α : Type)
  /-- A value was accepted. -/
  | accepted (value : α)
  | timedOut
  | failed (cause : ε)
  /-- The number of attempts was used up. -/
  | exhausted
  deriving Repr

/-- How polling ended, what it reported, and the state it left. -/
structure Report (σ ε α : Type) where
  outcome : Outcome ε α
  events : List Event
  state : σ

/-- A report with events that came before it. -/
def Report.after {σ ε α : Type} (r : Report σ ε α) (events : List Event) : Report σ ε α :=
  { r with events := events ++ r.events }

namespace Polling

variable {σ ε α : Type}

/-- How many attempts polling has made, and how they ended. -/
structure Tally where
  attempts : Nat
  rejections : Nat
  transients : Nat
  deriving DecidableEq, Repr

/-- No attempts yet. -/
def Tally.none : Tally := ⟨0, 0, 0⟩

/-- The number of attempts that 32 bits can count. -/
def maxAttempts : Nat := 0xFFFFFFFF

/-- Whether the deadline has come.  The first attempt is made in any case, and without a deadline
the clock is not read. -/
def isLate (clock : Clock σ) (deadline : Option Nat) (t : Tally) (s : σ) : Bool × σ :=
  match deadline with
  | none => (false, s)
  | some d =>
    if t.attempts = 0 then (false, s)
    else
      let (now, s') := clock.now s
      (decide (d ≤ now), s')

/-- The wait after an attempt, cut to the time that is left. -/
def waitAfter (clock : Clock σ) (policy : Policy) (deadline : Option Nat) (number : Nat) (s : σ) :
    Nat × σ :=
  let full := policy.delay number
  match deadline with
  | none => (full, s)
  | some d =>
    let (now, s') := clock.now s
    (min full (d - now), s')

/-- What an attempt comes to. -/
inductive Attempt (ε α : Type)
  | accepted (value : α)
  | failed (cause : ε)
  /-- Another attempt is to be made: the tally, and the event that says why. -/
  | again (tally : Tally) (why : Event)

/-- One attempt. -/
def attempt (job : Job σ ε α) (t : Tally) (s : σ) : Attempt ε α × σ :=
  let number := t.attempts + 1
  match job.produce s with
  | (.error e, s') =>
    if job.isTransient e then
      (.again ⟨number, t.rejections, t.transients + 1⟩ (.transient number (job.message e)), s')
    else (.failed e, s')
  | (.ok x, s') =>
    match job.check x s' with
    | (none, s'') => (.accepted x, s'')
    | (some reason, s'') =>
      (.again ⟨number, t.rejections + 1, t.transients⟩ (.rejected number reason), s'')

/-- What a round comes to. -/
inductive Round (σ ε α : Type)
  /-- Polling is over. -/
  | over (report : Report σ ε α)
  /-- The next round follows after a delay. -/
  | next (events : List Event) (tally : Tally) (delay : Nat) (state : σ)

/-- One round of the loop: the deadline is looked at, an attempt made, and a delay chosen. -/
def round (clock : Clock σ) (policy : Policy) (deadline : Option Nat) (job : Job σ ε α) (t : Tally)
    (s : σ) : Round σ ε α :=
  let (late, s₁) := isLate clock deadline t s
  if late then .over ⟨.timedOut, [.timedOut t.attempts t.rejections t.transients], s₁⟩
  else
    let number := t.attempts + 1
    match attempt job t s₁ with
    | (.accepted x, s₂) => .over ⟨.accepted x, [.attempt number, .accepted number], s₂⟩
    | (.failed e, s₂) => .over ⟨.failed e, [.attempt number], s₂⟩
    | (.again t' why, s₂) =>
      let (delay, s₃) := waitAfter clock policy deadline number s₂
      .next [.attempt number, why, .backoff number delay] t' delay s₃

/-- Up to a number of further rounds.  When all are used up, the time may be up as well. -/
def attempts (clock : Clock σ) (policy : Policy) (deadline : Option Nat) (job : Job σ ε α) :
    Nat → Tally → σ → Report σ ε α
  | 0, t, s =>
    let (late, s₁) := isLate clock deadline t s
    if late then ⟨.timedOut, [.timedOut t.attempts t.rejections t.transients], s₁⟩
    else ⟨.exhausted, [], s₁⟩
  | left + 1, t, s =>
    match round clock policy deadline job t s with
    | .over report => report
    | .next events t' delay s' =>
      (attempts clock policy deadline job left t' (clock.sleep delay s')).after events

/-- Polls a job.  The deadline counts from now on. -/
def run (clock : Clock σ) (policy : Policy) (job : Job σ ε α) (s : σ) :
    Report σ ε α :=
  let (start, s') := clock.now s
  attempts clock policy (policy.timeout.deadline? start) job maxAttempts .none s'

end Polling

end CausalTrace
