import CausalTrace.Polling.Timed
import CausalTrace.Proofs.Polling.Chronicle
import Mathlib.Algebra.Order.Floor.Div
import Mathlib.Data.List.Chain

/-!
# Polling with a deadline

Polling that has a deadline ends.  The wait after an attempt doubles, from any base delay, and after
the thirty-second attempt it is as long as it can be: as long as the cap, or without a cap longer
than any time that is left.  From then on every attempt costs the cap, or all the time that is left.

## Main definitions

* `Policy.longestDelay`, `Policy.mostAttempts` — the longest wait, and how often it fits
* `Act.InTime` — what a sleep may follow

## Main statements

* `Polling.Course.sleeps` — a sleep follows a reading, and ends by the deadline
* `Polling.Course.attempts_le` — the number of attempts in a course
* `Polling.ends_by_deadline` — a run with a deadline ends, and after how many attempts

## Design notes

What is carried through a course is a bound on the moment from below: after `k` attempts, either the
deadline has come, or `k - 31` of the longest waits have passed since the start.  The first waits
may be of no length at all, as with a base delay of zero, and do not count.
-/

namespace CausalTrace

variable {σ ε α : Type}

/-! ### Waits -/

namespace Policy

/-- The wait of the thirty-second step, and of all further steps. -/
def longestDelay (p : Policy) : Nat := (p.maxDelay.map (min longestSpan)).getD longestSpan

/-- The number of attempts that are made at most in a number of nanoseconds. -/
def mostAttempts (p : Policy) (nanos : Nat) : Nat :=
  match p.maxDelay with
  | none => 32
  | some cap => 31 + max 1 (nanos ⌈/⌉ cap)

/-- From the thirty-second step on all waits are the same. -/
theorem delay_of_le (p : Policy) {step : Nat} (h : 32 ≤ step) : p.delay step = p.longestDelay := by
  have hdoubled : doubled p.baseDelay step = longestSpan := by
    simp [doubled, Nat.not_lt.mpr h]
  unfold delay longestDelay
  cases p.maxDelay with
  | none => exact hdoubled
  | some cap => simp [hdoubled]

/-- One attempt is always made. -/
theorem pos_mostAttempts (p : Policy) (nanos : Nat) : 0 < p.mostAttempts nanos := by
  unfold mostAttempts
  cases p.maxDelay <;> simp

/-- When `k - 31` of the longest waits do not fill the time, more than `k` attempts may be made. -/
theorem lt_mostAttempts (p : Policy) {nanos k : Nat} (hcap : p.maxDelay ≠ some 0)
    (hspan : nanos ≤ longestSpan) (h : (k - 31) * p.longestDelay < nanos) :
    k < p.mostAttempts nanos := by
  -- no more than 31 attempts, if a wait is longer than the time
  have hshort : nanos ≤ p.longestDelay → k ≤ 31 := by
    intro hle
    by_contra hk
    have hone : 1 * p.longestDelay ≤ (k - 31) * p.longestDelay :=
      Nat.mul_le_mul_right _ (by omega)
    omega
  unfold mostAttempts
  cases hmax : p.maxDelay with
  | none =>
      have := hshort (by simpa [longestDelay, hmax] using hspan)
      simp only
      omega
  | some cap =>
      have hpos : 0 < cap := Nat.pos_of_ne_zero fun hzero => hcap (by rw [hmax, hzero])
      simp only
      by_cases hlong : longestSpan ≤ cap
      · have := hshort (by simpa [longestDelay, hmax, hlong] using hspan)
        omega
      · have hdelay : p.longestDelay = cap := by
          simp [longestDelay, hmax, Nat.le_of_not_le hlong]
        have hceil : k - 31 < nanos ⌈/⌉ cap := by
          rw [hdelay, Nat.mul_comm] at h
          exact Nat.lt_of_not_le fun hle => Nat.not_le.mpr h ((ceilDiv_le_iff_le_mul hpos).mp hle)
        omega

end Policy

/-- A sleep directly follows a reading of the clock, and is no longer than the time that is left
then. -/
def Act.InTime (deadline : Nat) (act next : Act ε α) : Prop :=
  ∀ span, next = .slept span → ∃ now, act = .read now ∧ span ≤ deadline - now

namespace Polling

variable {policy : Policy} {job : Job σ ε α} {d : Nat} {before events : List Event}
  {acts : List (Act ε α)} {outcome : Outcome ε α}

/-! ### Sleeps -/

/-- What is done before the sleep of a round, and the sleep, is in time. -/
theorem isChain_round {start tried wait : List (Act ε α)} {number delay : Nat} {why : Event}
    {rest : List (Act ε α)} (act : Act ε α) (hstart : Begins (some d) before start)
    (htried : Fruitless job number tried why) (hwait : Waits policy (some d) number wait delay)
    (hrest : (Act.slept delay :: rest).IsChain (Act.InTime d)) :
    (act :: (start ++ tried ++ wait ++ .slept delay :: rest)).IsChain (Act.InTime d) := by
  cases hwait with
  | full hd => cases hd
  | cut d' now hd =>
      cases hd
      cases hstart <;> cases htried <;> simp [List.isChain_cons_cons, Act.InTime, hrest]

/-- A sleep follows a reading of the clock, and ends by the deadline. -/
theorem Course.sleeps (h : Course policy job (some d) before acts events outcome) :
    ∀ act : Act ε α, (act :: acts).IsChain (Act.InTime d) := by
  induction h with
  | timedOut _ now _ _ _ => exact fun act => by simp [Act.InTime]
  | accepted x hstart =>
      intro act
      cases hstart <;> simp [Act.InTime]
  | failed e hstart _ =>
      intro act
      cases hstart <;> simp [Act.InTime]
  | exhausted _ hstart =>
      intro act
      cases hstart <;> simp [Act.InTime]
  | again hstart htried hwait _ ih =>
      exact fun act => isChain_round act hstart htried hwait (ih _)

/-! ### Attempts -/

variable {start nanos t : Nat}

/-- What has come to pass by a moment, after a number of attempts: the deadline, or the end of as
many of the longest waits as there were attempts after the thirty-first. -/
def Reached (policy : Policy) (start nanos attempts t : Nat) : Prop :=
  min (start + nanos) (start + (attempts - 31) * policy.longestDelay) ≤ t

/-- The next attempt is made only if there may be another one. -/
theorem Begins.lt_mostAttempts (h : Begins (some (start + nanos)) before acts)
    (hcap : policy.maxDelay ≠ some 0) (hspan : nanos ≤ longestSpan) (hacts : Chronicle t acts)
    (hreached : Reached policy start nanos (before.countP Event.isAttempt) t) :
    before.countP Event.isAttempt < policy.mostAttempts nanos := by
  cases h with
  | first hzero => exact hzero ▸ policy.pos_mostAttempts nanos
  | unlimited hd => cases hd
  | early d now hd _ hearly =>
      cases hd
      have hnow : t ≤ now := hacts.1
      unfold Reached at hreached
      exact policy.lt_mostAttempts hcap hspan (by omega)

/-- An attempt and the wait after it. -/
theorem Reached.next {k now : Nat} (h : Reached policy start nanos k t) (hnow : t ≤ now) :
    Reached policy start nanos (k + 1)
      (now + min (policy.delay (k + 1)) (start + nanos - now)) := by
  unfold Reached at h ⊢
  by_cases hk : k < 31
  · rw [show k - 31 = 0 by omega] at h
    rw [show k + 1 - 31 = 0 by omega]
    omega
  · rw [policy.delay_of_le (by omega), show k + 1 - 31 = (k - 31) + 1 by omega, Nat.succ_mul]
    omega

/-- The reading after an attempt, and the time after the wait. -/
theorem Chronicle.wait {begun wait : List (Act ε α)} {number delay : Nat}
    (h : Chronicle t (begun ++ wait ++ .slept delay :: acts))
    (hwait : Waits policy (some d) number wait delay) :
    ∃ now, t ≤ now ∧ delay = min (policy.delay number) (d - now) ∧
      Chronicle (now + delay) acts := by
  cases hwait with
  | full hd => cases hd
  | cut _ now hd =>
      cases hd
      rw [List.append_assoc, chronicle_append] at h
      obtain ⟨hbegun, hread, -, hrest⟩ := h
      exact ⟨now, Nat.le_trans hbegun.le_foldl hread, rfl, hrest⟩

/-- The number of attempts in a course that has a deadline; they are not used up. -/
theorem Course.attempts_le
    (h : Course policy job (some (start + nanos)) before acts events outcome)
    (hcap : policy.maxDelay ≠ some 0) (hspan : nanos ≤ longestSpan)
    (hcount : policy.mostAttempts nanos ≤ maxAttempts) :
    ∀ {t : Nat}, Chronicle t acts →
      Reached policy start nanos (before.countP Event.isAttempt) t →
      before.countP Event.isAttempt ≤ policy.mostAttempts nanos →
      outcome ≠ .exhausted ∧
        (before ++ events).countP Event.isAttempt ≤ policy.mostAttempts nanos := by
  induction h with
  | timedOut d now _ _ _ =>
      intro t _ _ hbefore
      exact ⟨by simp, by simpa [Event.isAttempt] using hbefore⟩
  | accepted x hstart =>
      intro t hacts hreached _
      have hlt := hstart.lt_mostAttempts hcap hspan (chronicle_append.mp hacts).1 hreached
      refine ⟨by simp, ?_⟩
      rw [List.countP_append]
      exact hlt
  | failed e hstart _ =>
      intro t hacts hreached _
      have hlt := hstart.lt_mostAttempts hcap hspan (chronicle_append.mp hacts).1 hreached
      refine ⟨by simp, ?_⟩
      rw [List.countP_append]
      exact hlt
  | exhausted hmany hstart =>
      intro t hacts hreached _
      have hlt := hstart.lt_mostAttempts hcap hspan hacts hreached
      -- fewer attempts may be made in the time given than can be counted
      rw [hmany] at hlt
      exact absurd hlt (Nat.not_lt.mpr hcount)
  | @again before events start' tried wait acts why delay outcome hstart htried hwait _ ih =>
      intro t hacts hreached _
      obtain ⟨now, hnow, rfl, hrest⟩ := hacts.wait hwait
      have hbegun : Chronicle t start' := by
        rw [List.append_assoc, List.append_assoc] at hacts
        exact (chronicle_append.mp hacts).1
      have hlt := hstart.lt_mostAttempts hcap hspan hbegun hreached
      rw [htried.countP_isAttempt] at ih
      simpa using ih hrest (hreached.next hnow) hlt

/-! ### Runs -/

/-- Polling with a deadline ends, if time does not go back, the deadline can be expressed, and a
single wait may take any time at all: after 32 attempts at most, or, when waits are capped, after 31
attempts and as many as the cap goes into the time given, but one at least.  All attempts are
counted, and no sleep goes beyond the deadline. -/
theorem ends_by_deadline {clock : Clock σ} {policy : Policy} {job : Job σ ε α} {moment : σ → Nat}
    (htime : Timekeeping clock job moment) {nanos : Nat} (htimeout : policy.timeout = .after nanos)
    {s : σ} (hdeadline : (clock.now s).1 + nanos < endOfTime) (hcap : policy.maxDelay ≠ some 0)
    (hcount : policy.mostAttempts nanos ≤ maxAttempts) :
    (run clock policy job s).outcome ≠ .exhausted ∧
      (run clock policy job s).events.countP Event.isAttempt ≤ policy.mostAttempts nanos ∧
      ∃ acts : List (Act ε α),
        run clock.recorded policy job.recorded (s, [])
            = (run clock policy job s).recorded (.read (clock.now s).1 :: acts) ∧
          (.read (clock.now s).1 :: acts).IsChain (Act.InTime ((clock.now s).1 + nanos)) := by
  obtain ⟨acts, hcourse, hrecord⟩ := run_course clock policy job s
  have hd : policy.timeout.deadline? (clock.now s).1 = some ((clock.now s).1 + nanos) := by
    rw [htimeout]
    exact if_pos hdeadline
  rw [hd] at hcourse
  have hspan : nanos ≤ longestSpan := by
    have : endOfTime ≤ longestSpan := by decide
    omega
  have hstart : Reached policy (clock.now s).1 nanos 0 (clock.now s).1 :=
    (Nat.min_le_right _ _).trans (by simp)
  obtain ⟨hends, hattempts⟩ := hcourse.attempts_le hcap hspan hcount
    (htime.chronicle (hrecord [])) hstart (Nat.zero_le _)
  exact ⟨hends, hattempts, acts, hrecord [], hcourse.sleeps _⟩

/-- What is never accepted is polled for at most 34 times in five nanoseconds, with waits of two
nanoseconds at most. -/
theorem ends_by_deadline_sample :
    let job : Job (Timed Unit) Unit Unit :=
      ⟨fun s => (.ok (), s), fun _ => true, fun _ => "", fun _ s => (some "no", s)⟩
    let policy : Policy := ⟨.after 5, 0, some 2⟩
    Timekeeping Timed.clock job Timed.time ∧ policy.timeout = .after 5 ∧
      (Timed.clock.now (⟨(), 7⟩ : Timed Unit)).1 + 5 < endOfTime ∧ policy.maxDelay ≠ some 0 ∧
      policy.mostAttempts 5 ≤ maxAttempts ∧
      (run Timed.clock policy job ⟨(), 7⟩).outcome ≠ .exhausted ∧
      (run Timed.clock policy job ⟨(), 7⟩).events.countP Event.isAttempt ≤ 34 := by
  intro job policy
  have htime : Timekeeping Timed.clock job Timed.time :=
    ⟨fun _ => Nat.le_refl _, fun _ => Nat.le_succ _, fun _ _ => Nat.le_refl _,
      fun _ => Nat.le_refl _, fun _ _ => Nat.le_refl _⟩
  have hdeadline : (Timed.clock.now (⟨(), 7⟩ : Timed Unit)).1 + 5 < endOfTime := by decide
  have hcap : policy.maxDelay ≠ some 0 := by decide
  have hmost : policy.mostAttempts 5 = 34 := by decide
  have hcount : policy.mostAttempts 5 ≤ maxAttempts := by decide
  obtain ⟨hends, hattempts, -⟩ := ends_by_deadline htime rfl hdeadline hcap hcount
  exact ⟨htime, rfl, hdeadline, hcap, hcount, hends, hmost ▸ hattempts⟩

end Polling

end CausalTrace
