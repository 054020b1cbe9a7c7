import CausalTrace.Proofs.Polling.Course

/-!
# Time while polling

What all that polling does to a state has in common is true of a whole run.  This is said once, and
then used of the record of a run: if time does not go back while anything is done, and a sleep takes
at least as long as it should, the record is a chronicle.

## Main definitions

* `Polling.Kept` — properties of states that polling keeps, one act at a time
* `Polling.Timekeeping` — clocks that do not go back
* `Polling.Chronicle` — records in which time does not go back

## Main statements

* `Polling.Kept.run` — what every act keeps, a run keeps
* `Polling.Timekeeping.chronicle` — the record of a run is a chronicle

## Design notes

Every state has a moment, which need not be known to anybody: a reading of the clock lies between
the moments before and after it.  Producing and checking may take any time.
-/

namespace CausalTrace

variable {σ ε α : Type}

namespace Polling

/-! ### What a run keeps -/

/-- A property of states that is kept by reading the clock, sleeping, producing and checking. -/
structure Kept (clock : Clock σ) (job : Job σ ε α) (P : σ → Prop) : Prop where
  now : ∀ s, P s → P (clock.now s).2
  sleep : ∀ span s, P s → P (clock.sleep span s)
  produce : ∀ s, P s → P (job.produce s).2
  check : ∀ x s, P s → P (job.check x s).2

/-- The state that a round leaves. -/
def Round.state : Round σ ε α → σ
  | .over report => report.state
  | .next _ _ _ s => s

namespace Kept

variable {clock : Clock σ} {job : Job σ ε α} {P : σ → Prop} (h : Kept clock job P)
include h

theorem isLate (deadline : Option Nat) (t : Tally) {s : σ} (hs : P s) :
    P (isLate clock deadline t s).2 := by
  unfold Polling.isLate
  split
  · exact hs
  · split
    · exact hs
    · exact h.now s hs

theorem waitAfter (policy : Policy) (deadline : Option Nat) (number : Nat) {s : σ} (hs : P s) :
    P (waitAfter clock policy deadline number s).2 := by
  unfold Polling.waitAfter
  cases deadline with
  | none => exact hs
  | some d => exact h.now s hs

theorem attempt (t : Tally) {s : σ} (hs : P s) : P (attempt job t s).2 := by
  have hproduce := h.produce s hs
  unfold Polling.attempt
  generalize job.produce s = p at hproduce ⊢
  obtain ⟨e | x, s₁⟩ := p
  · simp only
    split <;> exact hproduce
  · have hcheck := h.check x s₁ hproduce
    simp only
    generalize job.check x s₁ = q at hcheck ⊢
    obtain ⟨_ | reason, s₂⟩ := q <;> exact hcheck

/-- A round keeps what its parts keep. -/
theorem round (policy : Policy) (deadline : Option Nat) (t : Tally) {s : σ} (hs : P s) :
    P (round clock policy deadline job t s).state := by
  have hlate := h.isLate deadline t hs
  unfold Polling.round
  generalize Polling.isLate clock deadline t s = p at hlate ⊢
  obtain ⟨_ | _, s₁⟩ := p
  · have hattempt := h.attempt t hlate
    simp only [Bool.false_eq_true, if_false]
    generalize Polling.attempt job t s₁ = q at hattempt ⊢
    obtain ⟨x | e | ⟨t', why⟩, s₂⟩ := q
    · exact hattempt
    · exact hattempt
    · exact h.waitAfter policy deadline _ hattempt
  · exact hlate

/-- All rounds, and the sleeps between them, keep what each of them keeps. -/
theorem attempts (policy : Policy) (deadline : Option Nat) : ∀ (left : Nat) (t : Tally) {s : σ},
    P s → P (attempts clock policy deadline job left t s).state := by
  intro left
  induction left with
  | zero =>
      intro t s hs
      have hlate := h.isLate deadline t hs
      unfold Polling.attempts
      generalize Polling.isLate clock deadline t s = p at hlate ⊢
      obtain ⟨_ | _, s₁⟩ := p <;> exact hlate
  | succ left ih =>
      intro t s hs
      have hround := h.round policy deadline t hs
      unfold Polling.attempts
      generalize Polling.round clock policy deadline job t s = r at hround ⊢
      obtain report | ⟨events, t', delay, s'⟩ := r
      · exact hround
      · exact ih t' (h.sleep delay s' hround)

/-- What every act keeps, a run keeps. -/
theorem run (policy : Policy) {s : σ} (hs : P s) : P (run clock policy job s).state :=
  h.attempts policy _ maxAttempts .none (h.now s hs)

end Kept

/-! ### Chronicles -/

/-- The moment after an act that begins at a moment, as far as the act tells. -/
def momentAfter (t : Nat) : Act ε α → Nat
  | .read now => now
  | .slept span => t + span
  | _ => t

/-- An act can begin at a moment: what is read is not before it. -/
def CanBegin (t : Nat) : Act ε α → Prop
  | .read now => t ≤ now
  | _ => True

/-- A record that begins at a moment, and in which time does not go back: nothing is read that is
before what was read, nor before the end of a sleep. -/
def Chronicle (t : Nat) : List (Act ε α) → Prop
  | [] => True
  | act :: rest => CanBegin t act ∧ Chronicle (momentAfter t act) rest

/-- Time does not go back during an act. -/
theorem CanBegin.le_momentAfter {t : Nat} {act : Act ε α} (h : CanBegin t act) :
    t ≤ momentAfter t act := by
  cases act with
  | read now => exact h
  | slept span => exact Nat.le_add_right t span
  | produced result => exact Nat.le_refl t
  | checked x against => exact Nat.le_refl t

/-- A record in two parts is a chronicle when both are, the second from where the first ends. -/
theorem chronicle_append {acts acts' : List (Act ε α)} : ∀ {t : Nat},
    Chronicle t (acts ++ acts') ↔
      Chronicle t acts ∧ Chronicle (acts.foldl momentAfter t) acts' := by
  induction acts with
  | nil =>
      intro t
      exact (and_iff_right trivial).symm
  | cons act rest ih =>
      intro t
      exact (and_congr_right fun _ => ih).trans and_assoc.symm

/-- Time does not go back during a chronicle. -/
theorem Chronicle.le_foldl {acts : List (Act ε α)} : ∀ {t : Nat}, Chronicle t acts →
    t ≤ acts.foldl momentAfter t := by
  induction acts with
  | nil => exact fun _ => Nat.le_refl _
  | cons act rest ih => exact fun h => Nat.le_trans h.1.le_momentAfter (ih h.2)

/-- Time does not go back: every state has a moment, a reading lies between the moments before and
after it, and sleeping moves the moment on by the time slept, or more. -/
structure Timekeeping (clock : Clock σ) (job : Job σ ε α) (moment : σ → Nat) : Prop where
  le_now : ∀ s, moment s ≤ (clock.now s).1
  now_le : ∀ s, (clock.now s).1 ≤ moment (clock.now s).2
  sleep : ∀ span s, moment s + span ≤ moment (clock.sleep span s)
  produce : ∀ s, moment s ≤ moment (job.produce s).2
  check : ∀ x s, moment s ≤ moment (job.check x s).2

namespace Timekeeping

variable {clock : Clock σ} {job : Job σ ε α} {moment : σ → Nat}

/-- The record is a chronicle at all times, and does not run ahead of the state. -/
theorem kept (h : Timekeeping clock job moment) (t : Nat) :
    Kept clock.recorded job.recorded fun p : σ × List (Act ε α) =>
      Chronicle t p.2 ∧ p.2.foldl momentAfter t ≤ moment p.1 := by
  have happend : ∀ {s : σ} {log : List (Act ε α)} (s' : σ) (act : Act ε α),
      Chronicle t log → CanBegin (log.foldl momentAfter t) act →
      momentAfter (log.foldl momentAfter t) act ≤ moment s' →
      Chronicle t (log ++ [act]) ∧ (log ++ [act]).foldl momentAfter t ≤ moment s' := by
    intro s log s' act hlog hbegin hmoment
    refine ⟨chronicle_append.mpr ⟨hlog, hbegin, trivial⟩, ?_⟩
    rw [List.foldl_append]
    exact hmoment
  constructor
  · rintro ⟨s, log⟩ ⟨hlog, hs⟩
    exact happend (s := s) _ _ hlog (Nat.le_trans hs (h.le_now s)) (h.now_le s)
  · rintro span ⟨s, log⟩ ⟨hlog, hs⟩
    exact happend (s := s) _ _ hlog trivial
      (Nat.le_trans (Nat.add_le_add_right hs span) (h.sleep span s))
  · rintro ⟨s, log⟩ ⟨hlog, hs⟩
    exact happend (s := s) _ _ hlog trivial (Nat.le_trans hs (h.produce s))
  · rintro x ⟨s, log⟩ ⟨hlog, hs⟩
    exact happend (s := s) _ _ hlog trivial (Nat.le_trans hs (h.check x s))

/-- What is recorded of a run after its start is a chronicle. -/
theorem chronicle (h : Timekeeping clock job moment) {policy : Policy} {s : σ}
    {acts : List (Act ε α)}
    (hrecord : run clock.recorded policy job.recorded (s, [])
      = (run clock policy job s).recorded ([] ++ .read (clock.now s).1 :: acts)) :
    Chronicle (clock.now s).1 acts := by
  have hrun := (h.kept (moment s)).run policy (s := (s, [])) ⟨trivial, Nat.le_refl _⟩
  rw [hrecord] at hrun
  exact hrun.1.2

end Timekeeping

end Polling

end CausalTrace
