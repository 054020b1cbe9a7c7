import CausalTrace.Proofs.Polling.Deadline

/-!
# How long polling waits

The wait of a backoff step is the base delay times a power of two, cut at the longest span there is
and at the cap, as long as the power fits into 32 bits.  From the thirty-second step on the power
does not fit, and the wait is as long as it can be, however short the base delay is: a base delay of
zero gives no wait at all up to the thirty-first step, and then a wait without end.

## Main definitions

* `Policy.exactDelay` — the base delay times a power of two, cut only where it does not fit

## Main statements

* `Policy.delay_settled` — the wait of every step, and when it is the exact one
-/

namespace CausalTrace.Policy

/-- The base delay doubled a number of times, cut at the longest span. -/
def saturated (base steps : Nat) : Nat := min (base * 2 ^ steps) longestSpan

/-- The exact wait of a backoff step: the base delay doubled, cut only where it has to be. -/
def exactDelay (p : Policy) (step : Nat) : Nat :=
  match p.maxDelay with
  | some cap => min (saturated p.baseDelay step) cap
  | none => saturated p.baseDelay step

/-- Powers of two below 32 bits double a delay as they should. -/
theorem doubled_of_lt (base : Nat) {steps : Nat} (h : steps < 32) :
    doubled base steps = saturated base steps := by
  have hpower : Nat.pow 2 (min steps 32) = 2 ^ steps := by
    rw [Nat.min_eq_left (Nat.le_of_lt h)]
    rfl
  unfold doubled saturated
  rw [hpower]
  by_cases hfits : base * 2 ^ steps ≤ longestSpan
  · simp [h, hfits]
  · simp [hfits, Nat.le_of_not_le hfits]

/-- As long as the power of two fits into 32 bits, waits are exact. -/
theorem delay_of_lt (p : Policy) {step : Nat} (h : step < 32) :
    p.delay step = p.exactDelay step := by
  unfold delay exactDelay
  cases p.maxDelay with
  | none => exact doubled_of_lt p.baseDelay h
  | some cap => exact congrArg (min · cap) (doubled_of_lt p.baseDelay h)

/-- The longest wait is the exact one only if the doubled base delay reaches the longest span, or
the cap. -/
theorem longestDelay_eq_exactDelay_iff (p : Policy) (step : Nat) :
    p.longestDelay = p.exactDelay step ↔
      longestSpan ≤ p.baseDelay * 2 ^ step ∨
        ∃ cap, p.maxDelay = some cap ∧ cap ≤ p.baseDelay * 2 ^ step := by
  unfold longestDelay exactDelay saturated
  cases p.maxDelay with
  | none =>
      simp only [Option.map_none, Option.getD_none, reduceCtorEq, false_and, exists_false, or_false]
      omega
  | some cap =>
      simp only [Option.map_some, Option.getD_some, Option.some.injEq, exists_eq_left']
      omega

/-- Every wait up to the thirty-first is the base delay times the power of two of its step, as long
as that fits, and every wait after it is the longest one.  The two agree just when the doubled base
delay reaches the longest span, or the cap. -/
theorem delay_settled (p : Policy) (step : Nat) :
    p.delay step = (if step < 32 then p.exactDelay step else p.longestDelay) ∧
      (p.delay step = p.exactDelay step ↔
        step < 32 ∨ longestSpan ≤ p.baseDelay * 2 ^ step ∨
          ∃ cap, p.maxDelay = some cap ∧ cap ≤ p.baseDelay * 2 ^ step) := by
  by_cases h : step < 32
  · have hexact := p.delay_of_lt h
    exact ⟨by rw [if_pos h, hexact], iff_of_true hexact (.inl h)⟩
  · have hlongest := p.delay_of_le (Nat.le_of_not_lt h)
    refine ⟨by rw [if_neg h, hlongest], ?_⟩
    rw [hlongest, p.longestDelay_eq_exactDelay_iff step]
    simp [h]

/-- Waits are not exact: no delay, doubled 32 times, becomes the longest one; and so does the usual
base delay, which would be a wait of less than seven years. -/
theorem delay_ne_exactDelay :
    (⟨.unbounded, 0, none⟩ : Policy).exactDelay 32 = 0 ∧
      (⟨.unbounded, 0, none⟩ : Policy).delay 32 = longestSpan ∧
      (⟨.unbounded, usualBaseDelay, none⟩ : Policy).exactDelay 32 = 214748364800000000 ∧
      (⟨.unbounded, usualBaseDelay, none⟩ : Policy).delay 32 = longestSpan := by
  decide

end CausalTrace.Policy
