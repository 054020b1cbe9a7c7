import CausalTrace.Polling.Timeout

/-!
# Backoff

How long polling waits between attempts: twice as long after every attempt, up to an optional cap.

## Main definitions

* `Policy` — timeout, base delay and cap; `usualBaseDelay`
* `Policy.delay` — the wait of a backoff step
-/

namespace CausalTrace

/-- The base delay that is taken when none is chosen: 50 milliseconds. -/
def usualBaseDelay : Nat := 50000000

/-- When polling waits, and for how long.  Delays are in nanoseconds. -/
structure Policy where
  timeout : Timeout
  /-- Half of the wait after the first attempt. -/
  baseDelay : Nat := usualBaseDelay
  /-- The longest single wait, if there is one. -/
  maxDelay : Option Nat := none
  deriving DecidableEq, Repr

namespace Policy

/-- The base delay doubled a number of times; the longest span when the factor does not fit into 32
bits, or the product is longer than that. -/
def doubled (base steps : Nat) : Nat :=
  let product := base * Nat.pow 2 (min steps 32)
  if steps < 32 && product ≤ longestSpan then product else longestSpan

/-- The wait of a backoff step; steps are counted from one on. -/
def delay (p : Policy) (step : Nat) : Nat :=
  match p.maxDelay with
  | some cap => min (doubled p.baseDelay step) cap
  | none => doubled p.baseDelay step

end Policy

end CausalTrace
