import CausalTrace.Backend.Lookup
import CausalTrace.Polling.Run

/-!
# States with a clock of their own

Adds a clock to a state.  It moves on by a nanosecond when it is read and by the time slept, and by
nothing else, so that what polling does on a state that changes only between attempts can be
computed ahead of the time it would take.

## Main definitions

* `Timed`, `Timed.clock`
* `Timed.lookup` — a backend next to the clock
-/

namespace CausalTrace

/-- A state and the moment, in nanoseconds. -/
structure Timed (σ : Type) where
  state : σ
  time : Nat

namespace Timed

variable {σ : Type}

/-- The clock of the state. -/
def clock : Clock (Timed σ) where
  now s := (s.time, { s with time := s.time + 1 })
  sleep span s := { s with time := s.time + span }

/-- A backend whose state lies next to the clock. -/
def lookup (l : Lookup σ) : Lookup (Timed σ) where
  backend := ⟨fun ids s =>
    let (r, state) := l.backend.batch ids s.state
    (r, { s with state := state })⟩
  maxRounds := l.maxRounds

end Timed

end CausalTrace
