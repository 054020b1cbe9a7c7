import CausalTrace.Decimal.Shortest

/-!
# Timeouts

How long polling goes on.  A timeout is given in seconds, where zero means no limit, and is kept in
whole nanoseconds.

## Main definitions

* `Timeout`, `Timeout.ofSeconds?`
* `Timeout.deadline?` — the moment at which polling that starts now ends
-/

namespace CausalTrace

/-- The longest span that can be expressed, in nanoseconds: 64 bits of seconds and one nanosecond
less than a full second. -/
def longestSpan : Nat := 0xFFFFFFFFFFFFFFFF * 1000000000 + 999999999

/-- The first moment that no clock reading expresses, in nanoseconds: readings have 63 bits of
seconds. -/
def endOfTime : Nat := 0x8000000000000000 * 1000000000

/-- How long polling goes on. -/
inductive Timeout
  /-- Until a value is accepted or polling fails for good. -/
  | unbounded
  /-- For a number of nanoseconds. -/
  | after (nanos : Nat)
  deriving DecidableEq, Repr

namespace Timeout

/-- The whole number nearest to a fraction; a half goes to the even one. -/
def roundHalfEven (numerator denominator : Nat) : Nat :=
  let below := numerator / denominator
  let twice := 2 * (numerator % denominator)
  if twice < denominator then below
  else if denominator < twice then below + 1
  else if below % 2 = 0 then below
  else below + 1

/-- The nanoseconds nearest to a number of seconds. -/
def nanosOf (seconds : Dyadic) : Nat :=
  roundHalfEven (seconds.mantissa * 1000000000 * Nat.pow 2 seconds.exponent.toNat)
    (Nat.pow 2 (-seconds.exponent).toNat)

/-- The timeout of a number of seconds; none for NaN and negative numbers.  Zero, and numbers too
large for a span, mean no limit. -/
def ofSeconds? (seconds : Float) : Option Timeout :=
  if seconds.isNaN || seconds < 0.0 then none
  else if seconds == 0.0 then some .unbounded
  else
    match Dyadic.ofFloat? seconds with
    | none => some .unbounded
    | some v =>
      let nanos := nanosOf v
      some (if nanos ≤ longestSpan then .after nanos else .unbounded)

/-- The moment at which polling that starts at a moment ends.  There is none without a limit, and
none when it is too far away to be expressed. -/
def deadline? (t : Timeout) (start : Nat) : Option Nat :=
  match t with
  | .unbounded => none
  | .after nanos => if start + nanos < endOfTime then some (start + nanos) else none

end Timeout

end CausalTrace
