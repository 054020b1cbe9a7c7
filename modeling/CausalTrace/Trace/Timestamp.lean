/-!
# Timestamps

Points in time as whole nanoseconds since the epoch.  Documents give seconds as doubles; they are
converted once, when a document is read, and back when a segment is written.

## Main definitions

* `Timestamp`, ordered by its nanoseconds
* `Timestamp.ofSeconds`, `Timestamp.seconds`

## Design notes

Rounding goes by the part that is lost when a number is cut to a whole one: that part is exact, and
the cut keeps to the range of the nanoseconds.
-/

namespace CausalTrace

/-- Nanoseconds since 1970-01-01T00:00:00Z. -/
structure Timestamp where
  nanos : UInt64
  deriving DecidableEq, Repr, Inhabited

namespace Timestamp

/-- The epoch. -/
def epoch : Timestamp := ⟨0⟩

/-- Nanoseconds as a natural number. -/
def toNat (t : Timestamp) : Nat := t.nanos.toNat

instance : LE Timestamp := ⟨fun a b => a.toNat ≤ b.toNat⟩

instance : LT Timestamp := ⟨fun a b => a.toNat < b.toNat⟩

instance : DecidableLE Timestamp := fun a b => inferInstanceAs (Decidable (a.toNat ≤ b.toNat))

instance : DecidableLT Timestamp := fun a b => inferInstanceAs (Decidable (a.toNat < b.toNat))

/-- The nanosecond nearest to a number of seconds; a half goes away from zero.  NaN and negative
numbers give the epoch, numbers too large the last nanosecond that 64 bits hold. -/
def ofSeconds (seconds : Float) : Timestamp :=
  let nanos := seconds * 1e9
  let below := nanos.toUInt64
  ⟨if 0.5 ≤ nanos - below.toFloat && below < 0xFFFFFFFFFFFFFFFF then below + 1 else below⟩

/-- Seconds since the epoch. -/
def seconds (t : Timestamp) : Float := t.nanos.toFloat / 1e9

/-- Nanoseconds from a start to an end; zero when the end comes first. -/
def since (finish start : Timestamp) : Nat := finish.toNat - start.toNat

end Timestamp

end CausalTrace
