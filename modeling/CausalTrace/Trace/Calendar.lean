import CausalTrace.Trace.Timestamp

/-!
# Calendar texts of timestamps

The date and time of a timestamp in universal time, in the form of RFC 3339.

## Main definitions

* `Calendar.Date`, `Calendar.Date.ofDay` — the Gregorian date of a day since the epoch
* `Timestamp.rfc3339` — the text of a timestamp
-/

namespace CausalTrace

namespace Calendar

/-- A Gregorian date. -/
structure Date where
  year : Nat
  month : Nat
  day : Nat
  deriving DecidableEq, Repr

/-- The date of a day since the epoch.  Years are counted from March on, so that the leap day is
the last one of its year, in eras of 400 years with 146097 days each. -/
def Date.ofDay (n : Nat) : Date :=
  let shifted := n + 719468
  let era := shifted / 146097
  let dayOfEra := shifted % 146097
  let yearOfEra := (dayOfEra - dayOfEra / 1460 + dayOfEra / 36524 - dayOfEra / 146096) / 365
  let dayOfYear := dayOfEra - (365 * yearOfEra + yearOfEra / 4 - yearOfEra / 100)
  let monthFromMarch := (5 * dayOfYear + 2) / 153
  let month := if monthFromMarch < 10 then monthFromMarch + 3 else monthFromMarch - 9
  ⟨400 * era + yearOfEra + (if month ≤ 2 then 1 else 0), month,
    dayOfYear - (153 * monthFromMarch + 2) / 5 + 1⟩

/-- A number with zeros in front, up to a width. -/
def padded (width n : Nat) : String :=
  let digits := Nat.toDigits 10 n
  String.ofList (List.replicate (width - digits.length) '0' ++ digits)

/-- A fraction of a second in nanoseconds, without zeros at its end; nothing for a full second. -/
def fraction (nanos : Nat) : String :=
  if nanos = 0 then ""
  else
    "." ++ String.ofList (((padded 9 nanos).toList.reverse.dropWhile (· == '0')).reverse)

end Calendar

open Calendar in
/-- The text of a timestamp: date and time in universal time, a fraction only if there is one. -/
def Timestamp.rfc3339 (t : Timestamp) : String :=
  let second := t.toNat / 1000000000
  let date := Date.ofDay (second / 86400)
  let time := second % 86400
  padded 4 date.year ++ "-" ++ padded 2 date.month ++ "-" ++ padded 2 date.day ++ "T"
    ++ padded 2 (time / 3600) ++ ":" ++ padded 2 (time / 60 % 60) ++ ":" ++ padded 2 (time % 60)
    ++ fraction (t.toNat % 1000000000) ++ "Z"

end CausalTrace
