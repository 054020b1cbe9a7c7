import CausalTrace.Json.Basic

/-!
# Numbers of a JSON text

A numeral in its parts, and the number it denotes.  Integers in the range of 64 bits stay integers.
All other numerals become doubles through a 64-bit significand and a power of ten: digits are added
to the significand as long as it fits, then one multiplication or division by the double nearest to
the power of ten follows.  A numeral too large for a double denotes nothing.

## Main definitions

* `Json.Numeral` — sign, digits before and behind the point, exponent
* `Json.Numeral.value?` — the number denoted

## Design notes

One rounding of the significand and one of the product or quotient make the result differ from the
nearest double now and then; the rule is kept as it is because readers of the written numbers rely
on it.
-/

namespace CausalTrace.Json

/-- The parts of a numeral.  Digits are given by their values. -/
structure Numeral where
  negative : Bool
  /-- Digits before the point, at least one. -/
  whole : List Nat
  /-- Digits behind the point, if there is one. -/
  fraction : Option (List Nat)
  /-- The exponent's sign (whether it is negative) and digits, if there is one. -/
  exponent : Option (Bool × List Nat)
  deriving DecidableEq, Repr

/-- A significand of 64 bits and the power of ten it is to be multiplied by. -/
structure Scaled where
  significand : Nat
  power : Int
  deriving DecidableEq, Repr

namespace Numeral

/-- The first integer beyond 64 bits. -/
def limit : Nat := 0x10000000000000000

/-- The significand with one more digit, if it fits into 64 bits. -/
def append? (s digit : Nat) : Option Nat :=
  let next := 10 * s + digit
  if next < limit then some next else none

/-- Digits before the point: those that fit are added to the significand, and each further one
raises the power of ten. -/
def addWhole (s : Nat) : List Nat → Scaled
  | [] => ⟨s, 0⟩
  | d :: rest =>
    match append? s d with
    | some next => addWhole next rest
    | none => ⟨s, (d :: rest).length⟩

/-- Digits behind the point: each that fits lowers the power of ten, and from the first that does
not fit on they are ignored. -/
def addFraction (a : Scaled) : List Nat → Scaled
  | [] => a
  | d :: rest =>
    match append? a.significand d with
    | some next => addFraction ⟨next, a.power - 1⟩ rest
    | none => a

/-- The exponent's digits as a number of 31 bits, if it is one. -/
def exponentValue? (digits : List Nat) : Option Nat :=
  let n := digits.foldl (fun n d => 10 * n + d) 0
  if n < 0x80000000 then some n else none

/-- The double nearest to a power of ten. -/
def power10 (e : Nat) : Float := Float.ofScientific 1 false e

/-- The double nearest to a number of 64 bits. -/
def nearest (n : Nat) : Float := (UInt64.ofNat n).toFloat

/-- Division by a large power of ten, in steps of `1e308`. -/
def divide (x : Float) (e : Nat) : Float :=
  if e ≤ 308 then x / power10 e
  else if x == 0.0 then x
  else divide (x / power10 308) (e - 308)
termination_by e

/-- The magnitude of a significand times a power of ten; nothing when it is too large. -/
def scale? (a : Scaled) : Option Float :=
  let x := nearest a.significand
  if a.power < 0 then some (divide x a.power.natAbs)
  else if a.power ≤ 308 then
    let product := x * power10 a.power.natAbs
    if product.isFinite then some product else none
  else if x == 0.0 then some x
  else none

/-- The magnitude of a numeral that is not a plain integer, or too large for one. -/
def magnitude? (n : Numeral) : Option Float :=
  let a := addFraction (addWhole 0 n.whole) (n.fraction.getD [])
  match n.exponent with
  | none => scale? a
  | some (negative, digits) =>
    match exponentValue? digits with
    | some e => scale? ⟨a.significand, if negative then a.power - e else a.power + e⟩
    | none => if a.significand = 0 || negative then some 0.0 else none

/-- The value of a plain integer that 64 bits hold; `-0` is none of them. -/
def integer? (n : Numeral) : Option Int :=
  match n.fraction, n.exponent, addWhole 0 n.whole with
  | none, none, ⟨s, 0⟩ =>
    if n.negative then
      if 0 < s && s ≤ 0x8000000000000000 then some (-(s : Int)) else none
    else some s
  | _, _, _ => none

/-- The number that a numeral denotes; nothing when it is too large for a double. -/
def value? (n : Numeral) : Option Number :=
  match n.integer? with
  | some i => some (.int i)
  | none => n.magnitude?.map fun x => .float (if n.negative then -x else x)

end Numeral

end CausalTrace.Json
