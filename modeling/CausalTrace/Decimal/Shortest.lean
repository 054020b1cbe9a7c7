/-!
# The shortest decimal of a double

A finite double is an integer times a power of two.  The decimals that read back as it are those
in the interval between the midpoints to its two neighbours, ends included when its integer is
even.  This file finds, in exact arithmetic on natural numbers, the decimal of that interval with
the fewest digits, and of several such the one nearest to the double.

## Main definitions

* `Dyadic` — the exact value of a double
* `Decimal` — digits and the place of the decimal point
* `Dyadic.shortest` — the shortest decimal that reads back

## Design notes

For `1, 2, …, 17` digits only two candidates matter: the two points of the grid of that many
digits next to the double.  The first grid with a candidate inside the interval wins.  A double
exactly between two candidates is settled by the caller (`Tie`).
-/

namespace CausalTrace

/-- The exact value `mantissa · 2 ^ exponent` of a non-negative double.  `tight` records that the
next double below is only half as far away as the next one above. -/
structure Dyadic where
  mantissa : Nat
  exponent : Int
  tight : Bool
  deriving DecidableEq, Repr

/-- One more than the largest fraction of a double, which has 52 bits. -/
def Dyadic.leadingBit : Nat := 0x10000000000000

/-- The magnitude of a finite double; nothing for infinities and for NaN.  The exponent, which has
11 bits, follows the fraction. -/
def Dyadic.ofFloat? (x : Float) : Option Dyadic :=
  let bits := x.toBits.toNat
  let fraction := bits % leadingBit
  let scale := bits / leadingBit % 2048
  if scale = 2047 then none
  else if scale = 0 then some ⟨fraction, -1074, false⟩
  else some ⟨fraction + leadingBit, (scale : Int) - 1075, fraction = 0 && 1 < scale⟩

/-- A decimal `0.d₁d₂…dₙ · 10 ^ point`. -/
structure Decimal where
  digits : List Char
  point : Int
  deriving DecidableEq, Repr

/-- Where a value exactly between two candidates goes. -/
inductive Tie
  /-- To the candidate whose last digit is even. -/
  | even
  /-- To the larger candidate. -/
  | up
  deriving DecidableEq, Repr

namespace Dyadic

/-- Factors `(t, b)` for which `c · 10 ^ k` compares with `x · 2 ^ q` as `c * t` with `x * b`. -/
def factors (k q : Int) : Nat × Nat :=
  (Nat.pow 10 k.toNat * Nat.pow 2 (-q).toNat, Nat.pow 2 q.toNat * Nat.pow 10 (-k).toNat)

/-- The `e` with `10 ^ (e - 1) ≤ v < 10 ^ e` for a positive `v`.  No positive double is below
`10 ^ (-350)`, so the digits of `⌊v · 10 ^ 350⌋` tell. -/
def magnitude (v : Dyadic) : Int :=
  let (t, b) := factors (-350) v.exponent
  (Nat.toDigits 10 (v.mantissa * b / t)).length - 350

/-- The multiple of `10 ^ k` that stands for `v`, if one reads back as `v`: of the two next to
`v` the one inside the interval of `v`, of two inside the nearer. -/
def onGrid? (tie : Tie) (v : Dyadic) (k : Int) : Option Nat :=
  let (t, b) := factors k (v.exponent - 2)
  let value := 4 * v.mantissa * b
  let low := (4 * v.mantissa - if v.tight then 1 else 2) * b
  let high := (4 * v.mantissa + 2) * b
  let inside (c : Nat) : Bool :=
    if v.mantissa % 2 = 0 then low ≤ c * t && c * t ≤ high else low < c * t && c * t < high
  let below := value / t
  let above := below + 1
  match inside below, inside above with
  | false, false => none
  | true, false => some below
  | false, true => some above
  | true, true =>
    let down := value - below * t
    let up := above * t - value
    if down < up then some below
    else if up < down then some above
    else match tie with
      | .up => some above
      | .even => some (if below % 2 = 0 then below else above)

/-- A multiple of `10 ^ k` as a decimal without zeros at its end. -/
def decimalOf (c : Nat) (k : Int) : Decimal :=
  let digits := Nat.toDigits 10 c
  ⟨(digits.reverse.dropWhile (· == '0')).reverse, digits.length + k⟩

/-- The decimal with the fewest digits that reads back as the positive value `v`; of several the
nearest, and `tie` settles a draw.  Seventeen digits always suffice. -/
def shortest (tie : Tie) (v : Dyadic) : Decimal :=
  let e := v.magnitude
  let hit := (List.range 17).findSome? fun i =>
    let k := e - (i + 1 : Nat)
    (v.onGrid? tie k).map fun c => decimalOf c k
  hit.getD ⟨[], e⟩

end Dyadic

end CausalTrace
