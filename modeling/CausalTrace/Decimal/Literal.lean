import CausalTrace.Decimal.Shortest

/-!
# Numbers given as text

Reads the numbers of the command line and of the environment: whole numbers with an optional plus
sign, and decimals, which become the nearest double.

## Main definitions

* `Decimal.readNat` — a whole number of so many bits, or why the text is none
* `Decimal.readFloat?` — a double
-/

namespace CausalTrace.Decimal

/-! ### Whole numbers -/

/-- Why a text is no whole number. -/
inductive NatError
  | noDigits
  | invalidDigit
  | tooLarge
  deriving DecidableEq, Repr

/-- The text of an error. -/
def NatError.message : NatError → String
  | .noDigits => "cannot parse integer from empty string"
  | .invalidDigit => "invalid digit found in string"
  | .tooLarge => "number too large to fit in target type"

/-- The value of a decimal digit. -/
def digit? (c : Char) : Option Nat := if c.isDigit then some (c.toNat - 48) else none

/-- The number of digits read so far, followed by further characters; it must stay below a bound.
The first character that makes this impossible says why. -/
def addDigits (bound : Nat) : Nat → List Char → Except NatError Nat
  | n, [] => .ok n
  | n, c :: rest =>
    match digit? c with
    | none => .error .invalidDigit
    | some d => if 10 * n + d < bound then addDigits bound (10 * n + d) rest else .error .tooLarge

/-- A whole number of so many bits, with or without a plus sign. -/
def readNat (bits : Nat) (s : String) : Except NatError Nat :=
  match s.toList with
  | [] => .error .noDigits
  | ['+'] => .error .invalidDigit
  | '+' :: digits => addDigits (Nat.pow 2 bits) 0 digits
  | digits => addDigits (Nat.pow 2 bits) 0 digits

/-! ### Decimals -/

/-- The digits that characters start with, and the characters behind them. -/
def splitDigits (s : List Char) : List Char × List Char :=
  (s.takeWhile Char.isDigit, s.dropWhile Char.isDigit)

/-- The number of a row of digits. -/
def valueOf (digits : List Char) : Nat := digits.foldl (fun n c => 10 * n + (c.toNat - 48)) 0

/-- The exponent of a decimal: nothing, or a mark, an optional sign and digits up to the end. -/
def exponent? : List Char → Option Int
  | [] => some 0
  | c :: rest =>
    if c = 'e' || c = 'E' then
      let (negative, digits) := match rest with
        | '+' :: digits => (false, digits)
        | '-' :: digits => (true, digits)
        | digits => (false, digits)
      if !digits.isEmpty && digits.all Char.isDigit then
        some (if negative then -(valueOf digits : Int) else valueOf digits)
      else none
    else none

/-- The double nearest to `m · 10 ^ e`.  Beyond the given magnitudes all doubles are infinite, or
zero. -/
def nearestDouble (m : Nat) (e : Int) : Float :=
  let magnitude : Int := (Nat.toDigits 10 m).length + e
  if m = 0 || magnitude < -400 then 0.0
  else if 400 < magnitude then 1.0 / 0.0
  else if e < 0 then Float.ofScientific m true e.natAbs
  else Float.ofScientific m false e.natAbs

/-- A decimal without a sign: digits with an optional point in or around them, and an optional
exponent. -/
def unsigned? (s : List Char) : Option Float :=
  let (whole, rest) := splitDigits s
  let (fraction, rest') := match rest with
    | '.' :: tail => splitDigits tail
    | _ => ([], rest)
  if whole.isEmpty && fraction.isEmpty then none
  else
    (exponent? rest').map fun e =>
      nearestDouble (valueOf (whole ++ fraction)) (e - (fraction.length : Int))

/-- A word for a value that has no digits, in any case. -/
def word? (s : List Char) : Option Float :=
  let lower := String.ofList (s.map Char.toLower)
  if lower = "inf" || lower = "infinity" then some (1.0 / 0.0)
  else if lower = "nan" then some (0.0 / 0.0)
  else none

/-- The double nearest to a decimal; words for infinity and NaN are understood. -/
def readFloat? (s : String) : Option Float :=
  let magnitude? (t : List Char) := (unsigned? t).orElse fun _ => word? t
  match s.toList with
  | '-' :: rest => (magnitude? rest).map fun x => -x
  | '+' :: rest => magnitude? rest
  | all => magnitude? all

end CausalTrace.Decimal
