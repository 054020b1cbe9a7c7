import CausalTrace.Decimal.Shortest

/-!
# Writing doubles as text

How the shortest decimal of a double is laid out: with a decimal point in place, or as digits and a
power of ten.  Two styles are in use, one for JSON texts and one for messages.

## Main definitions

* `Decimal.Style` — the decisions of a layout
* `Decimal.Style.json`, `Decimal.Style.message`
* `Decimal.Style.render` — the text of a double
-/

namespace CausalTrace.Decimal

/-- The decisions of a layout of shortest decimals. -/
structure Style where
  /-- Where a value between two shortest decimals goes. -/
  tie : Tie
  /-- The least and the greatest place of the decimal point that is written in place; without
  bounds every value is. -/
  inPlace : Option (Int × Int)
  /-- What an integral value carries at its end. -/
  integral : String

/-- JSON texts write magnitudes from `1e-5` to below `1e16` in place, keep `.0` on integral values
and send a draw to the even digit. -/
def Style.json : Style := ⟨.even, some (-4, 16), ".0"⟩

/-- Messages write every value in place, without `.0`, and send a draw up. -/
def Style.message : Style := ⟨.up, none, ""⟩

/-- Whether a decimal with its point at this place is written in place. -/
def Style.writesInPlace (style : Style) (point : Int) : Bool :=
  match style.inPlace with
  | none => true
  | some (low, high) => low ≤ point && point ≤ high

/-- A positive decimal with its point in place. -/
def positional (style : Style) (d : Decimal) : String :=
  let length := d.digits.length
  if d.point ≤ 0 then
    "0." ++ String.ofList (List.replicate (-d.point).toNat '0' ++ d.digits)
  else if length ≤ d.point.toNat then
    String.ofList (d.digits ++ List.replicate (d.point.toNat - length) '0') ++ style.integral
  else
    String.ofList (d.digits.take d.point.toNat ++ '.' :: d.digits.drop d.point.toNat)

/-- A positive decimal as one digit, the others behind a point, and a signed power of ten. -/
def scientific (d : Decimal) : String :=
  let head := d.digits.take 1
  let tail := d.digits.drop 1
  let power := d.point - 1
  let sign := if power < 0 then '-' else '+'
  String.ofList (head ++ (if tail.isEmpty then [] else '.' :: tail) ++ ['e', sign])
    ++ Nat.repr power.natAbs

/-- The text of a double. -/
def Style.render (style : Style) (x : Float) : String :=
  let sign := if 0x8000000000000000 ≤ x.toBits.toNat then "-" else ""
  match Dyadic.ofFloat? x with
  | none => if x.isNaN then "NaN" else sign ++ "inf"
  | some v =>
    if v.mantissa = 0 then sign ++ "0" ++ style.integral
    else
      let d := v.shortest style.tie
      sign ++ if style.writesInPlace d.point then d.positional style else d.scientific

end CausalTrace.Decimal
