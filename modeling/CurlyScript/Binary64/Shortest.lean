import CurlyScript.Binary64.Basic

/-!
# The fewest digits that read back

Among the decimal numerals that round to a given value, the shortest ones are found by
trying grids of decimal numbers, coarse to fine: the first grid with a point in the interval
of reals that round to the value has the answer next to the value itself.

## Main definitions

* `Binary64.Interval` — the reals that round to a value, in units of a quarter of its last
  place.
* `Binary64.shortest` — digits and exponent of the shortest numeral that reads back.
-/

namespace CurlyScript
namespace Binary64

/-- A finite positive value with the interval of reals that round to it.  All three bounds
are multiples of one unit, `num / den`. -/
structure Interval where
  /-- The value, in units. -/
  value : Nat
  /-- The least real that rounds to the value, in units. -/
  low : Nat
  /-- The greatest real that rounds to the value, in units. -/
  high : Nat
  /-- Whether the two ends themselves round to the value. -/
  closed : Bool
  /-- The numerator of the unit. -/
  num : Nat
  /-- The denominator of the unit. -/
  den : Nat

/-- The interval of a finite positive value.  The unit is a quarter of the last place; below a
power of two the neighbour is half as far away.  Ties go to the even significand, which
therefore has the ends. -/
def interval (x : Binary64) : Interval :=
  let m := x.significand
  let q := x.scale - 2
  let below := if x.fraction = 0 ∧ 1 < x.exponentField then 1 else 2
  { value := 4 * m, low := 4 * m - below, high := 4 * m + 2, closed := m % 2 = 0
    num := Nat.pow 2 q.toNat, den := Nat.pow 2 (-q).toNat }

/-- Whether `digits * 10 ^ exponent` lies in the interval. -/
def Interval.holds (i : Interval) (digits : Nat) (exponent : Int) : Bool :=
  let point := digits * Nat.pow 10 exponent.toNat * i.den
  let unit := Nat.pow 10 (-exponent).toNat * i.num
  if i.closed then i.low * unit ≤ point && point ≤ i.high * unit
  else i.low * unit < point && point < i.high * unit

/-- The number of digits before the decimal point of the value: the `p` with
`10 ^ (p - 1) ≤ value < 10 ^ p`, searched downwards from `p`. -/
def Interval.pointFrom (i : Interval) : Nat → Int → Int
  | 0, p => p
  | fuel + 1, p =>
    if Nat.pow 10 (p - 1).toNat * i.den ≤ i.value * i.num * Nat.pow 10 (1 - p).toNat then p
    else i.pointFrom fuel (p - 1)

/-- The number of digits before the decimal point.  Finite values lie below `10 ^ 309` and
above `10 ^ (-324)`. -/
def Interval.point (i : Interval) : Int := i.pointFrom 633 309

/-- The point of the grid `10 ^ exponent` that reads back and lies nearest to the value, a
tie going up. -/
def Interval.onGrid? (i : Interval) (exponent : Int) : Option Nat :=
  let n := i.value * i.num * Nat.pow 10 (-exponent).toNat
  let d := i.den * Nat.pow 10 exponent.toNat
  let below := n / d
  match i.holds below exponent, i.holds (below + 1) exponent with
  | true, true => some (if 2 * (n % d) < d then below else below + 1)
  | true, false => some below
  | false, true => some (below + 1)
  | false, false => none

/-- The first grid, from `digits` digits on, with a point that reads back. -/
def Interval.search (i : Interval) (point : Int) : Nat → Nat → Nat × Int
  | 0, digits => (i.value, point - digits)
  | fuel + 1, digits =>
    match i.onGrid? (point - digits) with
    | some found => (found, point - digits)
    | none => i.search point fuel (digits + 1)

/-- Moves trailing zeros of a numeral into its exponent. -/
def trimZeros : Nat → Nat → Int → Nat × Int
  | 0, digits, exponent => (digits, exponent)
  | fuel + 1, digits, exponent =>
    if digits % 10 = 0 ∧ digits ≠ 0 then trimZeros fuel (digits / 10) (exponent + 1)
    else (digits, exponent)

/-- The shortest numeral `digits * 10 ^ exponent` that rounds to a finite positive value, and
the nearest to it of that length.  Seventeen digits always suffice. -/
def shortest (x : Binary64) : Nat × Int :=
  let i := x.interval
  let (digits, exponent) := i.search i.point 17 1
  trimZeros 17 digits exponent

end Binary64
end CurlyScript
