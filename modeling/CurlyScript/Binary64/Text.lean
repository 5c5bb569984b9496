import CurlyScript.Binary64.Shortest

/-!
# The text of a binary64 value

A value is written with the fewest digits that read back.  Positional notation, with at
least one decimal, is used for zero and for values from `10 ^ (-4)` up to `10 ^ 16`, and
scientific notation beyond.

## Main definitions

* `Binary64.isPositional` — which values are written positionally.
* `Binary64.text` — the text of a value.
-/

namespace CurlyScript
namespace Binary64

/-- Whether a numeral with `point` digits before its decimal point is written positionally. -/
def isPositional (point : Int) : Bool := -3 ≤ point && point ≤ 16

/-- A numeral in positional notation, `point` being the number of its digits before the
decimal point. -/
def positional (digits : List Char) (point : Int) : List Char :=
  if point ≤ 0 then '0' :: '.' :: List.replicate (-point).toNat '0' ++ digits
  else
    let whole := point.toNat
    if digits.length ≤ whole then
      digits ++ List.replicate (whole - digits.length) '0' ++ ['.', '0']
    else digits.take whole ++ '.' :: digits.drop whole

/-- A numeral in scientific notation, with one digit before the decimal point. -/
def scientific (digits : List Char) (point : Int) : List Char :=
  let fraction := digits.drop 1
  digits.take 1 ++ (if fraction.isEmpty then [] else '.' :: fraction) ++
    'e' :: (toString (point - 1)).toList

/-- The text of a finite positive value. -/
def finiteText (x : Binary64) : List Char :=
  let (number, exponent) := x.shortest
  let digits := Nat.toDigits 10 number
  let point := exponent + digits.length
  if isPositional point then positional digits point else scientific digits point

/-- The text of a value. -/
def text (x : Binary64) : String :=
  if x.isNaN then "NaN"
  else
    let sign := if x.isNegative then ['-'] else []
    let rest :=
      if x.isInfinite then ['i', 'n', 'f']
      else if x.isZero then ['0', '.', '0']
      else x.finiteText
    String.ofList (sign ++ rest)

end Binary64
end CurlyScript
