import CurlyScript.Binary64.Basic

/-!
# Decimal digits to the nearest binary64 value

A decimal numeral is rounded to the nearest representable value, a tie going to the even
neighbour.  The rounding is exact: the numeral is a ratio of two natural numbers and the
significand is a rounded quotient.

## Main definitions

* `Binary64.roundDiv` — a quotient rounded to the nearest natural number.
* `Binary64.ofRatio` — the value nearest to a ratio.
* `Binary64.ofDecimal` — the value nearest to `digits * 10 ^ exponent`.
-/

namespace CurlyScript
namespace Binary64

/-- `n / d` rounded to the nearest natural number, a tie to the even one. -/
def roundDiv (n d : Nat) : Nat :=
  let q := n / d
  let r := n % d
  if 2 * r > d ∨ (2 * r = d ∧ q % 2 = 1) then q + 1 else q

/-- The greatest `e` with `2 ^ e ≤ n / d`, for positive `n` and `d`. -/
def floorLog2 (n d : Nat) : Int :=
  let e : Int := (Nat.log2 n : Int) - Nat.log2 d
  -- the true exponent is `e` or `e - 1`
  if d * Nat.pow 2 e.toNat ≤ n * Nat.pow 2 (-e).toNat then e else e - 1

/-- The value nearest to `n / d`, for positive `d`.  With `m` the rounded significand and
`q` its power of two, the bits are `(q + 1074) * 2 ^ 52 + m` for normal and subnormal values
alike, and a significand that rounds up to `2 ^ 53` carries into the exponent by itself. -/
def ofRatio (n d : Nat) : Binary64 :=
  if n = 0 then ⟨0⟩
  else
    let q := max (floorLog2 n d - 52) (-1074)
    let m := roundDiv (n * Nat.pow 2 (-q).toNat) (d * Nat.pow 2 q.toNat)
    ⟨UInt64.ofNat (min ((q + 1074).toNat * Nat.pow 2 52 + m) infiniteMagnitude)⟩

/-- The value nearest to `digits * 10 ^ exponent`.  A numeral whose leading digit stands
beyond the range of the format is infinite or zero without its power being formed. -/
def ofDecimal (digits : Nat) (exponent : Int) : Binary64 :=
  let point := exponent + (Nat.toDigits 10 digits).length
  if digits = 0 then ⟨0⟩
  else if 310 < point then infinity
  else if point < -330 then ⟨0⟩
  else ofRatio (digits * Nat.pow 10 exponent.toNat) (Nat.pow 10 (-exponent).toNat)

end Binary64
end CurlyScript
