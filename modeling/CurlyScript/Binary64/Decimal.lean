import CurlyScript.Binary64.Rounding

/-!
# Decimal texts

A binary64 value is read from a decimal text: digits, a point before, among or after them, and an
exponent.  There must be a digit, but the point and the exponent may be missing.  A sign in front of
the digits, and the names of what is infinite or no number, are not covered.

## Main definitions

* `Decimal` — a decimal text, part by part.
* `Decimal.read?` — the parts of a text, if it is a decimal text.
* `Binary64.parse?` — the value nearest to what a decimal text denotes.

## References

`SPEC_FULL.md`, section E7, for what is read this way.
-/

namespace CurlyScript

/-! ### Digits -/

/-- Whether a character is a decimal digit. -/
def isDecimalDigit (c : Char) : Bool := '0' ≤ c && c ≤ '9'

/-- The number that a decimal digit denotes. -/
def digitValue (c : Char) : Nat := c.toNat - '0'.toNat

/-- The number that decimal digits denote. -/
def digitsValue (digits : List Char) : Nat :=
  digits.foldl (fun value c => value * 10 + digitValue c) 0

/-! ### Decimal texts -/

/-- A decimal text, part by part. -/
structure Decimal where
  /-- The digits before the point. -/
  whole : List Char
  /-- The digits behind the point. -/
  fraction : List Char
  /-- The exponent, zero if there is none. -/
  exponent : Int
  deriving DecidableEq

namespace Decimal

/-- The number that a text of digits denotes, if it is one. -/
def digits? (cs : List Char) : Option Nat :=
  if !cs.isEmpty && cs.all isDecimalDigit then some (digitsValue cs) else none

/-- The number that digits with or without a sign denote. -/
def signedDigits? : List Char → Option Int
  | '-' :: cs => (digits? cs).map fun e : Nat => -(e : Int)
  | '+' :: cs => (digits? cs).map fun e : Nat => (e : Int)
  | cs => (digits? cs).map fun e : Nat => (e : Int)

/-- The exponent that a decimal text ends in, zero if there is none. -/
def exponent? : List Char → Option Int
  | [] => some 0
  | letter :: cs => if letter = 'e' ∨ letter = 'E' then signedDigits? cs else none

/-- The digits behind a point, and what comes after them. -/
def afterPoint : List Char → List Char × List Char
  | '.' :: cs => (cs.takeWhile isDecimalDigit, cs.dropWhile isDecimalDigit)
  | cs => ([], cs)

/-- The parts of a text, if it is a decimal text. -/
def read? (cs : List Char) : Option Decimal :=
  let whole := cs.takeWhile isDecimalDigit
  let (fraction, rest) := afterPoint (cs.dropWhile isDecimalDigit)
  if whole = [] ∧ fraction = [] then none
  else (exponent? rest).map fun exponent => { whole, fraction, exponent }

/-- The value nearest to what a decimal text denotes. -/
def toBinary64 (d : Decimal) : Binary64 :=
  Binary64.ofDecimal (digitsValue (d.whole ++ d.fraction)) (d.exponent - d.fraction.length)

end Decimal

/-- The value nearest to what a text denotes, if it is a decimal text. -/
def Binary64.parse? (cs : List Char) : Option Binary64 := (Decimal.read? cs).map Decimal.toBinary64

end CurlyScript
