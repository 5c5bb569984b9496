import CurlyScript.Binary64.Decimal
import CurlyScript.Lexer.Error
import CurlyScript.Machine
import CurlyScript.Token.Basic

/-!
# Numerals

A numeral is a run of digits, an optional fraction and an optional exponent:
`digits ('.' digits)? ('e' '-'? digits)?`, where underscores may stand between and after the
digits of a run.  A point that no digit follows is not part of the numeral.

## Main definitions

* `Numeral` — the three parts as they are written.
* `Numeral.read` — the numeral at the head of a text, or what is wrong with it.
* `accumulate` — the number that a run of digits denotes, if it fits.
* `Numeral.power` — the number that the exponent comes to.
* `Numeral.value` — the number that a numeral denotes: whole unless it has a fraction or a negative
  exponent.

## References

`SPEC_FULL.md`, section 4.2.1, and section E7 for points and for the values.
-/

namespace CurlyScript

/-! ### Runs of digits -/

/-- Whether a character may continue a run of digits. -/
def isDigitOrSeparator (c : Char) : Bool := isDecimalDigit c || c == '_'

/-- Whether a text begins with a digit. -/
def startsWithDigit : List Char → Bool
  | c :: _ => isDecimalDigit c
  | [] => false

/-- The run of digits at the head of a text.  It is empty unless a digit comes first. -/
def digitRun (cs : List Char) : List Char :=
  if startsWithDigit cs then cs.takeWhile isDigitOrSeparator else []

/-- A run of digits without its separators. -/
def bareDigits (run : List Char) : List Char := run.filter (· != '_')

/-- The number that a run of digits denotes, if it fits after each digit. -/
def accumulate (run : List Char) : Option Int :=
  (bareDigits run).foldlM (fun number c =>
    (Machine.checkedMul number 10).bind (Machine.checkedAdd · (digitValue c))) 0

/-! ### Numerals -/

/-- A numeral, part by part, as it is written. -/
structure Numeral where
  /-- The digits before the point. -/
  whole : List Char
  /-- The digits after the point, if there is one. -/
  fraction : Option (List Char)
  /-- The exponent, if there is one: whether it has a sign, and its digits. -/
  exponent : Option (Bool × List Char)
  deriving DecidableEq

namespace Numeral

/-- The text of a fraction. -/
def fractionText : Option (List Char) → List Char
  | none => []
  | some digits => '.' :: digits

/-- The text of an exponent. -/
def exponentText : Option (Bool × List Char) → List Char
  | none => []
  | some (signed, digits) => 'e' :: (if signed then ['-'] else []) ++ digits

/-- The text of a numeral. -/
def text (n : Numeral) : List Char :=
  n.whole ++ fractionText n.fraction ++ exponentText n.exponent

/-- The fraction at the head of a text: a point with a digit after it. -/
def readFraction : List Char → Option (List Char)
  | '.' :: cs => if startsWithDigit cs then some (digitRun cs) else none
  | _ => none

/-- The exponent at the head of a text, or the characters that were taken for one and what is
wrong with them. -/
def readExponent : List Char → Except (List Char × LexicalError) (Option (Bool × List Char))
  | 'e' :: '-' :: '-' :: _ => .error (['e', '-', '-'], .multipleNegatives)
  | 'e' :: '-' :: cs =>
    if startsWithDigit cs then .ok (some (true, digitRun cs))
    else .error (['e', '-'], .invalidNumber)
  | 'e' :: cs =>
    if startsWithDigit cs then .ok (some (false, digitRun cs))
    else .error (['e'], .invalidNumber)
  | _ => .ok none

/-- The numeral at the head of a text that begins with a digit, or the characters that were
taken for one and what is wrong with them. -/
def read (cs : List Char) : Except (List Char × LexicalError) Numeral :=
  let whole := digitRun cs
  let rest := cs.drop whole.length
  let fraction := readFraction rest
  let written := fractionText fraction
  let rest := rest.drop written.length
  if fraction.isSome && (readFraction rest).isSome then
    .error (whole ++ written ++ ['.'], .invalidFloat)
  else
    match readExponent rest with
    | .ok exponent => .ok ⟨whole, fraction, exponent⟩
    | .error (taken, cause) => .error (whole ++ written ++ taken, cause)

/-- The parts of a numeral that has been read. -/
theorem parts_of_read {cs : List Char} {n : Numeral} (h : read cs = .ok n) :
    n.whole = digitRun cs ∧
    n.fraction = readFraction (cs.drop n.whole.length) ∧
    (n.fraction.isSome && (readFraction ((cs.drop n.whole.length).drop
      (fractionText n.fraction).length)).isSome) = false ∧
    readExponent ((cs.drop n.whole.length).drop (fractionText n.fraction).length) =
      .ok n.exponent := by
  unfold read at h
  simp only at h
  split at h
  · cases h
  · next hsingle =>
    split at h
    · next exponent hexponent =>
      cases h
      exact ⟨rfl, rfl, Bool.eq_false_iff.mpr hsingle, hexponent⟩
    · cases h

/-! ### Values -/

/-- The number that an exponent comes to.  Digits that do not fit stand for the greatest number. -/
def exponentPower (signed : Bool) (digits : List Char) : Int :=
  let power := (accumulate digits).getD Machine.greatest
  if signed then -power else power

/-- The number that the exponent comes to, zero if there is none. -/
def power (n : Numeral) : Int :=
  match n.exponent with
  | none => 0
  | some (signed, digits) => exponentPower signed digits

/-- Whether an exponent is written and has no effect. -/
def hasZeroPower (n : Numeral) : Bool := n.exponent.isSome && n.power == 0

/-- The value of a number from its lexeme, the digits before its point, whether it has a fraction,
and its power of ten.  A floating point number is read from the lexeme without its separators.  Of a
whole number the power and the digits before the point must fit, and their product too. -/
def literal (lexeme whole : List Char) (fractional : Bool) (power : Int) :
    Except LexicalError Literal :=
  if fractional || power < 0 then
    match Binary64.parse? (bareDigits lexeme) with
    | none => .error .invalidNumber
    | some value => .ok (.float value)
  else
    match (Machine.short? power).bind (Machine.checkedPow 10) with
    | none => .error .integerOverflow
    | some scale =>
      match (accumulate whole).bind (Machine.checkedMul · scale) with
      | none => .error .integerOverflow
      | some value => .ok (.int value)

/-- The number that a numeral denotes. -/
def value (n : Numeral) : Except LexicalError Literal :=
  literal n.text n.whole n.fraction.isSome n.power

/-- Whether the numeral denotes a binary floating point number. -/
def isFloat (n : Numeral) : Bool := n.fraction.isSome || n.power < 0

/-- The kind of the tokens for such numbers. -/
def kind (n : Numeral) : Kind := .literal (if n.isFloat then .float else .int)

end Numeral
end CurlyScript
