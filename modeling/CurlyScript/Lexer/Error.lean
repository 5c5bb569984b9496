import CurlyScript.Text.Quoted

/-!
# Lexical errors

## Main definitions

* `LexicalError` — why the characters at some place form no token.
* `LexicalError.message` — the wording of each cause.

## References

`SPEC_FULL.md`, section 7, and section E2 for the wording.
-/

namespace CurlyScript

/-- Why the characters at some place form no token. -/
inductive LexicalError
  /-- A quoted text is never closed. -/
  | unterminatedString
  /-- A number has a second decimal point. -/
  | invalidFloat
  /-- An exponent has two signs. -/
  | multipleNegatives
  /-- An exponent has no digits. -/
  | invalidNumber
  /-- A whole number does not fit into 63 bits. -/
  | integerOverflow
  /-- A character starts no token. -/
  | unexpectedChar (c : Char)
  deriving DecidableEq

namespace LexicalError

/-- The wording of an error. -/
def message : LexicalError → String
  | .unterminatedString => "Unterminated string"
  | .invalidFloat => "Invalid float literal"
  | .multipleNegatives => "Invalid number literal with multiple negatives"
  | .invalidNumber => "Invalid number literal"
  | .integerOverflow => "Integer literal is too large"
  | .unexpectedChar c =>
    "Unexpected character '" ++ String.ofList (Text.escape .both c) ++ "'"

/-- The name of an error in a dump. -/
def label : LexicalError → String
  | .unterminatedString => "UnterminatedString"
  | .invalidFloat => "InvalidFloat"
  | .multipleNegatives => "MultipleNegatives"
  | .invalidNumber => "InvalidNumber"
  | .integerOverflow => "IntegerOverflow"
  | .unexpectedChar c => s!"UnexpectedChar({Text.quoteChar c})"

end LexicalError
end CurlyScript
