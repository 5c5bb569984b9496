import CurlyScript.Binary64.Text
import CurlyScript.Span
import CurlyScript.Token.Kind

/-!
# Tokens

A token is a kind, the text it was scanned from, the span of that text and, for literals,
a value.  Two tokens are the same when they differ in nothing but their place.

## Main definitions

* `Literal` — the value of a literal token.
* `Token` — kind, lexeme, span and value.
* `Token.same` — sameness up to the place.
* `Token.recast` — a token of another kind at the same place.

## References

`SPEC_FULL.md`, section 3, under `Token`.
-/

namespace CurlyScript

/-! ### Values -/

/-- The value that a literal token was scanned to. -/
inductive Literal
  /-- A whole number. -/
  | int (value : Int)
  /-- A binary floating point number. -/
  | float (value : Binary64)
  /-- The contents of a quoted text, or a name. -/
  | str (value : String)
  deriving DecidableEq

namespace Literal

/-- Sameness of values: numbers are compared as numbers. -/
def same : Literal → Literal → Bool
  | .int a, .int b => a == b
  | .float a, .float b => a.same b
  | .str a, .str b => a == b
  | _, _ => false

/-- The bare text of a value. -/
def text : Literal → String
  | .int value => toString value
  | .float value => value.text
  | .str value => value

/-- A value with its family. -/
def dump : Literal → String
  | .int value => s!"Int({value})"
  | .float value => s!"Float({value.text})"
  | .str value => s!"Str({Text.quote value})"

end Literal

/-- Sameness of two optional parts: both missing, or both there and the same. -/
def sameOption {α : Type} (same : α → α → Bool) : Option α → Option α → Bool
  | none, none => true
  | some a, some b => same a b
  | _, _ => false

@[simp] theorem sameOption_none {α : Type} (same : α → α → Bool) :
    sameOption same none none = true := rfl

@[simp] theorem sameOption_some {α : Type} (same : α → α → Bool) (a b : α) :
    sameOption same (some a) (some b) = same a b := rfl

/-! ### Tokens -/

/-- A lexical token. -/
structure Token where
  /-- What the token is. -/
  kind : Kind
  /-- The text it was scanned from. -/
  lexeme : String
  /-- Where that text stands. -/
  span : Span
  /-- The value of a literal. -/
  literal : Option Literal := none
  deriving DecidableEq

namespace Token

/-- The end of a file, at a place. -/
def endOfFile (span : Span) : Token := { kind := .endOfFile, lexeme := "", span }

/-- Whether the token marks the end of a file. -/
def isEnd (t : Token) : Bool := t.kind == .endOfFile

/-- Sameness up to the place. -/
def same (a b : Token) : Bool :=
  a.kind == b.kind && a.lexeme == b.lexeme && sameOption Literal.same a.literal b.literal

/-- A token of another kind and spelling at the same place, without a value. -/
def recast (t : Token) (kind : Kind) (lexeme : String) : Token :=
  { kind, lexeme, span := t.span }

/-- A token as a reader of messages sees it. -/
def text (t : Token) : String := if t.isEnd then "end of file" else s!"'{t.lexeme}'"

/-- A token with its kind, and its value or else its lexeme. -/
def dump (t : Token) : String :=
  match t.literal with
  | some value => s!"{t.kind.label}({value.dump})"
  | none => s!"{t.kind.label}({Text.quote t.lexeme})"

@[simp] theorem isEnd_endOfFile (span : Span) : (endOfFile span).isEnd = true := rfl

@[simp] theorem span_recast (t : Token) (kind : Kind) (lexeme : String) :
    (t.recast kind lexeme).span = t.span := rfl

end Token
end CurlyScript
